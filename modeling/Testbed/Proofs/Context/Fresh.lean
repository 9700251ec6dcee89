import Mathlib
import Testbed.Proofs.Context.Alone
import Testbed.Proofs.Context.Ground

/-! A context is built fresh. Whatever stood in its place, the installer finds two empty
directories, and each source is handed to it once, in order, up to the first that it does not
accept. What it leaves is the context, with the record added; what comes of a provisioning does not
depend on what was there before. -/
namespace Testbed

open Host (Location Tree IsName)

variable {p : Provisioner} {installer : Installer}

/-! ### The layout -/

/-- The tree with a context laid out in a place, and nothing else in there. -/
def layout (t : Tree) (dir : Location) : Tree :=
  (((t.erase dir).set dir .directory).set (dir ++ ["bin"]) .directory).set (dir ++ ["tmp"]) .directory

/-- The host with a context laid out in a place. -/
def Host.laidOut (h : Host) (made : Tree) (dir : Location) : Host := { h with tree := layout made dir }

theorem get?_layout (t : Tree) {dir : Location} (hdir : dir ≠ []) (place : Location) :
    (layout t dir).get? place =
      if place = dir ∨ place = dir ++ ["bin"] ∨ place = dir ++ ["tmp"] then some .directory
      else if dir <+: place then none else t.get? place := by
  rw [layout, Tree.get?_set _ (by simp), Tree.get?_set _ (by simp), Tree.get?_set _ hdir]
  by_cases hp : place = []
  · subst hp
    simp
  · rw [Tree.get?_erase _ _ hp]
    by_cases h₁ : place = dir ++ ["tmp"] <;> by_cases h₂ : place = dir ++ ["bin"] <;>
      by_cases h₃ : place = dir <;> simp [h₁, h₂, h₃]

theorem alike_layout {base : Location} {names : List String} {name : String} (hn : name ∈ names)
    (t : Tree) : Alike base names t (layout t (base ++ [name])) := by
  refine alike_of_within hn fun place hp => ?_
  have hnot : ¬ (place = base ++ [name] ∨ place = base ++ [name] ++ ["bin"] ∨
      place = base ++ [name] ++ ["tmp"]) := by
    rintro (rfl | rfl | rfl)
    · exact hp (List.prefix_refl _)
    · exact hp (List.prefix_append _ _)
    · exact hp (List.prefix_append _ _)
  rw [get?_layout t (by simp), if_neg hnot, if_neg hp]

namespace Provisioning

variable {w : World} {base : Location} {made : Tree} {name : String} {deps : List Dependency}

/-- On ground whose lock is free a context is laid out, whatever was there. -/
theorem laysOut_of_ground (hg : Ground p w.host base [name] made)
    (hfree : w.locks.line name = []) :
    LaysOut p installer w name deps (w.host.laidOut made (base ++ [name])) := by
  have hn : name ∈ [name] := List.mem_singleton_self _
  have hsits : Sits w.host.tree (base ++ [name]) := (hg.contexts _ hn).imp_right And.right
  generalize hdir : base ++ [name] = dir at hsits ⊢
  have hne : dir ≠ [] := by
    rw [← hdir]
    simp
  have hr := hg.removable rfl (.inl rfl) hn (hdir ▸ hsits)
  -- the first directory is made, with the work directory where that is missing
  have halike : Alike base [name] made (made.erase dir) :=
    alike_of_within hn fun place hp => get?_erase_within made _ (hdir ▸ hp)
  have hbin : (w.host.tree.erase dir).makeDirAll w.host.cwd ((p.envDir name).join "bin").text =
      .ok (((made.erase dir).set dir .directory).set (dir ++ ["bin"]) .directory) := by
    subst hdir
    exact hg.makeDirAll_first (hg.makeDirAll_erase hn) halike hn (Tree.erase_vacant _ hne) isName_bin
  -- the second stands beside it
  have halike' : Alike base [name] made
      (((made.erase dir).set dir .directory).set (dir ++ ["bin"]) .directory) :=
    halike.trans (alike_of_within hn fun place hp => by
      rw [hdir] at hp
      rw [get?_set_within _ hne (List.prefix_append _ _) _ hp,
        get?_set_within _ hne (List.prefix_refl _) _ hp])
  have htmp : (((made.erase dir).set dir .directory).set (dir ++ ["bin"]) .directory).makeDirAll
      w.host.cwd ((p.envDir name).join "tmp").text = .ok (layout made dir) := by
    obtain ⟨left, hb⟩ := Host.behind_of_found (hg.leads _ halike')
    subst hdir
    refine hb.makeDirAll_below (hg.named _ hn) isName_tmp ?_ ?_
    · rw [Tree.get?_set _ (by simp), if_neg (by simp), Tree.get?_set _ hne, if_pos rfl]
    · rw [Tree.get?_set _ (by simp), if_neg (by simp), Tree.get?_set _ hne, if_neg (by simp)]
      exact Tree.erase_vacant _ hne _ (List.prefix_append _ _)
  have hclear := hg.cleared_eq rfl (.inl rfl) hn (hdir ▸ hsits)
  rw [hdir] at hclear
  let h₁ : Host := { w.host with
    tree := ((made.erase dir).set dir .directory).set (dir ++ ["bin"]) .directory }
  refine @laysOut p installer w name deps _ h₁ _ hfree hr hclear ?_ ?_
  · rw [Host.makeDirAll, hbin, Host.withTree_ok]
  · rw [Host.makeDirAll, htmp, Host.withTree_ok]
    rfl

end Provisioning

/-- The old content of a context does not show in how it is laid out. -/
theorem layout_eq {h : Host} {base : Location} {name : String} {made made' t : Tree}
    (hg : Ground p h base [name] made) (hg' : Ground p { h with tree := t } base [name] made')
    (ht : t.erase (base ++ [name]) = h.tree.erase (base ++ [name])) :
    layout made' (base ++ [name]) = layout made (base ++ [name]) := by
  have hn : name ∈ [name] := List.mem_singleton_self _
  have hmade := hg'.makeDirAll_erase hn
  rw [show ({ h with tree := t } : Host).tree = t from rfl, ht, hg.makeDirAll_erase hn] at hmade
  rw [layout, layout, Except.ok.inj hmade]

namespace Provisioning

/-- Contexts in a directory of the root. -/
def rootSite (keep : Bool) : Provisioner := ⟨⟨"/.envrun"⟩, ⟨"/"⟩, keep, [0]⟩

theorem ground_rootSite (keep : Bool) {names : List String} {t : Tree}
    (hnames : ∀ name ∈ names, Config.isIdentifier name = true ∧ name.utf8ByteSize ≤ Tree.maxName)
    (ht : t.get? [".envrun"] = some .directory) (hs : ∀ name ∈ names, Sits t [".envrun", name]) :
    Ground (rootSite keep) ⟨t, [], []⟩ [".envrun"] names t := by
  have hnul : Char.ofNat 0 ∉ Host.lead ⟨"/.envrun"⟩ := by decide
  have habs : Host.origin [] ⟨"/.envrun"⟩ = [] := by decide
  have hstem : Host.stem ⟨"/.envrun"⟩ = ["", ".envrun"] := by decide
  refine Ground.of_directories hnul habs hstem ?_ ?_ ?_ hs
  · rintro name hn
    obtain rfl := List.mem_singleton.1 hn
    exact ⟨⟨by decide, by decide, by decide⟩, ⟨by decide, by decide, by decide⟩, by decide⟩
  · intro place hp
    rcases List.prefix_cons_iff.1 hp with rfl | ⟨rest, rfl, hr⟩
    · exact Tree.get?_root t
    · obtain rfl := List.prefix_nil.1 hr
      exact ht
  · exact fun name hn => isName_of_isIdentifier (hnames name hn).1 (hnames name hn).2

/-- A context that somebody left a file in. -/
def staleTree : Tree :=
  ⟨[([".envrun"], .directory), ([".envrun", "a"], .directory),
    ([".envrun", "a", "old"], .file (.bytes []) Tree.newFileMode)]⟩

/-- Takes whatever it is given, and leaves no trace. -/
def traceless : Installer := fun h _ _ => ⟨h.tree, [], false, .none, .exited 0 ""⟩

/-- A work directory with nothing in it. -/
def bareHost : Host := ⟨staleTree.erase [".envrun", "a"], [], []⟩

theorem vacant_bareHost (name : String) : bareHost.tree.Vacant [".envrun", name] := by
  rintro place ⟨rest, rfl⟩
  have htree : bareHost.tree = ⟨[([".envrun"], .directory)]⟩ := by decide
  rw [htree]
  simp [Tree.get?]

theorem behind_rootSite {t : Tree} (ht : t.get? [".envrun"] = some .directory) :
    ∃ left, Host.Behind t [] ⟨"/.envrun"⟩ [".envrun"] left := by
  have hg : Ground (rootSite true) ⟨t, [], []⟩ [".envrun"] [] t :=
    ground_rootSite true nofun ht nofun
  exact Host.behind_of_found (hg.leads t (Alike.refl _ _ _))

theorem follow_bareHost (followLast : Bool) :
    bareHost.tree.follow followLast bareHost.cwd ((rootSite true).envDir "a").text =
      .free [".envrun"] "a" false := by
  have hname : IsName "a" := isName_of_isIdentifier (by decide) (by decide)
  obtain ⟨_, hb⟩ := @behind_rootSite bareHost.tree (by decide)
  exact hb.follow_free hname (vacant_bareHost "a" _ (List.prefix_refl _)) followLast

/-- There is nothing to remove. -/
theorem without_bareHost : bareHost.without ((rootSite true).envDir "a") = bareHost := by
  have hr : bareHost.removeTree ((rootSite true).envDir "a") = .error ⟨.notFound, bareHost⟩ := by
    rw [Host.removeTree, Tree.removeTree, Tree.lstat, follow_bareHost, Host.withTree_error]
  exact Host.without_error hr

/-- A context is laid out and recorded in the work directory, and all else stays as it is. -/
theorem laid_rootSite {t : Tree} {name : String} (hname : IsName name)
    (ht : t.get? [".envrun"] = some .directory) (hvacant : t.Vacant [".envrun", name]) :
    ∃ h₁ h₂, Host.exists? ⟨t, [], []⟩ ((rootSite true).envDir name) = false ∧
      Host.makeDirAll ⟨t, [], []⟩ (((rootSite true).envDir name).join "bin") = .ok h₁ ∧
      h₁.tree.get? [".envrun", name] = some .directory ∧
      h₁.makeDirAll (((rootSite true).envDir name).join "tmp") = .ok h₂ ∧
      ∀ data, ∃ t', h₂.write (Metadata.path ((rootSite true).envDir name)) data =
          .ok ⟨t', [], []⟩ ∧
        ∀ loc, ¬ [".envrun", name] <+: loc → t'.get? loc = t.get? loc := by
  let t₀ := t.set [".envrun", name] .directory
  let t₁ := t₀.set [".envrun", name, "bin"] .directory
  let t₂ := t₁.set [".envrun", name, "tmp"] .directory
  have hwithin (u : Tree) (rest : Location) (entry : Host.Entry) {loc : Location}
      (hloc : ¬ [".envrun", name] <+: loc) :
      (u.set ([".envrun", name] ++ rest) entry).get? loc = u.get? loc := by
    rw [Tree.get?_set _ (by simp), if_neg]
    rintro rfl
    exact hloc (List.prefix_append _ _)
  have hnot : ¬ [".envrun", name] <+: [".envrun"] := by simp
  have ht₀ : t₀.get? [".envrun"] = some .directory := (hwithin t [] _ hnot).trans ht
  have ht₁ : t₁.get? [".envrun"] = some .directory := (hwithin t₀ ["bin"] _ hnot).trans ht₀
  have ht₂ : t₂.get? [".envrun"] = some .directory := (hwithin t₁ ["tmp"] _ hnot).trans ht₁
  obtain ⟨_, hb⟩ := behind_rootSite ht
  obtain ⟨_, hb₀⟩ := behind_rootSite ht₀
  obtain ⟨_, hb₁⟩ := behind_rootSite ht₁
  obtain ⟨_, hb₂⟩ := behind_rootSite ht₂
  have hmissing : Host.exists? ⟨t, [], []⟩ ((rootSite true).envDir name) = false := by
    have hfree := hb.follow_free hname (hvacant _ (List.prefix_refl _)) true
    have hstat : Tree.stat t [] ((⟨"/.envrun"⟩ : Path).join name).text = .error .notFound := by
      rw [Tree.stat, hfree]
    exact congrArg Except.isOk hstat
  have hbin := Host.makeDirAll_two hb.makeDirAll_here hb hb₀ hname isName_bin hvacant
  have hmade₀ : t₀.get? [".envrun", name] = some .directory := by
    rw [Tree.get?_set _ (by simp), if_pos rfl]
  have hmade₁ : t₁.get? [".envrun", name] = some .directory := by
    rw [Tree.get?_set _ (by simp), if_neg (by simp), hmade₀]
  have hmade₂ : t₂.get? [".envrun", name] = some .directory := by
    rw [Tree.get?_set _ (by simp), if_neg (by simp), hmade₁]
  have hfree₁ (other : String) (hne : other ≠ "bin") : t₁.get? [".envrun", name, other] = none := by
    rw [Tree.get?_set _ (by simp), if_neg (by simpa using hne), Tree.get?_set _ (by simp),
      if_neg (by simp)]
    exact hvacant _ ⟨[other], rfl⟩
  have hfree₂ : t₂.get? [".envrun", name, Metadata.fileName] = none := by
    rw [Tree.get?_set _ (by simp), if_neg (by simp [Metadata.fileName])]
    exact hfree₁ _ (by decide)
  have htmp := hb₁.makeDirAll_below hname isName_tmp hmade₁ (hfree₁ "tmp" (by decide))
  have hwrite := hb₂.write_below_free hname isName_record hmade₂ hfree₂
  refine ⟨⟨t₁, [], []⟩, ⟨t₂, [], []⟩, hmissing, congrArg (Host.withTree ⟨t, [], []⟩) hbin, hmade₁,
    congrArg (Host.withTree ⟨t₁, [], []⟩) htmp,
    fun data => ⟨_, Host.write_ok (hwrite data), fun loc hloc => ?_⟩⟩
  exact (hwithin t₂ [Metadata.fileName] _ hloc).trans ((hwithin t₁ ["tmp"] _ hloc).trans
    ((hwithin t₀ ["bin"] _ hloc).trans (hwithin t [] _ hloc)))

/-! ### A work directory that is reached through a context -/

/-- The way to the contexts goes through one of them. -/
def roundabout : Provisioner := ⟨⟨"py36/sub/../.."⟩, ⟨"/"⟩, false, [0]⟩

/-- What must be there for the way to lead anywhere. -/
def roundaboutTree : Tree := ⟨[(["py36"], .directory), (["py36", "sub"], .directory)]⟩

theorem makeDirs_roundabout : Tree.makeDirs 4 ⟨[]⟩ [] "py36/sub/../.." = .ok roundaboutTree := by
  have h₁ : Tree.makeDirs 1 ⟨[]⟩ [] "py36" = .ok ⟨[(["py36"], .directory)]⟩ := by
    rw [Tree.makeDirs, Tree.makeDir, Tree.follow_names (by decide) (by decide) (by decide)]
    cbv
  have h₂ : Tree.makeDirs 2 ⟨[]⟩ [] "py36/sub" = .ok roundaboutTree := by
    refine Host.makeDirs_up (by decide) (by decide) ?_ h₁ (Host.ensureDir_of_makeDir ?_)
    all_goals
      rw [Tree.makeDir, Tree.follow_names (by decide) (by decide) (by decide)]
      cbv
  have h₃ : Tree.makeDirs 3 ⟨[]⟩ [] "py36/sub/.." = .ok roundaboutTree := by
    refine Host.makeDirs_up (by decide) (by decide) ?_ h₂
      (@Host.ensureDir_here _ _ ["py36"] _ fun fl => ?_)
    · rw [Tree.makeDir, Tree.follow_names (by decide) (by decide) (by decide)]
      cbv
    · rw [Tree.follow_names (by decide) (by decide) (by decide)]
      cases fl <;> cbv
  refine Host.makeDirs_up (by decide) (by decide) ?_ h₃ (@Host.ensureDir_here _ _ [] _ fun fl => ?_)
  · rw [Tree.makeDir, Tree.follow_names (by decide) (by decide) (by decide)]
    cbv
  · rw [Tree.follow_names (by decide) (by decide) (by decide)]
    cases fl <;> cbv

theorem makeDirAll_roundabout :
    Tree.makeDirAll ⟨[]⟩ [] (roundabout.workDir.join ".").text = .ok roundaboutTree := by
  have hpath : (roundabout.workDir.join ".").text = "py36/sub/../../." := by decide
  have hmake : Tree.makeDirs 5 ⟨[]⟩ [] "py36/sub/../../." = .ok roundaboutTree := by
    refine Host.makeDirs_up (by decide) (by decide) ?_ makeDirs_roundabout
      (@Host.ensureDir_here _ _ [] _ fun fl => ?_)
    · rw [Tree.makeDir, Tree.follow_names (by decide) (by decide) (by decide)]
      cbv
    · rw [Tree.follow_names (by decide) (by decide) (by decide)]
      cases fl <;> cbv
  rw [hpath, Tree.makeDirAll]
  exact Tree.makeDirs_mono (by decide) hmake

/-- Before anything is there, the way leads nowhere. -/
theorem blank_roundabout : Host.Blank ⟨[]⟩ [] roundabout.workDir := by
  rcases Host.makeDirAll_here makeDirAll_roundabout with ⟨heq, -⟩ | ⟨hb, -⟩
  · exact absurd heq (by decide)
  · exact hb

theorem follow_roundabout {name : String} (hn : IsName name) (followLast : Bool) :
    Tree.follow ⟨[]⟩ followLast [] (roundabout.envDir name).text = .failed .notFound :=
  (blank_roundabout followLast hn.piece).1

theorem missing_roundabout {name : String} (hn : IsName name) :
    Host.exists? ⟨⟨[]⟩, [], []⟩ (roundabout.envDir name) = false := by
  rw [Host.exists?, Tree.exists?, Tree.stat, follow_roundabout hn]
  rfl

/-- There is nothing to clear where there is nothing. -/
theorem removeTree_roundabout {name : String} (hn : IsName name) :
    Host.removeTree ⟨⟨[]⟩, [], []⟩ (roundabout.envDir name) =
      .error ⟨.notFound, ⟨⟨[]⟩, [], []⟩⟩ := by
  rw [Host.removeTree, Tree.removeTree, Tree.lstat, follow_roundabout hn, Host.withTree_error]

theorem laysOut_roundabout {w : World} {name : String} {h₁ h₂ : Host} (hn : IsName name)
    (hhost : w.host = ⟨⟨[]⟩, [], []⟩) (hfree : w.locks.line name = [])
    (hbin : w.host.makeDirAll ((roundabout.envDir name).join "bin") = .ok h₁)
    (htmp : h₁.makeDirAll ((roundabout.envDir name).join "tmp") = .ok h₂) :
    LaysOut roundabout traceless w name [] h₂ := by
  have hr : w.host.removeTree (roundabout.envDir name) = .error ⟨.notFound, w.host⟩ := by
    rw [hhost, removeTree_roundabout hn]
  refine laysOut hfree (.inr ⟨_, hr⟩) ?_ hbin htmp
  simp [hhost, missing_roundabout hn]

/-- The way is there in a tree in which what it needs is there. -/
theorem behind_roundabout {t : Tree} (h : t.get? ["py36"] = some .directory)
    (hsub : t.get? ["py36", "sub"] = some .directory) :
    ∃ left, Host.Behind t [] roundabout.workDir [] left := by
  have hnames : Host.stem roundabout.workDir = ["py36", "sub", "..", ".."] := by decide
  have hname : IsName "py36" := isName_of_isIdentifier (by decide) (by decide)
  have hname' : IsName "sub" := isName_of_isIdentifier (by decide) (by decide)
  refine @Host.behind_of_found t true _ _ _ .directory ?_
  rw [Host.follow_join t true [] _ .here, if_neg (by decide), hnames]
  change t.walk true Tree.maxLinks [] ["py36", "sub", "..", "..", "."] = _
  rw [Tree.walk_plain (Tree.get?_root t) hname.plain hname.size, List.nil_append, h]
  dsimp only
  rw [Tree.walk_plain h hname'.plain hname'.size, List.singleton_append, hsub]
  dsimp only
  rw [Tree.walk_up hsub, List.dropLast_cons_of_ne_nil (by simp), List.dropLast_singleton,
    Tree.walk_up h, List.dropLast_singleton, Tree.walk_stay (Tree.get?_root t) (.inr rfl),
    Tree.walk_nil (Tree.get?_root t)]

/-- The context that the way goes through, laid out. -/
def roundaboutBin : Tree := roundaboutTree.set ["py36", "bin"] .directory

def roundaboutLaid : Tree := roundaboutBin.set ["py36", "tmp"] .directory

theorem makeBin_roundabout :
    Host.makeDirAll ⟨⟨[]⟩, [], []⟩ ((roundabout.envDir "py36").join "bin") =
      .ok ⟨roundaboutBin, [], []⟩ := by
  -- the first directory is made with the whole way to it
  have hup : Tree.makeDirs 5 ⟨[]⟩ [] "py36/sub/../../py36" = .ok roundaboutTree := by
    refine Host.makeDirs_up (by decide) (by decide) ?_ makeDirs_roundabout
      (@Host.ensureDir_here _ _ ["py36"] _ fun fl => ?_)
    · rw [Tree.makeDir, Tree.follow_names (by decide) (by decide) (by decide)]
      cbv
    · rw [Tree.follow_names (by decide) (by decide) (by decide)]
      cases fl <;> cbv
  have hmake : Tree.makeDirs 6 ⟨[]⟩ [] "py36/sub/../../py36/bin" = .ok roundaboutBin := by
    refine Host.makeDirs_up (by decide) (by decide) ?_ hup (Host.ensureDir_of_makeDir ?_)
    all_goals
      rw [Tree.makeDir, Tree.follow_names (by decide) (by decide) (by decide)]
      cbv
  have hpath : (roundabout.envDir "py36").join "bin" = ⟨"py36/sub/../../py36/bin"⟩ := by decide
  rw [hpath, Host.makeDirAll, Tree.makeDirAll, Tree.makeDirs_mono (by decide) hmake,
    Host.withTree_ok]

theorem makeTmp_roundabout :
    Host.makeDirAll ⟨roundaboutBin, [], []⟩ ((roundabout.envDir "py36").join "tmp") =
      .ok ⟨roundaboutLaid, [], []⟩ := by
  have hname : IsName "py36" := isName_of_isIdentifier (by decide) (by decide)
  obtain ⟨left, hb⟩ := @behind_roundabout roundaboutBin (by decide) (by decide)
  exact congrArg (Host.withTree ⟨roundaboutBin, [], []⟩)
    (hb.makeDirAll_below hname isName_tmp (by decide) (by decide))

/-- The way breaks off while the context is emptied, and then it is not found to be removed. -/
theorem without_roundabout :
    Host.without ⟨roundaboutLaid, [], []⟩ (roundabout.envDir "py36") =
      ⟨roundaboutLaid.hollow ["py36"], [], []⟩ := by
  have hpath : (⟨"py36/sub/../.."⟩ : Path).join "py36" = ⟨"py36/sub/../../py36"⟩ := by decide
  have hfound : roundaboutLaid.lstat [] ((⟨"py36/sub/../.."⟩ : Path).join "py36").text =
      .ok (["py36"], .directory) := by
    rw [hpath, Tree.lstat, Tree.follow_names (by decide) (by decide) (by decide)]
    cbv
  have hlost : (roundaboutLaid.hollow ["py36"]).lstat []
      ((⟨"py36/sub/../.."⟩ : Path).join "py36").text = .error .notFound := by
    rw [hpath, Tree.lstat, Tree.follow_names (by decide) (by decide) (by decide)]
    cbv
  have hname : IsName "py36" := isName_of_isIdentifier (by decide) (by decide)
  rcases Tree.removeTree_join hname.piece hname.plain hfound with ⟨hstill, -⟩ | ⟨-, hr⟩
  · rw [hlost] at hstill
    cases hstill
  · exact Host.without_ok (by rw [Host.removeTree]; exact congrArg _ hr)

end Provisioning

end Testbed
