import Testbed.Proofs.Config.Names
import Testbed.Proofs.Context.Effects
import Testbed.Proofs.Host.Directories

/-! The ground that contexts stand on. Contexts are directories side by side in one base, to which
the path of the work directory leads whatever the contexts hold. On such ground removing a context,
laying it out and writing its record do what they say, and nothing elsewhere. -/
namespace Testbed

open Host (Location Tree IsPiece IsName Behind Blank)
open Host.Tree (IsPlain)

/-! ### Names -/

theorem isPiece_of_isIdentifier {name : String} (h : Config.isIdentifier name = true) :
    IsPiece name ∧ IsPlain name := by
  have hslash := Config.not_mem_of_isIdentifier h (show Dependency.isNameChar '/' = false by decide)
  have hnul := Config.not_mem_of_isIdentifier h
    (show Dependency.isNameChar (Char.ofNat 0) = false by decide)
  obtain ⟨first, rest, hl, hfirst⟩ : ∃ first rest, name.toList = first :: rest ∧
      Dependency.isAlnum first = true := by
    unfold Config.isIdentifier at h
    split at h
    next first rest hl => exact ⟨first, rest, hl, (Bool.and_eq_true_iff.1 h).1⟩
    next => cases h
  have hdot : first ≠ '.' := by
    rintro rfl
    exact absurd hfirst (by decide)
  have hne (other : String) (ho : other.toList.head? ≠ some first) : name ≠ other := by
    rintro rfl
    simp [hl] at ho
  refine ⟨⟨hne "" (by simp), hslash, hnul⟩, ⟨hne "" (by simp), hne "." ?_, hne ".." ?_⟩⟩
  · simpa using fun heq => hdot heq.symm
  · simpa using fun heq => hdot heq.symm

theorem isName_of_isIdentifier {name : String} (h : Config.isIdentifier name = true)
    (hs : name.utf8ByteSize ≤ Tree.maxName) : IsName name :=
  ⟨(isPiece_of_isIdentifier h).1, (isPiece_of_isIdentifier h).2, hs⟩

theorem isName_bin : IsName "bin" :=
  isName_of_isIdentifier (by decide) (by decide)

theorem isName_tmp : IsName "tmp" :=
  isName_of_isIdentifier (by decide) (by decide)

theorem isName_record : IsName Metadata.fileName :=
  ⟨⟨by decide, by decide, by decide⟩, ⟨by decide, by decide, by decide⟩, by decide⟩

/-! ### Ground -/

/-- A place that is in none of the contexts of the names. -/
def Outside (base : Location) (names : List String) (place : Location) : Prop :=
  ∀ name ∈ names, ¬ base ++ [name] <+: place

/-- Trees that are the same outside the contexts of the names. -/
def Alike (base : Location) (names : List String) (t t' : Tree) : Prop :=
  ∀ place, Outside base names place → t'.get? place = t.get? place

/-- A host on which the contexts of the names stand side by side in a base. The work directory is
there, or can be made without touching a context; then its path leads to the base whatever is in the
contexts. Each context is absent, or a directory. -/
structure Ground (p : Provisioner) (h : Host) (base : Location) (names : List String) (made : Tree) :
    Prop where
  named : ∀ name ∈ names, IsName name
  makes : h.tree.makeDirAll h.cwd (p.workDir.join ".").text = .ok made
  spares : ∀ name ∈ names, ∀ place, base ++ [name] <+: place → made.get? place = h.tree.get? place
  leads : ∀ t, Alike base names made t →
    t.follow true h.cwd (p.workDir.join ".").text = .found base .directory
  contexts : ∀ name ∈ names, h.tree.Vacant (base ++ [name]) ∨
    h.exists? (p.envDir name) = true ∧ h.tree.get? (base ++ [name]) = some .directory

/-- A tree that differs from that of the ground in contexts alone, once the work directory is
there. -/
def Standing (h : Host) (base : Location) (names : List String) (made t : Tree) : Prop :=
  t = h.tree ∨ Alike base names made t

/-- A context that is absent, or a directory. -/
def Sits (t : Tree) (place : Location) : Prop := t.Vacant place ∨ t.get? place = some .directory

theorem Alike.refl (base : Location) (names : List String) (t : Tree) : Alike base names t t :=
  fun _ _ => rfl

theorem Alike.trans {base : Location} {names : List String} {t₁ t₂ t₃ : Tree}
    (h : Alike base names t₁ t₂) (h' : Alike base names t₂ t₃) : Alike base names t₁ t₃ :=
  fun place ho => (h' place ho).trans (h place ho)

/-- A change in one of the contexts. -/
theorem alike_of_within {base : Location} {names : List String} {name : String} (hn : name ∈ names)
    {t t' : Tree} (h : ∀ place, ¬ base ++ [name] <+: place → t'.get? place = t.get? place) :
    Alike base names t t' := fun place ho => h place (ho name hn)

theorem get?_set_within (t : Tree) {dir place : Location} (hdir : dir ≠ []) {loc : Location}
    (hl : dir <+: loc) (entry : Host.Entry) (hp : ¬ dir <+: place) :
    (t.set loc entry).get? place = t.get? place := by
  have hloc : loc ≠ [] := by
    rintro rfl
    exact hdir (List.prefix_nil.1 hl)
  rw [Tree.get?_set _ hloc, if_neg]
  rintro rfl
  exact hp hl

theorem get?_hollow_within (t : Tree) (dir : Location) {place : Location}
    (hp : ¬ dir <+: place) : (t.hollow dir).get? place = t.get? place := by
  by_cases hne : place = []
  · subst hne
    rw [Tree.get?_root, Tree.get?_root]
  · rw [Tree.get?_hollow _ _ hne, if_neg fun hle => hp hle.1]

theorem get?_erase_within (t : Tree) (dir : Location) {place : Location}
    (hp : ¬ dir <+: place) : (t.erase dir).get? place = t.get? place := by
  by_cases hne : place = []
  · subst hne
    rw [Tree.get?_root, Tree.get?_root]
  · rw [Tree.get?_erase _ _ hne, if_neg hp]

namespace Ground

variable {p : Provisioner} {h : Host} {base : Location} {names : List String} {made t : Tree}
  {name : String}

/-- On standing ground the work directory is there, or nothing is behind its path yet. -/
theorem standing_cases (hg : Ground p h base names made) (ht : Standing h base names made t) :
    (∃ left, Behind t h.cwd p.workDir base left) ∧ Alike base names made t ∨
      t = h.tree ∧ Blank t h.cwd p.workDir ∧ ∀ name ∈ names, t.Vacant (base ++ [name]) := by
  rcases ht with rfl | ha
  · rcases Host.makeDirAll_here hg.makes with ⟨rfl, -⟩ | ⟨hb, -⟩
    · exact .inl ⟨Host.behind_of_found (hg.leads _ (.refl _ _ _)), .refl _ _ _⟩
    · refine .inr ⟨rfl, hb, fun name hn => (hg.contexts name hn).resolve_right ?_⟩
      rintro ⟨hex, -⟩
      have hfollow := (hb true (hg.named name hn).piece).1
      rw [Host.exists?, Provisioner.envDir, Tree.exists?_of_failed hfollow] at hex
      cases hex
  · exact .inl ⟨Host.behind_of_found (hg.leads _ ha), ha⟩

theorem exists?_iff (hg : Ground p h base names made) (ht : Standing h base names made t)
    (hn : name ∈ names) (hs : Sits t (base ++ [name])) :
    t.exists? h.cwd (p.envDir name).text = true ↔ t.get? (base ++ [name]) = some .directory := by
  have hname := hg.named name hn
  rcases hg.standing_cases ht with ⟨⟨left, hb⟩, -⟩ | ⟨-, hb, hv⟩
  · rcases hs with hv | hd
    · have hnone := hv _ (List.prefix_refl _)
      simp [Tree.exists?, Tree.stat, Provisioner.envDir, hb.follow_free hname hnone, hnone,
        Except.isOk, Except.toBool]
    · exact iff_of_true (Tree.exists?_of_found (hb.follow_directory hname hd true)) hd
  · have hnone := hv name hn _ (List.prefix_refl _)
    simp [Provisioner.envDir, Tree.exists?_of_failed (hb true hname.piece).1, hnone]

/-- Removing a context leaves nothing of it, if there was anything. -/
theorem removeTree_cases (hg : Ground p h base names made) (ht : Standing h base names made t)
    (hn : name ∈ names) (hs : Sits t (base ++ [name])) :
    t.removeTree h.cwd (p.envDir name).text = .ok (t.erase (base ++ [name])) ∨
      t.removeTree h.cwd (p.envDir name).text = .error ⟨.notFound, t⟩ ∧
        t.erase (base ++ [name]) = t := by
  have hname := hg.named name hn
  have hgone (hv : t.Vacant (base ++ [name])) : t.erase (base ++ [name]) = t :=
    hv.erase_eq (by simp)
  rcases hg.standing_cases ht with ⟨⟨left, hb⟩, ha⟩ | ⟨-, hb, hv⟩
  · rcases hs with hv | hd
    · refine .inr ⟨?_, hgone hv⟩
      rw [Tree.removeTree, Tree.lstat, Provisioner.envDir,
        hb.follow_free hname (hv _ (List.prefix_refl _))]
    · -- the path leads to the context when it is empty, too
      have hlook : t.lstat h.cwd (p.envDir name).text = .ok (base ++ [name], .directory) :=
        Tree.lstat_eq_ok_iff.2 (hb.follow_directory hname hd false)
      obtain ⟨left', hb'⟩ := Host.behind_of_found (hg.leads _
        (ha.trans (alike_of_within hn fun place hp => get?_hollow_within t _ hp)))
      have hd' : (t.hollow (base ++ [name])).get? (base ++ [name]) = some .directory := by
        rw [Tree.get?_hollow _ _ (by simp), if_neg (by simp), hd]
      rcases Tree.removeTree_join hname.piece hname.plain hlook with ⟨-, hr⟩ | ⟨hlost, -⟩
      · exact .inl hr
      · rw [Tree.lstat_eq_ok_iff.2 (hb'.follow_directory hname hd' false)] at hlost
        cases hlost
  · refine .inr ⟨?_, hgone (hv name hn)⟩
    rw [Tree.removeTree, Tree.lstat, Provisioner.envDir, (hb false hname.piece).1]

/-- The tree in which the work directory is there. -/
theorem exists_made (hg : Ground p h base names made) (ht : Standing h base names made t) :
    ∃ t', t.makeDirAll h.cwd (p.workDir.join ".").text = .ok t' ∧ Alike base names made t' ∧
      ∀ name ∈ names, ∀ place, base ++ [name] <+: place → t'.get? place = t.get? place := by
  rcases hg.standing_cases ht with ⟨⟨left, hb⟩, ha⟩ | ⟨rfl, -, -⟩
  · exact ⟨t, hb.makeDirAll_here, ha, fun _ _ _ _ => rfl⟩
  · exact ⟨made, hg.makes, .refl _ _ _, hg.spares⟩

theorem removeTree_host_cases (hg : Ground p h base names made) {h' : Host} (hcwd : h'.cwd = h.cwd)
    (ht : Standing h base names made h'.tree) (hn : name ∈ names)
    (hs : Sits h'.tree (base ++ [name])) :
    h'.removeTree (p.envDir name) = .ok { h' with tree := h'.tree.erase (base ++ [name]) } ∨
      h'.removeTree (p.envDir name) = .error ⟨.notFound, h'⟩ ∧
        h' = { h' with tree := h'.tree.erase (base ++ [name]) } := by
  rcases hg.removeTree_cases ht hn hs with heq | ⟨heq, hsame⟩
  · rw [← hcwd] at heq
    exact .inl (by rw [Host.removeTree, heq, Host.withTree_ok])
  · rw [← hcwd] at heq
    exact .inr ⟨by rw [Host.removeTree, heq, Host.withTree_error], by rw [hsame]⟩

/-- A context can be removed, or there is none. -/
theorem removable (hg : Ground p h base names made) {h' : Host} (hcwd : h'.cwd = h.cwd)
    (ht : Standing h base names made h'.tree) (hn : name ∈ names)
    (hs : Sits h'.tree (base ++ [name])) :
    (∃ h'', h'.removeTree (p.envDir name) = .ok h'') ∨
      ∃ h'', h'.removeTree (p.envDir name) = .error ⟨.notFound, h''⟩ :=
  (hg.removeTree_host_cases hcwd ht hn hs).imp (fun hok => ⟨_, hok⟩) fun herr => ⟨_, herr.1⟩

/-- A host without a context. -/
theorem without_eq (hg : Ground p h base names made) {h' : Host} (hcwd : h'.cwd = h.cwd)
    (ht : Standing h base names made h'.tree) (hn : name ∈ names)
    (hs : Sits h'.tree (base ++ [name])) :
    h'.without (p.envDir name) = { h' with tree := h'.tree.erase (base ++ [name]) } := by
  rcases hg.removeTree_host_cases hcwd ht hn hs with hr | ⟨hr, hsame⟩
  · exact Host.without_ok hr
  · exact (Host.without_error hr).trans hsame

/-- Clearing a context removes it, whether or not it is found there first. -/
theorem cleared_eq (hg : Ground p h base names made) {h' : Host} (hcwd : h'.cwd = h.cwd)
    (ht : Standing h base names made h'.tree) (hn : name ∈ names)
    (hs : Sits h'.tree (base ++ [name])) :
    (if h'.exists? (p.envDir name) then h'.without (p.envDir name) else h') =
      { h' with tree := h'.tree.erase (base ++ [name]) } := by
  split
  next => exact hg.without_eq hcwd ht hn hs
  next hex =>
    have hnot : h'.tree.get? (base ++ [name]) ≠ some .directory := fun hd => by
      have := (hg.exists?_iff ht hn hs).2 hd
      rw [← hcwd] at this
      exact hex this
    rw [(hs.resolve_right hnot).erase_eq (by simp)]

theorem erase_standing (hg : Ground p h base names made) (ht : Standing h base names made t)
    (hn : name ∈ names) : Standing h base names made (t.erase (base ++ [name])) := by
  rcases hg.standing_cases ht with ⟨-, ha⟩ | ⟨rfl, -, hv⟩
  · exact .inr (ha.trans (alike_of_within hn fun place hp => get?_erase_within t _ hp))
  · rw [(hv name hn).erase_eq (by simp)]
    exact .inl rfl

/-- Making the work directory and clearing a context do not get in each other's way. -/
theorem makeDirAll_erase (hg : Ground p h base names made) (hn : name ∈ names) :
    (h.tree.erase (base ++ [name])).makeDirAll h.cwd (p.workDir.join ".").text =
      .ok (made.erase (base ++ [name])) := by
  rcases hg.standing_cases (.inl rfl) with ⟨⟨left, hb⟩, ha⟩ | ⟨-, -, hv⟩
  · obtain rfl : made = h.tree := Except.ok.inj (hg.makes.symm.trans hb.makeDirAll_here)
    obtain ⟨left', hb'⟩ := Host.behind_of_found
      (hg.leads _ (alike_of_within hn fun place hp => get?_erase_within h.tree _ hp))
    exact hb'.makeDirAll_here
  · have hv' : made.Vacant (base ++ [name]) := fun place hp => by
      rw [hg.spares name hn place hp]
      exact hv name hn place hp
    rw [(hv name hn).erase_eq (by simp), hv'.erase_eq (by simp)]
    exact hg.makes

/-- The first directory of a context is made with all above it. -/
theorem makeDirAll_first (hg : Ground p h base names made) {t' : Tree}
    (hm : t.makeDirAll h.cwd (p.workDir.join ".").text = .ok t') (ha : Alike base names made t')
    (hn : name ∈ names) (hv : t'.Vacant (base ++ [name])) {other : String} (ho : IsName other) :
    t.makeDirAll h.cwd ((p.envDir name).join other).text =
      .ok ((t'.set (base ++ [name]) .directory).set (base ++ [name] ++ [other]) .directory) := by
  obtain ⟨left, hb⟩ := Host.behind_of_found (hg.leads _ ha)
  have ha' : Alike base names made (t'.set (base ++ [name]) .directory) :=
    ha.trans (alike_of_within hn fun place hp =>
      get?_set_within t' (by simp) (List.prefix_refl _) _ hp)
  obtain ⟨left', hb'⟩ := Host.behind_of_found (hg.leads _ ha')
  exact Host.makeDirAll_two hm hb hb' (hg.named name hn) ho hv

/-- Directories on an absolute path that is free of links are ground for what stands in the last. -/
theorem of_directories (hnul : Char.ofNat 0 ∉ Host.lead p.workDir)
    (habs : Host.origin h.cwd p.workDir = []) (hstem : Host.stem p.workDir = "" :: base)
    (hbase : ∀ name ∈ base, IsName name)
    (hdirs : ∀ place, place <+: base → h.tree.get? place = some .directory)
    (hnames : ∀ name ∈ names, IsName name) (hsits : ∀ name ∈ names, Sits h.tree (base ++ [name])) :
    Ground p h base names h.tree := by
  have hlead (t : Tree) (ht : Alike base names h.tree t) :
      t.follow true h.cwd (p.workDir.join ".").text = .found base .directory := by
    have hdirs' (place : Location) (hp : place <+: base) : t.get? place = some .directory := by
      rw [ht place fun name _ hle => ?_]
      · exact hdirs place hp
      · have := (hle.trans hp).length_le
        rw [List.length_append, List.length_singleton] at this
        omega
    rw [Host.follow_join t true h.cwd p.workDir .here, if_neg hnul, habs, hstem, List.cons_append,
      Tree.walk_stay (Tree.get?_root t) (.inl rfl),
      @Tree.walk_directories _ _ _ [] _ _ hbase fun place _ hp => hdirs' place hp, List.nil_append,
      Tree.walk_stay (hdirs' base (List.prefix_refl _)) (.inr rfl),
      Tree.walk_nil (hdirs' base (List.prefix_refl _))]
  obtain ⟨left, hb⟩ := Host.behind_of_found (hlead _ (.refl _ _ _))
  refine ⟨hnames, hb.makeDirAll_here, fun _ _ _ _ => rfl, hlead, fun name hn => ?_⟩
  exact (hsits name hn).imp_right fun hd =>
    ⟨Tree.exists?_of_found (hb.follow_directory (hnames name hn) hd true), hd⟩

end Ground

end Testbed
