import Testbed.Context.History
import Testbed.Proofs.Context.Building
import Testbed.Proofs.Context.Fresh

/-! How long a context lasts. A directory is there when its last provisioning succeeded and somebody
still has it, or it is kept; whatever fails, is abandoned or is given up is gone. What is done for
one name does not show in the context of another. -/
namespace Testbed

open Host (Location Tree IsName)

variable {p : Provisioner} {h : Host} {base : Location} {names : List String} {made : Tree}
  {name : String} {w w' : World}

namespace Tenure

/-- Provisionings and contexts know their names. -/
def IsOf (p : Provisioner) (name : String) : Tenure → Prop
  | .idle _ => True
  | .building s => s.name = name ∧ s.client.name = name ∧ ¬ s.isOver
  | .alive c => c.dir = p.envDir name ∧ c.keep = p.keep ∧ c.client.name = name

/-- How the context stands that somebody has, had, or never had. -/
def Stands (p : Provisioner) (t : Tree) (dir : Location) : Tenure → Prop
  | .idle none => Sits t dir
  | .idle (some ok) =>
    if ok = true ∧ p.keep = true then t.get? dir = some .directory else t.Vacant dir
  | .building s => s.stage.Stands t dir
  | .alive _ => t.get? dir = some .directory

/-- Who has something for a name stands alone in its line. -/
def line : Tenure → List Locks.Ticket
  | .idle _ => []
  | .building s => [s.client.ticket]
  | .alive c => [c.client.ticket]

structure Holds (p : Provisioner) (base : Location) (name : String) (w : World) (tenure : Tenure) :
    Prop where
  own : tenure.IsOf p name
  stands : tenure.Stands p w.host.tree (base ++ [name])
  line : w.locks.line name = tenure.line

variable {tenure : Tenure}

theorem Stands.sits {t : Tree} {dir : Location} (hs : tenure.Stands p t dir) : Sits t dir := by
  cases tenure with
  | building s => exact Stage.Stands.sits hs
  | alive c => exact .inr hs
  | idle last? =>
    cases last? with
    | none => exact hs
    | some ok =>
      simp only [Stands] at hs
      split at hs
      · exact .inr hs
      · exact .inl hs

theorem Stands.congr {t t' : Tree} {dir : Location} (hs : tenure.Stands p t dir)
    (ht : ∀ place, dir <+: place → t'.get? place = t.get? place) : tenure.Stands p t' dir := by
  have hdir := ht dir (List.prefix_refl _)
  have hvacant (hv : t.Vacant dir) : t'.Vacant dir := fun place hp => (ht place hp).trans (hv place hp)
  cases tenure with
  | building s => exact Stage.Stands.congr hs ht
  | alive c => exact hdir.trans hs
  | idle last? =>
    cases last? with
    | none => exact hs.imp hvacant hdir.trans
    | some ok =>
      simp only [Stands] at hs ⊢
      split
      next hk =>
        rw [if_pos hk] at hs
        exact hdir.trans hs
      next hk =>
        rw [if_neg hk] at hs
        exact hvacant hs

/-- What is done for another name leaves a tenure as it is. -/
theorem Holds.spared {other : String} (hh : tenure.Holds p base other w)
    (hc : Confined h base names made name w w') (ho : other ∈ names) (hne : other ≠ name) :
    tenure.Holds p base other w' :=
  ⟨hh.own, hh.stands.congr (hc.spares other ho hne), (hc.lines other hne).trans hh.line⟩

end Tenure

/-- What is done inside of a context stays there. -/
def Deed.StaysInside (base : Location) (name : String) : Deed → Prop
  | .step installer => installer.StaysInside base
  | .work change => ∀ t, Inside (base ++ [name]) t (change t)
  | _ => True

namespace Site

variable {x y : Site}

/-- Every name that somebody has, or had, is as it should be. -/
structure Sound (p : Provisioner) (h : Host) (base : Location) (names : List String) (made : Tree)
    (x : Site) : Prop where
  cwd : x.world.host.cwd = h.cwd
  standing : Standing h base names made x.world.host.tree
  tenures : ∀ name ∈ names, (x.tenures name).Holds p base name x.world

theorem Sound.confined (hx : Sound p h base names made x)
    (hothers : ∀ other, other ≠ name → y.tenures other = x.tenures other)
    (hc : Confined h base names made name x.world y.world)
    (hh : name ∈ names → (y.tenures name).Holds p base name y.world) :
    Sound p h base names made y := by
  refine ⟨hc.cwd.trans hx.cwd, hc.standing, fun other ho => ?_⟩
  by_cases hne : other = name
  · subst hne
    exact hh ho
  · rw [hothers other hne]
    exact (hx.tenures other ho).spared hc ho hne

/-! ### Deeds -/

/-- What a deed leads to, for the name that it is done for. -/
structure Done (p : Provisioner) (h : Host) (base : Location) (names : List String) (made : Tree)
    (name : String) (w w' : World) (tenure : Tenure) : Prop where
  confined : Confined h base names made name w w'
  holds : tenure.Holds p base name w'

theorem done_of_nothing {tenure : Tenure} (ht : Standing h base names made w.host.tree)
    (hhost : w'.host = w.host) (hlocks : w'.locks = w.locks) (hh : tenure.Holds p base name w) :
    Done p h base names made name w w' tenure := by
  refine ⟨⟨by rw [hhost], by rwa [hhost], ?_, fun _ _ => by rw [hlocks]⟩, hh.own, ?_, ?_⟩
  · rw [hhost]
    exact fun _ _ _ _ _ => rfl
  · rw [hhost]
    exact hh.stands
  · rw [hlocks]
    exact hh.line

theorem line_left {client : Locks.Client} {r : Locks.Registry} (hc : client.name = name)
    (hr : r.line name = [client.ticket]) : (Locks.release r client).line name = [] := by
  rw [Locks.release, Locks.Registry.line_leave, if_pos hc.symm, hc, hr]
  simp

section

variable (hg : Ground p h base names made) (ht : Standing h base names made w.host.tree)
  (hn : name ∈ names)
include ht

/-- Whoever starts on a name that nobody has gets the lock at once. -/
theorem start_done {last? : Option Bool} (hh : (Tenure.idle last?).Holds p base name w)
    (deps : List Dependency) :
    Done p h base names made name w (Provisioning.start w name deps).2
      (.building (Provisioning.start w name deps).1) := by
  rw [Provisioning.start_free deps hh.line]
  refine ⟨⟨rfl, ht, fun _ _ _ _ _ => rfl, fun other hne => ?_⟩, ⟨rfl, rfl, ?_⟩, hh.stands.sits, ?_⟩
  · rw [Locks.Registry.line_enter, if_neg hne]
  · rintro (hstage | ⟨cause, hstage⟩) <;> cases hstage
  · rw [Locks.Registry.line_enter, if_pos rfl, hh.line]
    rfl

include hg hn

theorem step_done {installer : Installer} {s s' : Provisioning} (hcwd : w.host.cwd = h.cwd)
    (hh : (Tenure.building s).Holds p base name w) (hin : installer.StaysInside base)
    (hstep : s.step p installer w = .moved s' w') :
    Done p h base names made name w w' (.ofProvisioning p s') := by
  obtain ⟨rfl, hc, ho⟩ := hh.own
  have hnext := Provisioning.step_next hg ht hn hcwd hc hin hh.stands hstep
  have hfollows := Provisioning.step_follows hstep
  have hname := hfollows.name
  have hc' : s'.client.name = s.name := hfollows.owner.trans hc
  refine ⟨hnext.confined, ?_⟩
  have hstands := hnext.stands
  have hlocks := hnext.locks
  unfold Tenure.ofProvisioning
  split
  next hstage =>
    rw [hstage] at hstands hlocks
    refine ⟨⟨?_, rfl, hc'⟩, hstands, ?_⟩
    · rw [← hname]
      rfl
    · rw [hlocks nofun, hh.line]
      exact congrArg (fun t => [t]) hfollows.ticket.symm
  next cause hstage =>
    rw [hstage] at hstands
    refine ⟨trivial, ?_, ?_⟩
    · rw [Tenure.Stands, if_neg (by simp)]
      exact hstands
    · rw [hnext.released cause hstage]
      exact line_left hc hh.line
  next hready hfailed =>
    refine ⟨⟨hname, hc', ?_⟩, hstands, ?_⟩
    · rintro (hstage | ⟨cause, hstage⟩)
      · exact hready hstage
      · exact hfailed cause hstage
    · rw [hlocks hfailed, hh.line]
      exact congrArg (fun t => [t]) hfollows.ticket.symm

theorem abandon_done {s : Provisioning} (hcwd : w.host.cwd = h.cwd)
    (hh : (Tenure.building s).Holds p base name w) :
    Done p h base names made name w (s.abandon p w) (.idle (some false)) := by
  obtain ⟨rfl, hc, ho⟩ := hh.own
  obtain ⟨hconfined, hvacant⟩ := Provisioning.abandon_confined hg ht hn hcwd hc ho hh.stands
  refine ⟨hconfined, trivial, ?_, ?_⟩
  · rw [Tenure.Stands, if_neg (by simp)]
    exact hvacant
  · rw [(Provisioning.abandon_host p w s ho).2.1]
    exact line_left hc hh.line

/-- A complete context that is given up is removed, unless contexts are kept. -/
theorem leave_done {c : Context} (hcwd : w.host.cwd = h.cwd)
    (hh : (Tenure.alive c).Holds p base name w)
    (hw : w'.host = (if c.keep then w.host else w.host.without c.dir) ∧
      w'.locks = Locks.release w.locks c.client) :
    Done p h base names made name w w' (.idle (some true)) := by
  obtain ⟨hhost, hlocks⟩ := hw
  obtain ⟨hdir, hkeep, hc⟩ := hh.own
  have hd : w.host.tree.get? (base ++ [name]) = some .directory := hh.stands
  have hlines (other : String) (hne : other ≠ name) : w'.locks.line other = w.locks.line other := by
    rw [hlocks, line_release hc hne]
  have hline : w'.locks.line name = [] := by
    rw [hlocks]
    exact line_left hc hh.line
  rw [hdir, hkeep] at hhost
  by_cases hk : p.keep = true
  · rw [if_pos hk] at hhost
    refine ⟨confined_of_within hn (hg.alike_of_directory ht hn hd) (by rw [hhost])
      (fun _ _ => by rw [hhost]) hlines, trivial, ?_, hline⟩
    rw [Tenure.Stands, if_pos ⟨rfl, hk⟩, hhost]
    exact hd
  · rw [if_neg hk, hg.without_eq hcwd ht hn (.inr hd)] at hhost
    obtain ⟨hconfined, hvacant⟩ := confined_of_erase hg ht hn hhost hlines
    refine ⟨hconfined, trivial, ?_, hline⟩
    rw [Tenure.Stands, if_neg fun hboth => hk hboth.2]
    exact hvacant

/-- Work in a context that is being built, or in use. -/
theorem work_done {tenure : Tenure} (hh : tenure.Holds p base name w)
    (hd : w.host.tree.get? (base ++ [name]) = some .directory) {t : Tree}
    (hin : Inside (base ++ [name]) w.host.tree t) (hstands : tenure.Stands p t (base ++ [name])) :
    Done p h base names made name w (w.withTree t) tenure :=
  ⟨confined_of_within hn (hg.alike_of_directory ht hn hd) rfl
    (fun place hp => hin.same place fun hp' => hp hp'.1) fun _ _ => rfl, hh.own, hstands, hh.line⟩

end

/-- Every deed keeps to the context that it is done for. -/
theorem act_done (hg : Ground p h base names made) (hx : Sound p h base names made x)
    (hn : name ∈ names) {d : Deed} (hd : d.StaysInside base name) :
    Done p h base names made name x.world (x.act p name d).world ((x.act p name d).tenures name) := by
  have hh := hx.tenures name hn
  have hput (tenure : Tenure) (w : World) : (x.put name tenure w).tenures name = tenure := if_pos rfl
  -- what makes no sense is not done
  have hstill : Done p h base names made name x.world x.world (x.tenures name) :=
    done_of_nothing hx.standing rfl rfl hh
  cases d with
  | wait ms => exact done_of_nothing hx.standing rfl rfl hh
  | start deps =>
    cases htenure : x.tenures name with
    | idle last? =>
      simp only [act, htenure, hput]
      rw [htenure] at hh
      exact start_done hx.standing hh deps
    | building _ | alive _ => simpa only [act, htenure] using hstill
  | step installer =>
    cases htenure : x.tenures name with
    | building s =>
      cases hstep : s.step p installer x.world with
      | moved s' w' =>
        simp only [act, htenure, hstep, hput]
        rw [htenure] at hh
        exact step_done hg hx.standing hn hx.cwd hh hd hstep
      | blocked _ => simpa only [act, htenure, hstep] using hstill
    | idle _ | alive _ => simpa only [act, htenure] using hstill
  | work change =>
    have hsame : (change x.world.host.tree).get? (base ++ [name]) =
        x.world.host.tree.get? (base ++ [name]) := (hd _).same _ fun hp => hp.2 rfl
    cases htenure : x.tenures name with
    | idle _ => simpa only [act, htenure] using hstill
    | building s =>
      cases hstage : s.stage with
      | awaiting _ _ _ =>
        have hstands := hh.stands
        rw [htenure, Tenure.Stands, hstage] at hstands
        simp only [act, htenure, hstage]
        rw [htenure] at hh
        refine work_done hg hx.standing hn hh hstands.1 (hd _) ?_
        rw [Tenure.Stands, hstage]
        exact ⟨hsame.trans hstands.1, (hd _).unlinked hstands.2⟩
      | _ => simpa only [act, htenure, hstage] using hstill
    | alive c =>
      have hdir := hh.stands
      rw [htenure] at hdir
      simp only [act, htenure]
      rw [htenure] at hh
      exact work_done hg hx.standing hn hh hdir (hd _) (hsame.trans hdir)
  | abandon =>
    cases htenure : x.tenures name with
    | building s =>
      simp only [act, htenure, hput]
      rw [htenure] at hh
      exact abandon_done hg hx.standing hn hx.cwd hh
    | idle _ | alive _ => simpa only [act, htenure] using hstill
  | teardown =>
    cases htenure : x.tenures name with
    | alive c =>
      simp only [act, htenure, hput]
      rw [htenure] at hh
      exact leave_done hg hx.standing hn hx.cwd hh
        ⟨(c.teardown_host x.world).1, (c.teardown_host x.world).2.1⟩
    | idle _ | building _ => simpa only [act, htenure] using hstill
  | drop =>
    cases htenure : x.tenures name with
    | alive c =>
      simp only [act, htenure, hput]
      rw [htenure] at hh
      exact leave_done hg hx.standing hn hx.cwd hh
        ⟨(c.drop_host x.world).1, (c.drop_host x.world).2.1⟩
    | idle _ | building _ => simpa only [act, htenure] using hstill

theorem act_tenures (d : Deed) {other : String} (hne : other ≠ name) :
    (x.act p name d).tenures other = x.tenures other := by
  have hput (tenure : Tenure) (w : World) : (x.put name tenure w).tenures other = x.tenures other :=
    if_neg hne
  cases d <;> unfold act <;> (repeat' split) <;> first | rfl | exact hput _ _

theorem act_sound (hg : Ground p h base names made) (hx : Sound p h base names made x)
    (hn : name ∈ names) {d : Deed} (hd : d.StaysInside base name) :
    Sound p h base names made (x.act p name d) := by
  have hdone := act_done hg hx hn hd
  exact hx.confined (fun other hne => act_tenures d hne) hdone.confined fun _ => hdone.holds

/-- Whatever was done, every name is as it should be. -/
theorem after_sound (hg : Ground p h base names made) (deeds : List (String × Deed))
    (hx : Sound p h base names made x)
    (hdeeds : ∀ d ∈ deeds, d.1 ∈ names ∧ d.2.StaysInside base d.1) :
    Sound p h base names made (x.after p deeds) := by
  induction deeds generalizing x with
  | nil => exact hx
  | cons d deeds ih =>
    obtain ⟨⟨hn, hd⟩, hdeeds⟩ := List.forall_mem_cons.1 hdeeds
    exact ih (act_sound hg hx hn hd) hdeeds

theorem start_sound (hg : Ground p w.host base names made)
    (hfree : ∀ name ∈ names, w.locks.line name = []) : Sound p w.host base names made (start w) :=
  ⟨rfl, .inl rfl, fun name hn => ⟨trivial, (hg.contexts name hn).imp_right And.right, hfree name hn⟩⟩

/-- What is there of a name whose last provisioning is over. -/
theorem Sound.exists?_iff (hg : Ground p h base names made) (hx : Sound p h base names made x)
    (hn : name ∈ names) {ok : Bool} (hlast : (x.tenures name).last? = some ok) :
    x.world.host.exists? (p.envDir name) = true ↔
      ok = true ∧ ((x.tenures name).isAlive = true ∨ p.keep = true) := by
  have hstands := (hx.tenures name hn).stands
  have hiff := hg.exists?_iff hx.standing hn hstands.sits
  rw [← hx.cwd] at hiff
  refine Iff.trans hiff ?_
  cases htenure : x.tenures name with
  | building s => simp [htenure, Tenure.last?] at hlast
  | alive c =>
    rw [htenure] at hlast hstands
    cases hlast
    simp only [Tenure.isAlive, true_or, and_self, iff_true]
    exact hstands
  | idle last? =>
    rw [htenure] at hlast hstands
    obtain rfl : last? = some ok := hlast
    simp only [Tenure.isAlive, Bool.false_eq_true, false_or]
    by_cases hk : ok = true ∧ p.keep = true
    · rw [Tenure.Stands, if_pos hk] at hstands
      exact iff_of_true hstands hk
    · rw [Tenure.Stands, if_neg hk] at hstands
      refine iff_of_false ?_ hk
      rw [hstands _ (List.prefix_refl _)]
      nofun

open Provisioning (run rootSite ground_rootSite staleTree traceless roundabout roundaboutTree
  makeDirAll_roundabout removeTree_roundabout behind_roundabout laysOut_roundabout)

/-- After a provisioning was started and abandoned at once. -/
def abandoned (p : Provisioner) (w : World) (name : String) : Site :=
  (start w).after p [(name, .start []), (name, .abandon)]

/-- Where there is nothing to remove, that leaves the files alone. -/
theorem abandoned_world (hfree : w.locks.line name = [])
    (hr : w.host.removeTree (p.envDir name) = .error ⟨.notFound, w.host⟩) :
    (abandoned p w name).world.host = w.host ∧
      ∀ other, other ≠ name →
        (abandoned p w name).world.locks.line other = w.locks.line other := by
  have hworld : (abandoned p w name).world =
      (Provisioning.start w name []).1.abandon p (Provisioning.start w name []).2 := by
    simp [abandoned, after, act, start, put]
  rw [Provisioning.start_free [] hfree] at hworld
  obtain ⟨hhost, hlocks, -⟩ := Provisioning.abandon_host p { w with locks := (w.locks.enter name).2 }
    { Provisioning.laid w name [] with stage := .clearing } (by
      rintro (hstage | ⟨cause, hstage⟩) <;> cases hstage)
  rw [hworld, hhost, hlocks]
  refine ⟨?_, fun other hne => ?_⟩
  · rw [if_neg nofun]
    exact Host.without_error hr
  · refine (line_release rfl hne).trans ?_
    rw [Locks.Registry.line_enter, if_neg hne]

/-- Where the way goes through a context, that is made along with any other. -/
theorem exists_roundabout (hhost : w.host = ⟨⟨[]⟩, [], []⟩) (hfree : w.locks.line "py35" = []) :
    (run roundabout traceless w "py35" []).2.host.exists? (roundabout.envDir "py36") = true := by
  have hname : IsName "py35" := isName_of_isIdentifier (by decide) (by decide)
  have hname' : IsName "py36" := isName_of_isIdentifier (by decide) (by decide)
  let t₁ := (roundaboutTree.set ["py35"] .directory).set ["py35", "bin"] .directory
  let t₂ := t₁.set ["py35", "tmp"] .directory
  have hbin : w.host.makeDirAll ((roundabout.envDir "py35").join "bin") = .ok ⟨t₁, [], []⟩ := by
    obtain ⟨left, hb⟩ := @behind_roundabout roundaboutTree (by decide) (by decide)
    obtain ⟨left', hb'⟩ :=
      @behind_roundabout (roundaboutTree.set ["py35"] .directory) (by decide) (by decide)
    have hvacant : roundaboutTree.Vacant ["py35"] := by
      rintro _ ⟨rest, rfl⟩
      simp [Tree.get?, roundaboutTree]
    rw [hhost]
    exact congrArg (Host.withTree ⟨⟨[]⟩, [], []⟩)
      (Host.makeDirAll_two makeDirAll_roundabout hb hb' hname isName_bin hvacant)
  have htmp : Host.makeDirAll ⟨t₁, [], []⟩ ((roundabout.envDir "py35").join "tmp") =
      .ok ⟨t₂, [], []⟩ := by
    obtain ⟨left, hb⟩ := @behind_roundabout t₁ (by decide) (by decide)
    exact congrArg (Host.withTree ⟨t₁, [], []⟩)
      (hb.makeDirAll_below hname isName_tmp (by decide) (by decide))
  obtain ⟨left, hb⟩ := @behind_roundabout t₂ (by decide) (by decide)
  have hwrite := hb.write_below_free hname isName_record (by decide) (by decide)
    (Text.encode (Metadata.ofDeclared "py35" [] w.date).text)
  obtain ⟨w', hw, hrun⟩ := Provisioning.run_ready
    (laysOut_roundabout hname hhost hfree hbin htmp) (.nil _) (Host.write_ok hwrite)
  rw [hrun, hw.host]
  let record : Host.Entry := .file (.bytes (Text.encode (Metadata.ofDeclared "py35" []
    w.date).text)) Tree.newFileMode
  have hset (place : Location) (hp : place ≠ ["py35", Metadata.fileName]) :
      (t₂.set ["py35", Metadata.fileName] record).get? place = t₂.get? place := by
    rw [Tree.get?_set _ (by simp), if_neg hp]
  have hdir : (t₂.set ["py35", Metadata.fileName] record).get? ["py36"] = some .directory :=
    (hset _ (by decide)).trans (by decide)
  obtain ⟨left, hb⟩ := behind_roundabout hdir ((hset ["py36", "sub"] (by decide)).trans (by decide))
  exact Tree.exists?_of_found (hb.follow_directory hname' hdir true)

/-- An empty work directory of the root. -/
def bareTree : Tree := ⟨[([".envrun"], .directory)]⟩

theorem ground_bareTree {names : List String} (hsub : ∀ name ∈ names, name ∈ ["a", "b"]) :
    Ground (rootSite false) ⟨bareTree, [], []⟩ [".envrun"] names bareTree := by
  have hnames : ∀ name ∈ ["a", "b"],
      Config.isIdentifier name = true ∧ name.utf8ByteSize ≤ Tree.maxName := by decide
  refine ground_rootSite false (fun name hn => hnames name (hsub name hn)) (by decide)
    fun name _ => .inl ?_
  rintro _ ⟨rest, rfl⟩
  simp [Tree.get?, bareTree]

/-- Leads the record of a context to a place beside it. -/
def leader : Installer := fun h target _ =>
  ⟨h.tree.set [".envrun", target.envName, Metadata.fileName] (.link "../b"), [], false, .none,
    .exited 0 ""⟩

/-- The host's tree as the install leaves it. -/
def ledTree : Tree :=
  (layout bareTree [".envrun", "a"]).set [".envrun", "a", Metadata.fileName] (.link "../b")

theorem follow_ledTree : ledTree.follow true [] (Metadata.path ((rootSite false).envDir "a")).text =
    .free [".envrun"] "b" false := by
  have hstem : Host.stem ((rootSite false).envDir "a") = ["", ".envrun", "a"] := by decide
  have horigin : Host.origin [] ((rootSite false).envDir "a") = [] := by decide
  rw [Metadata.path, Host.follow_join _ _ _ _ isName_record.piece, if_neg (by decide), hstem,
    horigin]
  cbv

/-- A record is written where an install leads it. -/
theorem exists_leader (hhost : w.host = ⟨bareTree, [], []⟩) (hfree : w.locks.line "a" = []) :
    (run (rootSite false) leader w "a" [.package "x" ""]).2.host.exists?
      ((rootSite false).envDir "b") = true := by
  have hname : IsName "b" := isName_of_isIdentifier (by decide) (by decide)
  let data := Text.encode (Metadata.ofDeclared "a" [.package "x" ""] w.date).text
  let written := ledTree.set [".envrun", "b"] (.file (.bytes data) Tree.newFileMode)
  -- the record is written along the link
  have hwrite : Host.write ⟨ledTree, [], []⟩ (Metadata.path ((rootSite false).envDir "a")) data =
      .ok ⟨written, [], []⟩ := by
    rw [Host.write, Tree.write, Tree.update, follow_ledTree]
    rfl
  have hl := @Provisioning.laysOut_of_ground (rootSite false) leader w [".envrun"] bareTree "a"
    [.package "x" ""] (hhost ▸ ground_bareTree (by simp)) hfree
  rw [hhost] at hl
  obtain ⟨w', hw, hrun⟩ := Provisioning.run_ready hl
    (.cons (by simp [leader]) rfl (.nil _)) hwrite
  rw [hrun, hw.host]
  -- and the work directory is where it was
  have hwithin (name : String) (t : Tree) (place : Location) (hplace : [".envrun", name] <+: place)
      (entry : Host.Entry) (hn : name ∈ ["a", "b"]) :
      Alike [".envrun"] ["a", "b"] t (t.set place entry) :=
    alike_of_within hn fun _ hp => get?_set_within t (by simp) hplace entry hp
  have halike : Alike [".envrun"] ["a", "b"] bareTree written :=
    ((@alike_layout [".envrun"] _ "a" (by simp) bareTree).trans
      (hwithin "a" _ _ (by simp) _ (by simp))).trans (hwithin "b" _ _ (by simp) _ (by simp))
  obtain ⟨left, hb⟩ := Host.behind_of_found ((ground_bareTree fun _ hn => hn).leads written halike)
  have hentry : written.get? ([".envrun"] ++ ["b"]) = some (.file (.bytes data) Tree.newFileMode) := by
    rw [Tree.get?_set _ (by simp), if_pos (by simp)]
  have hfound : written.follow true [] ((rootSite false).workDir.join "b").text =
      .found ([".envrun"] ++ ["b"]) (.file (.bytes data) Tree.newFileMode) := by
    rw [hb.one true hname.piece, Tree.walk_plain hb.here hname.plain hname.size, hentry]
    exact Tree.walk_nil hentry
  exact Tree.exists?_of_found hfound

end Site

end Testbed
