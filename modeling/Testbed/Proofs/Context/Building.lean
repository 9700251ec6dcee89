import Testbed.Proofs.Context.Ground
import Testbed.Proofs.Locks

/-! Contexts that are built side by side. Each stage of a provisioning leaves its context in a
certain state, from which the next stage goes on; a step of one name leaves the contexts of all
others and their locks alone. -/
namespace Testbed

open Host (Location Tree IsName)

variable {p : Provisioner} {h : Host} {base : Location} {names : List String} {made t t' : Tree}
  {name : String}

/-! ### One context at a time -/

/-- The contexts of all other names are as they were. -/
def Spares (base : Location) (names : List String) (name : String) (t t' : Tree) : Prop :=
  ∀ other ∈ names, other ≠ name → ∀ place, base ++ [other] <+: place → t'.get? place = t.get? place

theorem spares_of_within (hp : ∀ place, ¬ base ++ [name] <+: place → t'.get? place = t.get? place) :
    Spares base names name t t' := by
  intro other _ hne place hle
  refine hp place fun hle' => hne ?_
  -- two names of one length that begin the same place are the same
  have hlen : (base ++ [other]).length = (base ++ [name]).length := by simp
  have := (List.prefix_of_prefix_length_le hle hle' (Nat.le_of_eq hlen)).eq_of_length hlen
  simpa using this

/-- The record of a context is not a link to somewhere else. -/
def Unlinked (t : Tree) (dir : Location) : Prop :=
  ∀ target, t.get? (dir ++ [Metadata.fileName]) ≠ some (.link target)

/-- A change of the files strictly inside a directory that does not lead its record elsewhere. -/
structure Inside (dir : Location) (t t' : Tree) : Prop where
  same : ∀ place, ¬ (dir <+: place ∧ place ≠ dir) → t'.get? place = t.get? place
  unlinked : Unlinked t dir → Unlinked t' dir

/-- Installs change the context that they are for, and nothing else. -/
def Installer.StaysInside (installer : Installer) (base : Location) : Prop :=
  ∀ h target source, Inside (base ++ [target.envName]) h.tree (installer h target source).tree

namespace Ground

/-- The contexts that are there stand on the work directory. -/
theorem alike_of_directory (hg : Ground p h base names made) (ht : Standing h base names made t)
    (hn : name ∈ names) (hd : t.get? (base ++ [name]) = some .directory) :
    Alike base names made t := by
  rcases hg.standing_cases ht with ⟨-, ha⟩ | ⟨-, -, hv⟩
  · exact ha
  · have := hv name hn _ (List.prefix_refl _)
    rw [hd] at this
    cases this

/-- The first directory of a context is made, with what is missing above it. -/
theorem makeBin (hg : Ground p h base names made) (ht : Standing h base names made t)
    (hn : name ∈ names) (hv : t.Vacant (base ++ [name])) :
    ∃ t', t.makeDirAll h.cwd ((p.envDir name).join "bin").text = .ok t' ∧ Alike base names made t' ∧
      Spares base names name t t' ∧ t'.get? (base ++ [name]) = some .directory ∧
      Unlinked t' (base ++ [name]) ∧ t'.get? (base ++ [name] ++ ["tmp"]) = none := by
  obtain ⟨t₁, hmake, ha, hsame⟩ := hg.exists_made ht
  have hv₁ : t₁.Vacant (base ++ [name]) := fun place hp => (hsame name hn place hp).trans (hv place hp)
  have hwithin (place : Location) (hp : ¬ base ++ [name] <+: place) :
      ((t₁.set (base ++ [name]) .directory).set (base ++ [name] ++ ["bin"]) .directory).get? place =
        t₁.get? place := by
    rw [get?_set_within _ (by simp) (List.prefix_append _ _) _ hp,
      get?_set_within _ (by simp) (List.prefix_refl _) _ hp]
  have hfree (other : String) (ho : other ≠ "bin") :
      ((t₁.set (base ++ [name]) .directory).set (base ++ [name] ++ ["bin"]) .directory).get?
        (base ++ [name] ++ [other]) = none := by
    rw [Tree.get?_set _ (by simp), if_neg (by simpa using ho), Tree.get?_set _ (by simp),
      if_neg (by simp)]
    exact hv₁ _ (List.prefix_append _ _)
  refine ⟨_, hg.makeDirAll_first hmake ha hn hv₁ isName_bin, ha.trans (alike_of_within hn hwithin),
    fun other ho hne place hp => ?_, ?_, fun target hl => ?_, hfree "tmp" (by decide)⟩
  · rw [spares_of_within hwithin other ho hne place hp]
    exact hsame other ho place hp
  · rw [Tree.get?_set _ (by simp), if_neg (by simp), Tree.get?_set _ (by simp), if_pos rfl]
  · rw [hfree Metadata.fileName (by decide)] at hl
    cases hl

/-- The second directory is made beside the first. -/
theorem makeTmp (hg : Ground p h base names made) (ha : Alike base names made t) (hn : name ∈ names)
    (hd : t.get? (base ++ [name]) = some .directory)
    (hfree : t.get? (base ++ [name] ++ ["tmp"]) = none) :
    t.makeDirAll h.cwd ((p.envDir name).join "tmp").text =
      .ok (t.set (base ++ [name] ++ ["tmp"]) .directory) := by
  obtain ⟨left, hb⟩ := Host.behind_of_found (hg.leads _ ha)
  exact hb.makeDirAll_below (hg.named _ hn) isName_tmp hd hfree

/-- Writing the record changes nothing but the record. -/
theorem write_record (hg : Ground p h base names made) (ha : Alike base names made t)
    (hn : name ∈ names) (hd : t.get? (base ++ [name]) = some .directory)
    (hl : Unlinked t (base ++ [name])) {data : List UInt8}
    (hw : t.write h.cwd (Metadata.path (p.envDir name)).text data = .ok t') {place : Location}
    (hp : place ≠ base ++ [name] ++ [Metadata.fileName]) : t'.get? place = t.get? place := by
  obtain ⟨left, hb⟩ := Host.behind_of_found (hg.leads _ ha)
  exact hb.write_below_within (hg.named _ hn) isName_record hd hl hw hp

end Ground

/-! ### Steps -/

/-- How a context stands when a provisioning comes to a stage. -/
def Stage.Stands (t : Tree) (dir : Location) : Stage → Prop
  | .waiting => False
  | .clearing | .discarding _ => Sits t dir
  | .makingBin | .failed _ => t.Vacant dir
  | .makingTmp =>
    t.get? dir = some .directory ∧ Unlinked t dir ∧ t.get? (dir ++ ["tmp"]) = none
  | .installing _ | .awaiting .. | .recording => t.get? dir = some .directory ∧ Unlinked t dir
  | .ready => t.get? dir = some .directory

theorem Stage.Stands.sits {stage : Stage} {dir : Location} (hs : stage.Stands t dir) : Sits t dir := by
  cases stage with
  | waiting => exact hs.elim
  | clearing | discarding _ => exact hs
  | makingBin | failed _ => exact .inl hs
  | makingTmp | installing _ | awaiting _ _ _ | recording => exact .inr hs.1
  | ready => exact .inr hs

theorem Stage.Stands.congr {stage : Stage} {dir : Location} (hs : stage.Stands t dir)
    (h : ∀ place, dir <+: place → t'.get? place = t.get? place) : stage.Stands t' dir := by
  have hdir := h dir (List.prefix_refl _)
  have hbelow (rest : Location) := h (dir ++ rest) (List.prefix_append _ _)
  have hvacant (hv : t.Vacant dir) : t'.Vacant dir := fun place hp => (h place hp).trans (hv place hp)
  have hunlinked (hl : Unlinked t dir) : Unlinked t' dir := fun target => by
    rw [hbelow]
    exact hl target
  cases stage with
  | waiting => exact hs
  | clearing | discarding _ => exact hs.imp hvacant hdir.trans
  | makingBin | failed _ => exact hvacant hs
  | makingTmp => exact ⟨hdir.trans hs.1, hunlinked hs.2.1, (hbelow _).trans hs.2.2⟩
  | installing _ | awaiting _ _ _ | recording => exact ⟨hdir.trans hs.1, hunlinked hs.2⟩
  | ready => exact hdir.trans hs

/-- Nothing happened but in the context of one name, in its line for the lock, and in making the
work directory. -/
structure Confined (h : Host) (base : Location) (names : List String) (made : Tree) (name : String)
    (w w' : World) : Prop where
  cwd : w'.host.cwd = w.host.cwd
  standing : Standing h base names made w'.host.tree
  spares : Spares base names name w.host.tree w'.host.tree
  lines : ∀ other, other ≠ name → w'.locks.line other = w.locks.line other

variable {w w' : World} {s s' : Provisioning} {installer : Installer}

theorem confined_of_within (hn : name ∈ names) (ha : Alike base names made w.host.tree)
    (hcwd : w'.host.cwd = w.host.cwd)
    (hp : ∀ place, ¬ base ++ [name] <+: place → w'.host.tree.get? place = w.host.tree.get? place)
    (hlines : ∀ other, other ≠ name → w'.locks.line other = w.locks.line other) :
    Confined h base names made name w w' :=
  ⟨hcwd, .inr (ha.trans (alike_of_within hn hp)), spares_of_within hp, hlines⟩

/-- Removing a context is nobody else's business. -/
theorem confined_of_erase (hg : Ground p h base names made)
    (ht : Standing h base names made w.host.tree) (hn : name ∈ names)
    (hw : w'.host = { w.host with tree := w.host.tree.erase (base ++ [name]) })
    (hlines : ∀ other, other ≠ name → w'.locks.line other = w.locks.line other) :
    Confined h base names made name w w' ∧ w'.host.tree.Vacant (base ++ [name]) := by
  have htree : w'.host.tree = w.host.tree.erase (base ++ [name]) := by rw [hw]
  refine ⟨⟨by rw [hw], ?_, spares_of_within fun place hp => ?_, hlines⟩, ?_⟩
  · rw [htree]
    exact hg.erase_standing ht hn
  · rw [htree, get?_erase_within _ _ hp]
  · rw [htree]
    exact Tree.erase_vacant _ (by simp)

theorem line_release {r : Locks.Registry} {c : Locks.Client} (hc : c.name = name) {other : String}
    (hne : other ≠ name) : (Locks.release r c).line other = r.line other := by
  rw [Locks.release, Locks.Registry.line_leave, if_neg (by rwa [hc])]

namespace Provisioning

/-- What a step leads to. -/
structure Next (h : Host) (base : Location) (names : List String) (made : Tree) (w w' : World)
    (s s' : Provisioning) : Prop where
  confined : Confined h base names made s.name w w'
  stands : s'.stage.Stands w'.host.tree (base ++ [s.name])
  locks : (∀ cause, s'.stage ≠ .failed cause) → w'.locks = w.locks
  released : ∀ cause, s'.stage = .failed cause → w'.locks = Locks.release w.locks s.client

section Steps

variable (hg : Ground p h base names made) (ht : Standing h base names made w.host.tree)
  (hn : s.name ∈ names)
include hg ht hn

/-- A change inside of a context leaves the context and all others where they are. -/
theorem within_next (hd : w.host.tree.get? (base ++ [s.name]) = some .directory)
    (hl : Unlinked w.host.tree (base ++ [s.name])) {t : Tree}
    (hin : Inside (base ++ [s.name]) w.host.tree t) (hhost : w'.host = { w.host with tree := t })
    (hlocks : w'.locks = w.locks) :
    Confined h base names made s.name w w' ∧
      w'.host.tree.get? (base ++ [s.name]) = some .directory ∧
      Unlinked w'.host.tree (base ++ [s.name]) := by
  have htree : w'.host.tree = t := by rw [hhost]
  refine ⟨confined_of_within hn (hg.alike_of_directory ht hn hd) (by rw [hhost]) (fun place hp => ?_)
    fun _ _ => by rw [hlocks], ?_, ?_⟩
  · rw [htree]
    exact hin.same place fun hp' => hp hp'.1
  · rw [htree, hin.same _ fun hp => hp.2 rfl]
    exact hd
  · rw [htree]
    exact hin.unlinked hl

theorem accept_next (hd : w.host.tree.get? (base ++ [s.name]) = some .directory)
    (hl : Unlinked w.host.tree (base ++ [s.name])) {source : Dependency} {rest : List Dependency}
    {reply : InstallReply} (hin : Inside (base ++ [s.name]) w.host.tree reply.tree) {w₁ : World}
    (hhost : w₁.host = w.host) (hlocks : w₁.locks = w.locks) :
    Next h base names made w (accept p w₁ s source rest reply).2 s
      (accept p w₁ s source rest reply).1 := by
  obtain ⟨hstage, hw⟩ := accept_eq p w₁ s source rest reply
  have hlocks' := hw.locks.trans hlocks
  rw [hstage]
  obtain ⟨hconfined, hd', hl'⟩ := within_next hg ht hn hd hl hin
    (hw.host.trans (by rw [hhost])) hlocks'
  refine ⟨hconfined, ?_, fun _ => hlocks', fun cause hcause => ?_⟩
  · show Stage.Stands _ _ (judged p s source rest reply.ending)
    unfold judged
    split
    · exact ⟨hd', hl'⟩
    · exact .inr hd'
  · exfalso
    revert hcause
    show judged p s source rest reply.ending ≠ .failed cause
    unfold judged
    split <;> nofun

theorem install_next (hd : w.host.tree.get? (base ++ [s.name]) = some .directory)
    (hl : Unlinked w.host.tree (base ++ [s.name])) (hin : installer.StaysInside base)
    (source : Dependency) (rest : List Dependency) :
    Next h base names made w (install p installer w s source rest).2 s
      (install p installer w s source rest).1 := by
  unfold install
  dsimp only
  split
  next => exact accept_next hg ht hn hd hl (hin w.host (s.target p) source) rfl rfl
  all_goals
    exact ⟨confined_of_within hn (hg.alike_of_directory ht hn hd) rfl (fun _ _ => rfl) fun _ _ => rfl,
      ⟨hd, hl⟩, fun _ => rfl, nofun⟩

variable (hcwd : w.host.cwd = h.cwd)
include hcwd

theorem clear_next (hs : Sits w.host.tree (base ++ [s.name])) :
    Next h base names made w (clear p w s).2 s (clear p w s).1 := by
  have hstage : (clear p w s).1 = { s with stage := .makingBin } :=
    clear_ok (hg.removable hcwd ht hn hs)
  have hw := clear_rehosted p w s
  have hhost := hw.host
  rw [show s.dir p = p.envDir s.name from rfl, hg.cleared_eq hcwd ht hn hs] at hhost
  obtain ⟨hconfined, hvacant⟩ := confined_of_erase hg ht hn hhost fun _ _ => by rw [hw.locks]
  rw [hstage]
  exact ⟨hconfined, hvacant, fun _ => hw.locks, nofun⟩

theorem makeBin_next (hv : w.host.tree.Vacant (base ++ [s.name])) :
    Next h base names made w (makeDir w s ((s.dir p).join "bin") .makingTmp).2 s
      (makeDir w s ((s.dir p).join "bin") .makingTmp).1 := by
  obtain ⟨t, hmake, ha, hspares, hd, hl, hfree⟩ := hg.makeBin ht hn hv
  have hmake' : w.host.makeDirAll ((s.dir p).join "bin") = .ok { w.host with tree := t } := by
    rw [Host.makeDirAll, hcwd, dir, hmake, Host.withTree_ok]
  obtain ⟨hstage, hw⟩ := @makeDir_ok w s _ .makingTmp _ hmake'
  have hhost := hw.host
  rw [hstage]
  refine ⟨⟨by rw [hhost], ?_, ?_, fun _ _ => by rw [hw.locks]⟩, ?_, fun _ => hw.locks, nofun⟩
  · rw [hhost]
    exact .inr ha
  · rw [hhost]
    exact hspares
  · rw [hhost]
    exact ⟨hd, hl, hfree⟩

theorem makeTmp_next (hd : w.host.tree.get? (base ++ [s.name]) = some .directory)
    (hl : Unlinked w.host.tree (base ++ [s.name]))
    (hfree : w.host.tree.get? (base ++ [s.name] ++ ["tmp"]) = none) (sources : List Dependency) :
    Next h base names made w (makeDir w s ((s.dir p).join "tmp") (.installing sources)).2 s
      (makeDir w s ((s.dir p).join "tmp") (.installing sources)).1 := by
  have ha := hg.alike_of_directory ht hn hd
  have hmake : w.host.makeDirAll ((s.dir p).join "tmp") =
      .ok { w.host with tree := w.host.tree.set (base ++ [s.name] ++ ["tmp"]) .directory } := by
    rw [Host.makeDirAll, hcwd, dir, hg.makeTmp ha hn hd hfree, Host.withTree_ok]
  obtain ⟨hstage, hw⟩ := @makeDir_ok w s _ (.installing sources) _ hmake
  have hhost := hw.host
  rw [hstage]
  refine ⟨confined_of_within hn ha (by rw [hhost]) (fun place hp => ?_) fun _ _ => by rw [hw.locks],
    ⟨?_, fun target => ?_⟩, fun _ => hw.locks, nofun⟩
  · rw [hhost, get?_set_within _ (by simp) (List.prefix_append _ _) _ hp]
  · rw [hhost, Tree.get?_set _ (by simp), if_neg (by simp)]
    exact hd
  · rw [hhost, Tree.get?_set _ (by simp), if_neg (by simpa using by decide)]
    exact hl target

theorem record_next (hd : w.host.tree.get? (base ++ [s.name]) = some .directory)
    (hl : Unlinked w.host.tree (base ++ [s.name])) :
    Next h base names made w (record p w s).2 s (record p w s).1 := by
  have ha := hg.alike_of_directory ht hn hd
  cases ho : w.host.write (Metadata.path (s.dir p)) (Text.encode s.metadata.text) with
  | error fault =>
    obtain ⟨hstage, hw⟩ := record_error ho
    have hhost := hw.host
    rw [hstage]
    refine ⟨confined_of_within hn ha (by rw [hhost]) (fun _ _ => by rw [hhost])
      fun _ _ => by rw [hw.locks],
      .inr ?_, fun _ => hw.locks, nofun⟩
    rw [hhost]
    exact hd
  | ok h' =>
    obtain ⟨hstage, hw⟩ := record_ok ho
    have hhost := hw.host
    rw [hstage]
    obtain ⟨t, hwrite, rfl⟩ := Host.of_write_ok ho
    rw [hcwd] at hwrite
    have hsame (place : Location) (hp : place ≠ base ++ [s.name] ++ [Metadata.fileName]) :
        (record p w s).2.host.tree.get? place = w.host.tree.get? place := by
      rw [hhost]
      exact hg.write_record ha hn hd hl hwrite hp
    refine ⟨confined_of_within hn ha (by rw [hhost]) (fun place hp => hsame place ?_)
      fun _ _ => by rw [hw.locks], ?_, fun _ => hw.locks, nofun⟩
    · rintro rfl
      exact hp (List.prefix_append _ _)
    · exact (hsame _ (by simp)).trans hd

theorem discard_next (hs : Sits w.host.tree (base ++ [s.name])) (hc : s.client.name = s.name)
    (cause : ProvisionError) :
    Next h base names made w (discard p w s cause).2 s (discard p w s cause).1 := by
  obtain ⟨hhost, -, hlocks, -⟩ := discard_host p w s cause
  rw [dir, hg.without_eq hcwd ht hn hs] at hhost
  obtain ⟨hconfined, hvacant⟩ := confined_of_erase hg ht hn hhost fun other hne => by
    rw [hlocks, line_release hc hne]
  rw [discard_fst]
  exact ⟨hconfined, hvacant, fun hnot => absurd rfl (hnot cause), fun _ _ => hlocks⟩

/-- Every step keeps what a provisioning builds on, and keeps to its own context. -/
theorem step_next (hc : s.client.name = s.name) (hin : installer.StaysInside base)
    (hs : s.stage.Stands w.host.tree (base ++ [s.name]))
    (hstep : step p installer w s = .moved s' w') : Next h base names made w w' s s' := by
  unfold step at hstep
  split at hstep
  next hstage =>
    rw [hstage] at hs
    exact hs.elim
  next hstage =>
    rw [hstage] at hs
    obtain ⟨hs', hw'⟩ := moved_eq hstep
    rw [hs', hw']
    exact clear_next hg ht hn hcwd hs
  next hstage =>
    rw [hstage] at hs
    obtain ⟨hs', hw'⟩ := moved_eq hstep
    rw [hs', hw']
    exact makeBin_next hg ht hn hcwd hs
  next hstage =>
    rw [hstage] at hs
    obtain ⟨hs', hw'⟩ := moved_eq hstep
    rw [hs', hw']
    exact makeTmp_next hg ht hn hcwd hs.1 hs.2.1 hs.2.2 _
  next hstage =>
    rw [hstage] at hs
    cases hstep
    exact ⟨confined_of_within hn (hg.alike_of_directory ht hn hs.1) rfl (fun _ _ => rfl)
      fun _ _ => rfl,
      hs, fun _ => rfl, nofun⟩
  next source rest hstage =>
    rw [hstage] at hs
    obtain ⟨hs', hw'⟩ := moved_eq hstep
    rw [hs', hw']
    exact install_next hg ht hn hs.1 hs.2 hin source rest
  next source rest moment hstage =>
    rw [hstage] at hs
    split at hstep
    · obtain ⟨hs', hw'⟩ := moved_eq hstep
      rw [hs', hw']
      exact accept_next hg ht hn hs.1 hs.2 (hin w.host (s.target p) source) rfl rfl
    · cases hstep
  next => cases hstep
  next hstage =>
    rw [hstage] at hs
    obtain ⟨hs', hw'⟩ := moved_eq hstep
    rw [hs', hw']
    exact record_next hg ht hn hcwd hs.1 hs.2
  next cause hstage =>
    rw [hstage] at hs
    obtain ⟨hs', hw'⟩ := moved_eq hstep
    rw [hs', hw']
    exact discard_next hg ht hn hcwd hs hc cause
  next => cases hstep
  next => cases hstep

/-- Whoever gives up leaves nothing. -/
theorem abandon_confined (hc : s.client.name = s.name) (ho : ¬ s.isOver)
    (hs : s.stage.Stands w.host.tree (base ++ [s.name])) :
    Confined h base names made s.name w (abandon p w s) ∧
      (abandon p w s).host.tree.Vacant (base ++ [s.name]) := by
  have hwaiting : s.stage ≠ .waiting := fun hstage => by
    rw [hstage] at hs
    exact hs
  obtain ⟨hhost, hlocks, -⟩ := abandon_host p w s ho
  rw [if_neg hwaiting, dir, hg.without_eq hcwd ht hn hs.sits] at hhost
  exact confined_of_erase hg ht hn hhost fun other hne => by rw [hlocks, line_release hc hne]

end Steps

end Provisioning

end Testbed
