import Testbed.Context.Provision

/-! The stages of a provisioning and the edges between them. A step takes one edge and changes
nothing else of the provisioning but whether its lock is held, and every edge leaves less to do. -/
namespace Testbed

/-- Whether what the stage does may go wrong. -/
def Stage.canFail : Stage → Prop
  | .clearing | .makingBin | .makingTmp | .installing (_ :: _) | .awaiting .. | .recording => True
  | _ => False

/-- What may come after a stage, when `sources` are to be installed. -/
inductive Stage.Edge (sources : List Dependency) : Stage → Stage → Prop
  | enter : Edge sources .waiting .clearing
  | clear : Edge sources .clearing .makingBin
  | makeBin : Edge sources .makingBin .makingTmp
  | makeTmp : Edge sources .makingTmp (.installing sources)
  | await (source : Dependency) (rest : List Dependency) (until? : Option Nat) :
      Edge sources (.installing (source :: rest)) (.awaiting source rest until?)
  | install (source : Dependency) (rest : List Dependency) :
      Edge sources (.installing (source :: rest)) (.installing rest)
  | collect (source : Dependency) (rest : List Dependency) (until? : Option Nat) :
      Edge sources (.awaiting source rest until?) (.installing rest)
  | complete : Edge sources (.installing []) .recording
  | record : Edge sources .recording .ready
  | fail {stage : Stage} (cause : ProvisionError) (h : stage.canFail) :
      Edge sources stage (.discarding cause)
  | discard (cause : ProvisionError) : Edge sources (.discarding cause) (.failed cause)

/-- The steps that are left, with one to spare for every install that is waited for. -/
def Stage.left (sources : Nat) : Stage → Nat
  | .ready | .failed _ => 0
  | .discarding _ => 1
  | .recording => 2
  | .installing rest => 3 * rest.length + 3
  | .awaiting _ rest _ => 3 * rest.length + 5
  | .makingTmp => 3 * sources + 4
  | .makingBin => 3 * sources + 5
  | .clearing => 3 * sources + 6
  | .waiting => 3 * sources + 7

theorem Stage.Edge.left_lt {sources : List Dependency} {a b : Stage} (h : Stage.Edge sources a b) :
    b.left sources.length < a.left sources.length := by
  cases h with
  | fail cause hf =>
    cases a with
    | installing rest => simp [Stage.left]
    | _ => simp [Stage.left, Stage.canFail] at hf ⊢
  | _ => simp [Stage.left] <;> omega

theorem Stage.Edge.ne_waiting {sources : List Dependency} {a b : Stage} (h : Stage.Edge sources a b) :
    b ≠ .waiting := by
  rintro rfl
  cases h

/-- Only discarding fails for good. -/
theorem Stage.Edge.eq_discarding {sources : List Dependency} {a : Stage} {cause : ProvisionError}
    (h : Stage.Edge sources a (.failed cause)) : a = .discarding cause := by
  cases h
  rfl

namespace Provisioning

def left (s : Provisioning) : Nat := s.stage.left s.metadata.sources.length

/-- One provisioning after an edge from another: the same work for the same client. -/
structure Follows (s s' : Provisioning) : Prop where
  name : s'.name = s.name
  metadata : s'.metadata = s.metadata
  owner : s'.client.name = s.client.name
  ticket : s'.client.ticket = s.client.ticket
  edge : Stage.Edge s.metadata.sources s.stage s'.stage

theorem Follows.left_lt {s s' : Provisioning} (h : Follows s s') : s'.left < s.left := by
  rw [left, left, h.metadata]
  exact h.edge.left_lt

/-- A change of the stage alone. -/
theorem follows_of_stage {s s' : Provisioning} {stage : Stage} (hs : s' = { s with stage := stage })
    (h : Stage.Edge s.metadata.sources s.stage stage) : Follows s s' := by
  subst hs
  exact ⟨rfl, rfl, rfl, rfl, h⟩

/-! ### What each function does to the stage -/

theorem goOn_fst (w : World) (s : Provisioning) (path : Path) (next : Stage)
    (cause? : Option Host.OsError) :
    (goOn w s path next cause?).1 = { s with stage := next } ∨
      ∃ cause, (goOn w s path next cause?).1 = { s with stage := .discarding cause } := by
  cases cause? with
  | none => exact .inl rfl
  | some cause => exact .inr ⟨.context path cause, rfl⟩

theorem clear_fst (p : Provisioner) (w : World) (s : Provisioning) :
    (clear p w s).1 = { s with stage := .makingBin } ∨
      ∃ cause, (clear p w s).1 = { s with stage := .discarding cause } := by
  unfold clear
  split
  · exact goOn_fst ..
  · exact .inl rfl

theorem makeDir_fst (w : World) (s : Provisioning) (path : Path) (next : Stage) :
    (makeDir w s path next).1 = { s with stage := next } ∨
      ∃ cause, (makeDir w s path next).1 = { s with stage := .discarding cause } :=
  goOn_fst ..

theorem accept_fst (p : Provisioner) (w : World) (s : Provisioning) (source : Dependency)
    (rest : List Dependency) (reply : InstallReply) :
    (accept p w s source rest reply).1 = { s with stage := .installing rest } ∨
      ∃ cause, (accept p w s source rest reply).1 = { s with stage := .discarding cause } := by
  unfold accept
  split
  · exact .inr ⟨_, rfl⟩
  · split
    · exact .inl rfl
    · exact .inr ⟨_, rfl⟩

theorem install_fst (p : Provisioner) (installer : Installer) (w : World) (s : Provisioning)
    (source : Dependency) (rest : List Dependency) :
    (install p installer w s source rest).1 = { s with stage := .installing rest } ∨
      (∃ until?, (install p installer w s source rest).1 =
        { s with stage := .awaiting source rest until? }) ∨
      ∃ cause, (install p installer w s source rest).1 = { s with stage := .discarding cause } := by
  unfold install
  dsimp only
  split
  · rcases accept_fst p _ s source rest (installer w.host (s.target p) source) with h | h
    · exact .inl h
    · exact .inr (.inr h)
  · exact .inr (.inl ⟨_, rfl⟩)
  · exact .inr (.inl ⟨_, rfl⟩)

theorem record_fst (p : Provisioner) (w : World) (s : Provisioning) :
    (record p w s).1 = { s with stage := .ready } ∨
      ∃ cause, (record p w s).1 = { s with stage := .discarding cause } := by
  unfold record
  dsimp only
  split
  · exact .inl rfl
  · exact .inr ⟨_, rfl⟩

theorem discard_fst (p : Provisioner) (w : World) (s : Provisioning) (cause : ProvisionError) :
    (discard p w s cause).1 = { s with stage := .failed cause } := rfl

/-! ### A step -/

/-- Where one of two stages follows, an edge does. -/
theorem follows_of_or {s : Provisioning} {r : Provisioning × World} {stage : Stage}
    (hr : r.1 = { s with stage := stage } ∨ ∃ cause, r.1 = { s with stage := .discarding cause })
    (he : Stage.Edge s.metadata.sources s.stage stage) (hf : s.stage.canFail) : Follows s r.1 := by
  rcases hr with h | ⟨cause, h⟩
  · exact follows_of_stage h he
  · exact follows_of_stage h (.fail cause hf)

theorem moved_eq {r : Provisioning × World} {s' : Provisioning} {w' : World}
    (h : moved r = .moved s' w') : s' = r.1 ∧ w' = r.2 := by
  simpa [moved, eq_comm] using h

theorem step_follows {p : Provisioner} {installer : Installer} {w w' : World} {s s' : Provisioning}
    (h : step p installer w s = .moved s' w') : Follows s s' := by
  unfold step at h
  split at h
  next hs =>
    dsimp only at h
    split at h
    · cases h
      refine ⟨rfl, rfl, ?_, ?_, hs ▸ .enter⟩ <;> (simp only [Locks.Client.poll]; split <;> rfl)
    · cases h
  next hs =>
    rw [(moved_eq h).1]
    exact follows_of_or (clear_fst p w s) (hs ▸ .clear) (by simp [hs, Stage.canFail])
  next hs =>
    rw [(moved_eq h).1]
    exact follows_of_or (makeDir_fst ..) (hs ▸ .makeBin) (by simp [hs, Stage.canFail])
  next hs =>
    rw [(moved_eq h).1]
    exact follows_of_or (makeDir_fst ..) (hs ▸ .makeTmp) (by simp [hs, Stage.canFail])
  next hs =>
    cases h
    exact follows_of_stage rfl (hs ▸ .complete)
  next source rest hs =>
    rw [(moved_eq h).1]
    rcases install_fst p installer w s source rest with h | ⟨until?, h⟩ | ⟨cause, h⟩
    · exact follows_of_stage h (hs ▸ .install source rest)
    · exact follows_of_stage h (hs ▸ .await source rest until?)
    · exact follows_of_stage h (.fail cause (by simp [hs, Stage.canFail]))
  next source rest moment hs =>
    split at h
    · rw [(moved_eq h).1]
      exact follows_of_or (accept_fst ..) (hs ▸ .collect source rest _) (by simp [hs, Stage.canFail])
    · cases h
  next => cases h
  next hs =>
    rw [(moved_eq h).1]
    exact follows_of_or (record_fst ..) (hs ▸ .record) (by simp [hs, Stage.canFail])
  next cause hs =>
    rw [(moved_eq h).1]
    exact follows_of_stage (discard_fst ..) (hs ▸ .discard cause)
  next => cases h
  next => cases h

/-! ### Waiting -/

/-- Whether nothing is left but to take over what came of it. -/
def isOver (s : Provisioning) : Prop := s.stage = .ready ∨ ∃ cause, s.stage = .failed cause

/-- The lock is another's, or an install does not end. -/
def Hangs (s : Provisioning) (locks : Locks.Registry) : Prop :=
  match s.stage with
  | .waiting => (s.client.poll locks).held = false
  | .awaiting _ _ none => True
  | _ => False

/-- The moment that is waited for. -/
def moment (s : Provisioning) : Nat :=
  match s.stage with
  | .awaiting _ _ (some moment) => moment
  | _ => 0

/-- What neither is over nor hangs goes on once its moment has come. -/
theorem exists_step (p : Provisioner) (installer : Installer) {w : World} {s : Provisioning}
    (ho : ¬ s.isOver) (hh : ¬ s.Hangs w.locks) (hm : s.moment ≤ w.clock) :
    ∃ s' w', step p installer w s = .moved s' w' := by
  unfold step
  split
  next hs =>
    have hheld : (s.client.poll w.locks).held = true := by simpa [Hangs, hs] using hh
    simp [hheld]
  next => exact ⟨_, _, rfl⟩
  next => exact ⟨_, _, rfl⟩
  next => exact ⟨_, _, rfl⟩
  next => exact ⟨_, _, rfl⟩
  next => exact ⟨_, _, rfl⟩
  next moment hs =>
    have hle : moment ≤ w.clock := by simpa [Provisioning.moment, hs] using hm
    rw [if_pos hle]
    exact ⟨_, _, rfl⟩
  next hs => exact absurd (by simp [Hangs, hs]) hh
  next => exact ⟨_, _, rfl⟩
  next => exact ⟨_, _, rfl⟩
  next hs => exact absurd (.inl hs) ho
  next cause hs => exact absurd (.inr ⟨cause, hs⟩) ho

/-- What does not go on is over, hangs, or waits for a moment to come. -/
theorem step_blocked {p : Provisioner} {installer : Installer} {w : World} {s : Provisioning}
    {until? : Option Nat} (h : step p installer w s = .blocked until?) :
    s.isOver ∨ s.Hangs w.locks ∧ until? = none ∨
      ¬ s.isOver ∧ ¬ s.Hangs w.locks ∧ w.clock < s.moment ∧ until? = some s.moment := by
  unfold step at h
  split at h
  next hs =>
    dsimp only at h
    split at h
    next => cases h
    next hheld =>
      cases h
      exact .inr (.inl ⟨by simpa [Hangs, hs] using hheld, rfl⟩)
  next => cases h
  next => cases h
  next => cases h
  next => cases h
  next => cases h
  next source rest moment hs =>
    split at h
    next => cases h
    next hlt =>
      cases h
      refine .inr (.inr ⟨?_, ?_, ?_, ?_⟩)
      · simp [isOver, hs]
      · simp [Hangs, hs]
      · simpa [Provisioning.moment, hs] using hlt
      · simp [Provisioning.moment, hs]
  next hs =>
    cases h
    exact .inr (.inl ⟨by simp [Hangs, hs], rfl⟩)
  next => cases h
  next => cases h
  next hs => exact .inl (.inl hs)
  next cause hs => exact .inl (.inr ⟨cause, hs⟩)

/-- A cancellation would be noticed by what does not go on. -/
theorem waits_of_blocked {p : Provisioner} {installer : Installer} {w : World} {s : Provisioning}
    {until? : Option Nat} (h : step p installer w s = .blocked until?) (ho : ¬ s.isOver) :
    s.stage.waits = true := by
  rcases step_blocked h with h | ⟨h, -⟩ | ⟨-, -, h, -⟩
  · exact absurd h ho
  · unfold Hangs at h
    split at h <;> simp_all [Stage.waits]
  · unfold moment at h
    split at h <;> simp_all [Stage.waits]

end Provisioning

end Testbed
