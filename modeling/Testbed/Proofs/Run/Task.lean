import Testbed.Proofs.Context.Stage
import Testbed.Run.Task

/-! The phases of a task and the edges between them. A step takes one edge, keeps the environment
and the moment of the start, and leaves less to do, so a task makes a bounded number of steps. What
stops a task for good is a lock, an install or a program that never comes; a cancellation ends all
three. -/
namespace Testbed

/-! ### Commands -/

namespace Progress

@[simp] theorem skip_index (p : Progress) (c : Command) : (p.skip c).index = p.index + 1 := by
  simp [skip, index]

@[simp] theorem halt_index (p : Progress) : p.halt.index = p.index := rfl

@[simp] theorem record_index (continueOnError : Bool) (p : Progress) (o : CommandOutcome) :
    (p.record continueOnError o).index = p.index + 1 := by
  simp only [record, index]
  split <;> simp [fail]

end Progress

/-- What the outcome may be of a command that had its turn: what became of its program, or that
there was none. -/
structure CommandOutcome.Arises (f : Facilities) (p : Progress) (o : CommandOutcome) : Prop where
  index : o.index = p.index
  status : o.status = .error ∨ ∃ external h i cutAt e,
    ((Task.executableFor f external).run h i cutAt).ending = .exited e ∧ o.status = e.status

/-! ### Phases -/

/-- No program that is run kills whoever waits for it. -/
def Facilities.Steady (f : Facilities) : Prop :=
  ∀ (external : Bool) (h : Host) (i : Invocation) (cutAt : Option Nat),
    ((Task.executableFor f external).run h i cutAt).ending ≠ .aborts

/-- Every program that is run comes to an end by itself. -/
def Facilities.Brisk (f : Facilities) : Prop :=
  ∀ (external : Bool) (h : Host) (i : Invocation) (cutAt : Option Nat),
    ((Task.executableFor f external).run h i cutAt).pause ≠ .forever

/-- The phases that may follow each other, for an environment that is run with some facilities and
sees the run cancelled or not. -/
inductive Phase.Edge (f : Facilities) (cancelled : Bool) (spec : EnvSpec) : Phase → Phase → Prop
  /-- Without being provisioned. -/
  | pass (r : EnvResult) (hr : r.name = spec.name) : Edge f cancelled spec .fresh (.finished r)
  | provision (s : Provisioning) (hn : s.name = spec.name)
      (hm : s.metadata.sources = Dependency.resolve spec.deps)
      (hs : s.stage = .waiting ∨ s.stage = .clearing) :
      Edge f cancelled spec .fresh (.provisioning s)
  | build {s s' : Provisioning} (h : s.Follows s') :
      Edge f cancelled spec (.provisioning s) (.provisioning s')
  | fail (s : Provisioning) (r : EnvResult) (hr : r.name = spec.name) :
      Edge f cancelled spec (.provisioning s) (.finished r)
  | enter (s : Provisioning) :
      Edge f cancelled spec (.provisioning s) (.commands (s.context f.provisioner) .start)
  /-- Once the environment has stopped. -/
  | skip (c : Context) {p : Progress} {command : Command}
      (hc : spec.commands[p.index]? = some command) (hs : p.stopped = true) :
      Edge f cancelled spec (.commands c p) (.commands c (p.skip command))
  /-- The cancellation is seen before a command. -/
  | halt (c : Context) {p : Progress} {command : Command}
      (hc : spec.commands[p.index]? = some command) (hs : p.stopped = false)
      (hx : cancelled = true) :
      Edge f cancelled spec (.commands c p) (.commands c (p.halt.skip command))
  | outcome (c : Context) {p : Progress} (hi : p.index < spec.commands.length)
      (hs : p.stopped = false) {o : CommandOutcome} (ho : o.Arises f p) :
      Edge f cancelled spec (.commands c p) (.commands c (p.record spec.continueOnError o))
  | launch (c : Context) (p : Progress) (r : Running) (hi : p.index < spec.commands.length)
      (hs : p.stopped = false) (hu : r.until? = none → ¬ f.Brisk) :
      Edge f cancelled spec (.commands c p) (.awaiting c p r)
  | collect (c : Context) (p : Progress) (r : Running) {o : CommandOutcome} (ho : o.Arises f p) :
      Edge f cancelled spec (.awaiting c p r) (.commands c (p.record spec.continueOnError o))
  | abort (c : Context) (p : Progress) (hf : ¬ f.Steady) :
      Edge f cancelled spec (.commands c p) .aborted
  | abortWaiting (c : Context) (p : Progress) (r : Running) (hf : ¬ f.Steady) :
      Edge f cancelled spec (.awaiting c p r) .aborted
  | leave (c : Context) (p : Progress) (hi : spec.commands.length ≤ p.index) :
      Edge f cancelled spec (.commands c p) (.closing c p)
  | close (c : Context) (p : Progress) (r : EnvResult) (hr : r.name = spec.name) :
      Edge f cancelled spec (.closing c p) (.finished r)

/-- The steps that are left, with one to spare for every install and every program that is waited
for. -/
def Phase.left (spec : EnvSpec) : Phase → Nat
  | .finished _ | .aborted => 0
  | .closing .. => 1
  | .commands _ p => 3 * (spec.commands.length - p.index) + 2
  | .awaiting _ p _ => 3 * (spec.commands.length - p.index - 1) + 4
  | .provisioning s => s.left + 3 * spec.commands.length + 3
  | .fresh => 3 * (Dependency.resolve spec.deps).length + 3 * spec.commands.length + 11

theorem Phase.Edge.left_lt {f : Facilities} {cancelled : Bool} {spec : EnvSpec} {a b : Phase}
    (h : Phase.Edge f cancelled spec a b) :
    b.left spec < a.left spec := by
  have hlt {p : Progress} {command : Command} (hc : spec.commands[p.index]? = some command) :
      p.index < spec.commands.length := (List.getElem?_eq_some_iff.1 hc).1
  cases h with
  | pass => simp [Phase.left]
  | provision s _ hm hs =>
    have hl : s.left ≤ 3 * (Dependency.resolve spec.deps).length + 7 := by
      rw [Provisioning.left, hm]
      rcases hs with h | h <;> simp [h, Stage.left]
    simp only [Phase.left]
    omega
  | build h =>
    have := h.left_lt
    simp only [Phase.left]
    omega
  | fail => simp [Phase.left]
  | enter =>
    simp only [Phase.left, Progress.start, Progress.index, List.length_nil]
    omega
  | skip c hc =>
    have := hlt hc
    simp only [Phase.left, Progress.skip_index]
    omega
  | halt c hc =>
    have := hlt hc
    simp only [Phase.left, Progress.skip_index, Progress.halt_index]
    omega
  | outcome =>
    simp only [Phase.left, Progress.record_index]
    omega
  | launch =>
    simp only [Phase.left]
    omega
  | collect =>
    simp only [Phase.left, Progress.record_index]
    omega
  | abort => simp [Phase.left]
  | abortWaiting => simp [Phase.left]
  | leave =>
    simp only [Phase.left]
    omega
  | close => simp [Phase.left]

namespace Task

def left (t : Task) : Nat := t.phase.left t.spec

/-- A task after an edge from another. -/
structure Follows (f : Facilities) (cancelled : Bool) (t t' : Task) : Prop where
  spec : t'.spec = t.spec
  since : t'.since = t.since
  edge : Phase.Edge f cancelled t.spec t.phase t'.phase

variable {f : Facilities} {cancelled : Bool} {t t' : Task} {w w' : World}

theorem Follows.left_lt (h : Follows f cancelled t t') : t'.left < t.left := by
  rw [left, left, h.spec]
  exact h.edge.left_lt

/-- A change of the stage in life and of the phase alone. -/
theorem follows_of_phase {life : Lifecycle} {phase : Phase}
    (ht : t' = { t with life := life, phase := phase })
    (h : Phase.Edge f cancelled t.spec t.phase phase) : Follows f cancelled t t' := by
  subst ht
  exact ⟨rfl, rfl, h⟩

/-! ### What each function does to the task -/

/-- An edge of life is taken whether or not it is allowed. -/
theorem advance_fst (t : Task) (w : World) (next : Lifecycle) :
    (t.advance w next).1 = { t with life := next } := by
  unfold advance Lifecycle.transition
  split
  next life h => split at h <;> simp_all
  next h => rfl

theorem begin_follows (w : World) (ht : t.phase = .fresh) :
    Follows f cancelled t (t.begin w).1 := by
  unfold begin
  split
  · simp only [skip, report, advance_fst]
    exact follows_of_phase rfl (ht ▸ .pass _ rfl)
  · split
    · simp only [pass, finish, report, advance_fst]
      exact follows_of_phase rfl (ht ▸ .pass _ rfl)
    · simp only [provision, advance_fst, Provisioning.start]
      split
      · exact follows_of_phase rfl (ht ▸ .provision _ rfl rfl (by simp))
      · exact follows_of_phase rfl (ht ▸ .provision _ rfl rfl (by simp))

theorem provisionFailed_follows (w : World) (failure : String) {s : Provisioning}
    (ht : t.phase = .provisioning s) : Follows f cancelled t (t.provisionFailed w failure).1 := by
  simp only [provisionFailed, finish, report, advance_fst]
  exact follows_of_phase rfl (ht ▸ .fail s _ rfl)

theorem provisioned_follows (w : World) {s : Provisioning} (ht : t.phase = .provisioning s) :
    Follows f cancelled t (t.provisioned w (s.context f.provisioner)).1 := by
  simp only [provisioned, advance_fst]
  exact follows_of_phase rfl (ht ▸ .enter s)

/-- After a program, its outcome is recorded, or whoever waited for it is dead. -/
theorem settle_fst (t : Task) (w : World) (c : Context) (p : Progress) (command : Command)
    (argv : List String) (path : Path) (external : Bool) (h : Host) (i : Invocation)
    (cutAt : Option Nat) :
    (∃ o : CommandOutcome, o.Arises f p ∧
      (t.settle w c p command argv path ((executableFor f external).run h i cutAt)).1 =
        { t with phase := .commands c (p.record t.spec.continueOnError o) }) ∨
    (t.settle w c p command argv path ((executableFor f external).run h i cutAt)).1 =
      { t with phase := .aborted } ∧ ¬ f.Steady := by
  unfold settle
  dsimp only
  split
  next e he =>
    exact .inl ⟨e.toOutcome p.index (Command.displayArgv argv),
      ⟨rfl, .inr ⟨external, h, i, cutAt, e, he, rfl⟩⟩, rfl⟩
  next reason _ =>
    exact .inl ⟨.errored p.index command.display (CommandError.launchFailed path reason).message,
      ⟨rfl, .inl rfl⟩, rfl⟩
  next he => exact .inr ⟨rfl, fun hf => hf external h i cutAt he⟩

theorem settle_follows (w : World) {c : Context} {p : Progress} (command : Command)
    (argv : List String) (path : Path) (external : Bool) (h : Host) (i : Invocation)
    (cutAt : Option Nat)
    (hc : ∀ o : CommandOutcome, o.Arises f p → Phase.Edge f cancelled t.spec t.phase
      (.commands c (p.record t.spec.continueOnError o)))
    (ha : ¬ f.Steady → Phase.Edge f cancelled t.spec t.phase .aborted) :
    Follows f cancelled t
      (t.settle w c p command argv path ((executableFor f external).run h i cutAt)).1 := by
  rcases settle_fst t w c p command argv path external h i cutAt with ⟨o, ho, heq⟩ | ⟨heq, hf⟩
  · exact follows_of_phase heq (hc o ho)
  · exact follows_of_phase heq (ha hf)

theorem runCommand_follows (w : World) {c : Context} {p : Progress} (command : Command)
    (ht : t.phase = .commands c p) (hi : p.index < t.spec.commands.length)
    (hs : p.stopped = false) : Follows f cancelled t (t.runCommand f w c p command).1 := by
  have hrefuse (w : World) (e : CommandError) :
      Follows f cancelled t (t.refuse w c p command e).1 :=
    follows_of_phase rfl (ht ▸ .outcome c hi hs ⟨rfl, .inl rfl⟩)
  unfold runCommand
  split
  · exact hrefuse w .empty
  · split
    · exact hrefuse w _
    · unfold launch
      dsimp only
      split
      · exact settle_follows _ command _ _ command.external w.host _ none
          (fun o ho => ht ▸ .outcome c hi hs ho) (fun hf => ht ▸ .abort c p hf)
      · exact follows_of_phase rfl
          (ht ▸ .launch c p _ hi hs fun h => absurd h (Option.some_ne_none _))
      next hpause =>
        exact follows_of_phase rfl (ht ▸ .launch c p _ hi hs fun _ hf => hf _ _ _ _ hpause)

theorem proceed_follows (w : World) {c : Context} {p : Progress} (ht : t.phase = .commands c p) :
    Follows f w.cancelled t (t.proceed f w c p).1 := by
  unfold proceed
  split
  next hn =>
    simp only [advance_fst]
    exact follows_of_phase rfl (ht ▸ .leave c p (List.getElem?_eq_none_iff.1 hn))
  next command hc =>
    split
    next hs => exact follows_of_phase rfl (ht ▸ .skip c hc hs)
    next hs =>
      have hs : p.stopped = false := by simpa using hs
      split
      next hx => exact follows_of_phase rfl (ht ▸ .halt c hc hs hx)
      next => exact runCommand_follows w command ht (List.getElem?_eq_some_iff.1 hc).1 hs

theorem attend_follows {c : Context} {p : Progress}
    {r : Running} (ht : t.phase = .awaiting c p r) (h : t.attend f w c p r = .moved t' w') :
    Follows f cancelled t t' := by
  have hended (command : Command) (cutAt : Option Nat) :
      Follows f cancelled t (t.settle w c p command r.argv r.invocation.path
        ((executableFor f r.executable).run w.host r.invocation cutAt)).1 :=
    settle_follows w command _ _ r.executable w.host r.invocation cutAt
      (fun o ho => ht ▸ .collect c p r ho) (fun hf => ht ▸ .abortWaiting c p r hf)
  unfold attend at h
  dsimp only at h
  split at h
  · cases h
    exact hended _ _
  · split at h
    · split at h
      · cases h
        exact hended _ _
      · cases h
    · cases h

theorem close_follows (w : World) {c : Context} {p : Progress}
    (ht : t.phase = .closing c p) : Follows f cancelled t (t.close w c p).1 := by
  unfold close
  split
  · exact follows_of_phase rfl (ht ▸ .close c p _ rfl)
  · exact follows_of_phase rfl (ht ▸ .close c p _ rfl)

theorem stepProvisioning_follows {s : Provisioning}
    (ht : t.phase = .provisioning s) (h : t.stepProvisioning f w s = .moved t' w') :
    Follows f cancelled t t' := by
  unfold stepProvisioning at h
  dsimp only at h
  split at h
  · cases h
    exact provisionFailed_follows _ _ ht
  · split at h
    · cases h
      exact provisioned_follows w ht
    · cases h
      exact provisionFailed_follows w _ ht
    · split at h
      next s' w'' hs =>
        cases h
        exact follows_of_phase rfl (ht ▸ .build (Provisioning.step_follows hs))
      next => cases h

/-! ### A step -/

theorem stepIn_follows (h : t.stepIn f w = .moved t' w') : Follows f w.cancelled t t' := by
  unfold stepIn at h
  dsimp only at h
  split at h
  next ht =>
    cases h
    exact begin_follows w ht
  next s ht => exact stepProvisioning_follows ht h
  next c p ht =>
    cases h
    exact proceed_follows w ht
  next c p r ht => exact attend_follows ht h
  next c p ht =>
    cases h
    exact close_follows w ht
  all_goals cases h

theorem step_follows (h : t.step f w = .moved t' w') : Follows f w.tick.cancelled t t' := by
  unfold step at h
  split at h
  next t₁ w₁ h₁ =>
    have hin := stepIn_follows h₁
    cases h
    exact hin
  next => cases h

theorem step_left_lt (h : t.step f w = .moved t' w') : t'.left < t.left := (step_follows h).left_lt

/-- Only a program that kills whoever waits for it kills a task. -/
theorem step_phase_ne_aborted (hf : f.Steady) (h : t.step f w = .moved t' w') :
    t'.phase ≠ .aborted := by
  intro ha
  have he := (step_follows h).edge
  rw [ha] at he
  generalize t.phase = a at he
  cases he with
  | abort _ _ hn => exact hn hf
  | abortWaiting _ _ _ hn => exact hn hf

/-- The result of a task is about its own environment. -/
theorem step_result_name {r : EnvResult} (h : t.step f w = .moved t' w')
    (hr : t'.phase = .finished r) : r.name = t'.spec.name := by
  have he := (step_follows h).edge
  rw [(step_follows h).spec]
  rw [hr] at he
  generalize t.phase = a at he
  cases he <;> assumption

/-! ### Waiting -/

/-- Whether the task makes no more steps of its own. -/
def isOver (t : Task) : Prop := (∃ r, t.phase = .finished r) ∨ t.phase = .aborted

theorem not_isOver_of_step (h : t.step f w = .moved t' w') : ¬ t.isOver := by
  have he := (step_follows h).edge
  rintro (⟨r, hp⟩ | hp)
  all_goals
    rw [hp] at he
    cases he

/-- What the task waits for does not come by itself. -/
def Hangs (t : Task) (locks : Locks.Registry) : Prop :=
  match t.phase with
  | .provisioning s => s.Hangs locks
  | .awaiting _ _ r => r.until? = none
  | _ => False

/-- The moment that is waited for. -/
def moment (t : Task) : Nat :=
  match t.phase with
  | .provisioning s => s.moment
  | .awaiting _ _ r => r.until?.getD 0
  | _ => 0

theorem stepProvisioning_exists (f : Facilities) (t : Task) {s : Provisioning}
    (hh : w.cancelled = true ∨ ¬ s.Hangs w.locks) (hm : s.moment ≤ w.clock) :
    ∃ t' w', t.stepProvisioning f w s = .moved t' w' := by
  unfold stepProvisioning
  dsimp only
  split
  next => exact ⟨_, _, rfl⟩
  next hc =>
    split
    next => exact ⟨_, _, rfl⟩
    next => exact ⟨_, _, rfl⟩
    next hready hfailed =>
      have ho : ¬ s.isOver := by
        rintro (h | ⟨cause, h⟩)
        · exact hready h
        · exact hfailed cause h
      -- a stage that hangs is one that waits, where a cancellation would have been noticed
      have hn : ¬ s.Hangs w.locks := by
        rcases hh with h | h
        · intro hs
          unfold Provisioning.Hangs at hs
          split at hs <;> simp_all [Stage.waits]
        · exact h
      obtain ⟨s', w', h⟩ := Provisioning.exists_step f.provisioner f.installer ho hn hm
      rw [h]
      exact ⟨_, _, rfl⟩

theorem attend_exists (f : Facilities) (t : Task) (c : Context) (p : Progress) {r : Running}
    (hh : w.cancelled = true ∨ r.until? ≠ none) (hm : r.until?.getD 0 ≤ w.clock) :
    ∃ t' w', t.attend f w c p r = .moved t' w' := by
  unfold attend
  dsimp only
  split
  next => exact ⟨_, _, rfl⟩
  next hc =>
    split
    next moment hu =>
      rw [if_pos (by simpa [hu] using hm)]
      exact ⟨_, _, rfl⟩
    next hu => simp_all

/-- A task that is not over goes on once its moment has come, unless it hangs and the run is not
cancelled. -/
theorem exists_step (f : Facilities) (ho : ¬ t.isOver) (hh : w.cancelled = true ∨ ¬ t.Hangs w.locks)
    (hm : t.moment ≤ w.clock) : ∃ t' w', t.step f w = .moved t' w' := by
  have hc (h : w.cancelled = true) :
      ({ w.tick with span := some t.spec.name } : World).cancelled = true := by
    simp [World.tick, h]
  have hin : ∃ t' w', t.stepIn f { w.tick with span := some t.spec.name } = .moved t' w' := by
    unfold stepIn
    dsimp only
    split
    next => exact ⟨_, _, rfl⟩
    next s hs =>
      exact stepProvisioning_exists f t (hh.imp hc (by simp [Hangs, hs, World.tick]))
        (by simpa [moment, hs, World.tick] using hm)
    next => exact ⟨_, _, rfl⟩
    next c p r hs =>
      exact attend_exists f t c p (hh.imp hc (by simp [Hangs, hs]))
        (by simpa [moment, hs, World.tick] using hm)
    next => exact ⟨_, _, rfl⟩
    next r hs => exact absurd (.inl ⟨r, hs⟩) ho
    next hs => exact absurd (.inr hs) ho
  obtain ⟨t', w', h⟩ := hin
  unfold step
  rw [h]
  exact ⟨_, _, rfl⟩

theorem stepProvisioning_blocked {s : Provisioning} {until? : Option Nat}
    (hs : t.phase = .provisioning s) (h : t.stepProvisioning f w s = .blocked until?) :
    w.cancelled = false ∧ (t.Hangs w.locks ∧ until? = none ∨
      ¬ t.Hangs w.locks ∧ w.clock < t.moment ∧ until? = some t.moment) := by
  have hhangs : t.Hangs w.locks ↔ s.Hangs w.locks := by simp [Hangs, hs]
  have hmoment : t.moment = s.moment := by simp [moment, hs]
  unfold stepProvisioning at h
  dsimp only at h
  split at h
  next => cases h
  next hc =>
    split at h
    next => cases h
    next => cases h
    next hready hfailed =>
      split at h
      next => cases h
      next until?' hstep =>
        cases h
        have ho : ¬ s.isOver := by
          rintro (h | ⟨cause, h⟩)
          · exact hready h
          · exact hfailed cause h
        have hw : w.cancelled = false := by
          simpa [Provisioning.waits_of_blocked hstep ho] using hc
        rw [hhangs, hmoment]
        rcases Provisioning.step_blocked hstep with h | h | ⟨-, hn, hlt, hu⟩
        · exact absurd h ho
        · exact ⟨hw, .inl h⟩
        · exact ⟨hw, .inr ⟨hn, hlt, hu⟩⟩

theorem attend_blocked {c : Context} {p : Progress} {r : Running} {until? : Option Nat}
    (hs : t.phase = .awaiting c p r) (h : t.attend f w c p r = .blocked until?) :
    w.cancelled = false ∧ (t.Hangs w.locks ∧ until? = none ∨
      ¬ t.Hangs w.locks ∧ w.clock < t.moment ∧ until? = some t.moment) := by
  have hhangs : t.Hangs w.locks ↔ r.until? = none := by simp [Hangs, hs]
  have hmoment : t.moment = r.until?.getD 0 := by simp [moment, hs]
  rw [hhangs, hmoment]
  unfold attend at h
  dsimp only at h
  split at h
  next => cases h
  next hc =>
    have hw : w.cancelled = false := by simpa using hc
    split at h
    next moment hu =>
      split at h
      next => cases h
      next hlt =>
        cases h
        exact ⟨hw, .inr ⟨by simp [hu], by simpa [hu] using hlt, by simp [hu]⟩⟩
    next hu =>
      cases h
      exact ⟨hw, .inl ⟨hu, rfl⟩⟩

/-- What does not go on is over, hangs, or waits for a moment to come; a cancelled task does not
wait. -/
theorem step_blocked {until? : Option Nat} (h : t.step f w = .blocked until?) :
    t.isOver ∧ until? = none ∨ ¬ t.isOver ∧ w.cancelled = false ∧ (t.Hangs w.locks ∧ until? = none ∨
      ¬ t.Hangs w.locks ∧ w.clock < t.moment ∧ until? = some t.moment) := by
  have hw (hc : ({ w.tick with span := some t.spec.name } : World).cancelled = false) :
      w.cancelled = false := by
    cases hcan : w.cancelled with
    | false => rfl
    | true => simp [World.tick, hcan] at hc
  have hin : t.stepIn f { w.tick with span := some t.spec.name } = .blocked until? := by
    unfold step at h
    split at h
    next => cases h
    next h' => rwa [h] at h'
  unfold stepIn at hin
  dsimp only at hin
  split at hin
  next => cases hin
  next s hs =>
    obtain ⟨hc, hb⟩ := stepProvisioning_blocked hs hin
    exact .inr ⟨by simp [isOver, hs], hw hc, hb⟩
  next => cases hin
  next c p r hs =>
    obtain ⟨hc, hb⟩ := attend_blocked hs hin
    exact .inr ⟨by simp [isOver, hs], hw hc, hb⟩
  next => cases hin
  next r hs =>
    cases hin
    exact .inl ⟨.inl ⟨r, hs⟩, rfl⟩
  next hs =>
    cases hin
    exact .inl ⟨.inr hs, rfl⟩

end Task

end Testbed
