import Mathlib.Data.List.Basic
import Testbed.Proofs.Context.Effects
import Testbed.Proofs.Run.Launch
import Testbed.Proofs.Run.Sequence

/-! What a cancellation does to one environment: what its task has done so far is all that it does.
One that is not begun is passed over, one that is being provisioned gives up what it has built, and
the commands that are left are passed over before the context is closed as ever. A task that waits
may overlook the cancellation once, when what it waits for comes at the same time; that changes
nothing about what it comes to. -/
namespace Testbed

/-! ### Outcomes -/

/-- Behind a command that was cut short nothing has its turn. -/
def CutsOnce (outcomes : List CommandOutcome) : Prop :=
  outcomes.Pairwise fun o o' => o.status = .cancelled → o'.status = .skipped

theorem CutsOnce.count_le {outcomes : List CommandOutcome} (h : CutsOnce outcomes) :
    outcomes.countP (·.status == .cancelled) ≤ 1 := by
  induction outcomes with
  | nil => exact Nat.zero_le 1
  | cons o rest ih =>
    obtain ⟨hbehind, hrest⟩ := List.pairwise_cons.1 h
    rw [List.countP_cons]
    split
    next ho =>
      have hzero : rest.countP (·.status == .cancelled) = 0 := by
        refine List.countP_eq_zero.2 fun o' ho' => ?_
        simp [hbehind o' ho' (by simpa using ho)]
      omega
    next => exact ih hrest

theorem cutsOnce_of_skipped {outcomes : List CommandOutcome}
    (h : ∀ o ∈ outcomes, o.status = .skipped) : CutsOnce outcomes :=
  List.pairwise_of_forall_mem_list fun _ _ o' ho' _ => h o' ho'

namespace Progress

/-- Only a stopped environment has a command that was cut short. -/
structure Cuts (p : Progress) : Prop where
  once : CutsOnce p.outcomes
  going : p.stopped = false → ∀ o ∈ p.outcomes, o.status ≠ .cancelled

theorem start_cuts : Cuts .start := ⟨.nil, fun _ => by simp [start]⟩

variable {p : Progress}

theorem Cuts.skip (h : p.Cuts) (command : Command) : (p.skip command).Cuts where
  once := by
    refine List.pairwise_append.2 ⟨h.once, List.pairwise_singleton _ _, fun o _ o' ho' _ => ?_⟩
    rw [List.mem_singleton.1 ho']
    rfl
  going hs o ho := by
    rcases List.mem_append.1 ho with ho | ho
    · exact h.going hs o ho
    · rw [List.mem_singleton.1 ho]
      exact nofun

theorem Cuts.halt (h : p.Cuts) : p.halt.Cuts := ⟨h.once, nofun⟩

theorem record_outcomes (continueOnError : Bool) (p : Progress) (o : CommandOutcome) :
    (p.record continueOnError o).outcomes = p.outcomes ++ [o] := by
  simp only [record]
  split <;> rfl

theorem record_stopped (continueOnError : Bool) (p : Progress) (o : CommandOutcome) :
    (p.record continueOnError o).stopped = (p.stopped || stopsAfter continueOnError o) := by
  simp only [record]
  split <;> rfl

/-- A command that was cut short stops the environment whether or not it goes on after errors. -/
theorem stopsAfter_of_cancelled (continueOnError : Bool) {o : CommandOutcome}
    (h : o.status = .cancelled) : stopsAfter continueOnError o = true := by
  simp [stopsAfter, CommandOutcome.isPassed, h]

theorem Cuts.record (h : p.Cuts) (hs : p.stopped = false) (continueOnError : Bool)
    (o : CommandOutcome) : (p.record continueOnError o).Cuts where
  once := by
    rw [record_outcomes]
    refine List.pairwise_append.2 ⟨h.once, List.pairwise_singleton _ _, fun o' ho' _ _ hc => ?_⟩
    exact absurd hc (h.going hs o' ho')
  going hgo o' ho' hc := by
    rw [record_stopped, hs, Bool.false_or] at hgo
    rw [record_outcomes] at ho'
    rcases List.mem_append.1 ho' with ho' | ho'
    · exact h.going hs o' ho' hc
    · rw [List.mem_singleton.1 ho'] at hc
      rw [stopsAfter_of_cancelled continueOnError hc] at hgo
      cases hgo

/-! ### The rest -/

/-- The result when no command has its turn any more. -/
structure CutsTo (spec : EnvSpec) (p : Progress) (e : EnvResult) : Prop where
  outcomes : e.outcomes = p.outcomes ++ (Task.skipped spec).drop p.index
  failure : e.failure =
    if p.stopped = true ∨ spec.commands.length ≤ p.index then p.failure
    else some (p.failure.getD "run cancelled")
  status : e.status = if e.failure.isNone then .succeeded else .failed

variable {spec : EnvSpec} {e : EnvResult} {command : Command}

theorem skipped_drop (hc : spec.commands[p.index]? = some command) :
    (Task.skipped spec).drop p.index =
      .skipped p.index command.display :: (Task.skipped spec).drop (p.index + 1) := by
  obtain ⟨hi, rfl⟩ := List.getElem?_eq_some_iff.1 hc
  have hlen : p.index < (Task.skipped spec).length := by simpa [Task.skipped] using hi
  rw [List.drop_eq_getElem_cons hlen]
  simp [Task.skipped]

theorem CutsTo.of_skip (h : (p.skip command).CutsTo spec e) (hs : p.stopped = true)
    (hc : spec.commands[p.index]? = some command) : p.CutsTo spec e where
  outcomes := by
    rw [h.outcomes, skip_index, skipped_drop hc, Progress.skip]
    simp
  failure := by
    rw [h.failure, if_pos (.inl hs), if_pos (.inl hs)]
    rfl
  status := h.status

theorem CutsTo.of_halt (h : (p.halt.skip command).CutsTo spec e) (hs : p.stopped = false)
    (hc : spec.commands[p.index]? = some command) : p.CutsTo spec e where
  outcomes := by
    rw [h.outcomes, skip_index, halt_index, skipped_drop hc, Progress.skip]
    simp [Progress.halt, Progress.fail, Progress.index]
  failure := by
    have hlt := (List.getElem?_eq_some_iff.1 hc).1
    rw [h.failure, if_pos (.inl rfl), if_neg (by simp [hs, hlt])]
    rfl
  status := h.status

/-- Where no command is left the result is that of the commands. -/
theorem cutsTo_of_done (hi : spec.commands.length ≤ p.index) (hs : e.status = p.status)
    (ho : e.outcomes = p.outcomes) (hf : e.failure = p.failure) : p.CutsTo spec e where
  outcomes := by
    have hlen : (Task.skipped spec).length ≤ p.index := by simpa [Task.skipped] using hi
    rw [ho, List.drop_of_length_le hlen, List.append_nil]
  failure := by rw [hf, if_pos (.inr hi)]
  status := by rw [hs, hf, status]

end Progress

/-! ### Contexts that are left -/

/-- The entry of an environment whose provisioning did not come to an end. -/
structure EnvResult.Unprovisioned (spec : EnvSpec) (failure : String) (e : EnvResult) : Prop where
  status : e.status = .provisionFailed
  outcomes : e.outcomes = Task.skipped spec
  failure : e.failure = some failure

namespace Task

open World (Rehosted)

variable {f : Facilities} {p : Provisioner} {t t' : Task} {w w' : World} {e : EnvResult}

/-- What a task does with its context as it comes to its result. -/
inductive Leaves (p : Provisioner) (t : Task) (w : World) (e : EnvResult) (w' : World) : Prop
  | unbuilt (ht : t.phase = .fresh) (hw : w'.host = w.host)
  /-- The cancellation ends the provisioning: what was built so far goes, and so does the lock. The
  call that was waited for is left to itself. -/
  | cancelled (s : Provisioning) (ht : t.phase = .provisioning s) (hs : s.stage.waits = true)
      (he : e.Unprovisioned t.spec "run cancelled during provisioning")
      (hw : w'.host = if s.stage = .waiting then w.host else w.host.without (p.envDir t.spec.name))
      (hl : w'.locks = Locks.release w.locks s.client)
      (ha : w'.adrift = w.adrift ++ (s.call? p w.host).toList)
  /-- The provisioning failed by itself, and what was built has gone before. -/
  | failed (s : Provisioning) (cause : ProvisionError) (ht : t.phase = .provisioning s)
      (hs : s.stage = .failed cause) (he : e.Unprovisioned t.spec cause.message)
      (hw : w'.host = w.host)
  /-- The context is torn down, unless contexts are kept. -/
  | closed (c : Context) (q : Progress) (ht : t.phase = .closing c q)
      (hw : w'.host = if p.keep then w.host else w.host.without (p.envDir t.spec.name))
      (hl : w'.locks = Locks.release w.locks c.client)
      (ha : w'.adrift = w.adrift)

/-- Only the files, the locks and the calls that are adrift count. -/
theorem Leaves.congr {v v' : World} (h : Leaves p t v e v') (hw : v.SameGround w)
    (hw' : v'.SameGround w') : Leaves p t w e w' := by
  obtain ⟨⟨hhost, hadrift⟩, hlocks⟩ := hw
  obtain ⟨⟨hhost', hadrift'⟩, hlocks'⟩ := hw'
  cases h with
  | unbuilt ht h => exact .unbuilt ht (by rw [hhost', hhost, h])
  | cancelled s ht hs he h hl ha =>
    refine .cancelled s ht hs he ?_ ?_ ?_
    · rw [hhost', hhost, h]
    · rw [hlocks', hlocks, hl]
    · rw [hadrift', hadrift, hhost, ha]
  | failed s cause ht hs he h => exact .failed s cause ht hs he (by rw [hhost', hhost, h])
  | closed c q ht h hl ha =>
    refine .closed c q ht ?_ ?_ ?_
    · rw [hhost', hhost, h]
    · rw [hlocks', hlocks, hl]
    · rw [hadrift', hadrift, ha]

theorem advance_rehosted (t : Task) (w : World) (next : Lifecycle) :
    Rehosted w (t.advance w next).2 w.host := by
  unfold advance
  split <;> exact ⟨rfl, rfl, rfl, rfl⟩

theorem provisionFailed_rehosted (t : Task) (w : World) (failure : String) :
    Rehosted w (t.provisionFailed w failure).2 w.host := by
  have h := advance_rehosted t (w.emit (.provisionFailed t.spec.name failure)) .provisionFailed
  exact ⟨h.host, h.installs, h.locks, h.adrift⟩

theorem provisionFailed_phase (t : Task) (w : World) (failure : String) :
    ∃ e, (t.provisionFailed w failure).1.phase = .finished e ∧ e.Unprovisioned t.spec failure := by
  simp only [provisionFailed, finish, report, advance_fst]
  exact ⟨_, rfl, rfl, rfl, rfl⟩

/-! ### Steps by phase -/

theorem step_of_stepIn (h : t.step f w = .moved t' w') :
    ∃ w₁, t.stepIn f { w.tick with span := some t.spec.name } = .moved t' w₁ ∧
      w' = { w₁ with span := none } := by
  unfold step at h
  split at h
  next t₁ w₁ h₁ =>
    cases h
    exact ⟨w₁, h₁, rfl⟩
  next => cases h

theorem begin_sameFiles (t : Task) (w : World) : w.SameFiles (t.begin w).2 := by
  unfold begin
  split
  · have h := (t.advance_rehosted w .skipped).sameFiles
    exact ⟨h.host, h.adrift⟩
  · split
    · have h₁ := (t.advance_rehosted w .provisioning).sameFiles
      have h₂ (t : Task) (w : World) := (t.advance_rehosted w .running).sameFiles
      have h₃ (t : Task) (w : World) := (t.advance_rehosted w .succeeded).sameFiles
      exact ⟨(h₃ _ _).host.trans ((h₂ _ _).host.trans h₁.host),
        (h₃ _ _).adrift.trans ((h₂ _ _).adrift.trans h₁.adrift)⟩
    · have hstart (w : World) :
          w.SameFiles (Provisioning.start w t.spec.name t.spec.deps).2 := by
        unfold Provisioning.start
        dsimp only
        split <;> exact ⟨rfl, rfl⟩
      exact (t.advance_rehosted w .provisioning).sameFiles.trans (hstart _)

/-- An environment that is not begun is passed over, is through at once, or is provisioned. -/
theorem step_fresh (ht : t.phase = .fresh) (h : t.step f w = .moved t' w') :
    w.tick.cancelled = true ∧ t'.phase = .finished (.unstarted t.spec.name) ∨
      w.tick.cancelled = false ∧ ((∃ e, t'.phase = .finished e ∧ e.outcomes = []) ∨
        t.spec.isNoop = false ∧ ∃ s, t'.phase = .provisioning s) := by
  obtain ⟨w₁, h₁, -⟩ := step_of_stepIn h
  unfold stepIn at h₁
  rw [ht] at h₁
  cases h₁
  unfold begin
  split
  next hc => exact .inl ⟨hc, by simp only [skip, report, advance_fst]⟩
  next hc =>
    have hc : w.tick.cancelled = false := by simpa using hc
    split
    · exact .inr ⟨hc, .inl ⟨_, rfl, rfl⟩⟩
    next hn => exact .inr ⟨hc, .inr ⟨by simpa using hn, _, rfl⟩⟩

theorem step_fresh_host (ht : t.phase = .fresh) (h : t.step f w = .moved t' w') :
    w'.host = w.host := by
  obtain ⟨w₁, h₁, rfl⟩ := step_of_stepIn h
  unfold stepIn at h₁
  rw [ht] at h₁
  cases h₁
  exact (begin_sameFiles t _).host

/-- A task that is being provisioned comes to a result only where the provisioning is ended or has
failed. -/
theorem step_provisioning {s : Provisioning} (ht : t.phase = .provisioning s)
    (hs : s.name = t.spec.name) (h : t.step f w = .moved t' w') (he : t'.phase = .finished e) :
    s.stage.waits = true ∧ e.Unprovisioned t.spec "run cancelled during provisioning" ∧
        w'.host = (if s.stage = .waiting then w.host
          else w.host.without (f.provisioner.envDir t.spec.name)) ∧
        w'.locks = Locks.release w.locks s.client ∧
        w'.adrift = w.adrift ++ (s.call? f.provisioner w.host).toList ∨
      ∃ cause, s.stage = .failed cause ∧ e.Unprovisioned t.spec cause.message ∧
        w'.host = w.host := by
  obtain ⟨w₁, h₁, rfl⟩ := step_of_stepIn h
  unfold stepIn at h₁
  rw [ht] at h₁
  dsimp only at h₁
  unfold stepProvisioning at h₁
  dsimp only at h₁
  split at h₁
  next hc =>
    have hwaits : s.stage.waits = true := (Bool.and_eq_true_iff.1 hc).2
    have hover : ¬ s.isOver := by
      rintro (h | ⟨cause, h⟩) <;> simp [h, Stage.waits] at hwaits
    cases h₁
    obtain ⟨e', he', hu⟩ := t.provisionFailed_phase
      (s.abandon f.provisioner { w.tick with span := some t.spec.name })
      "run cancelled during provisioning"
    obtain rfl : e' = e := by simpa [he'] using he
    have hr := t.provisionFailed_rehosted
      (s.abandon f.provisioner { w.tick with span := some t.spec.name })
      "run cancelled during provisioning"
    obtain ⟨hhost, hlocks, hadrift⟩ := Provisioning.abandon_host f.provisioner
      { w.tick with span := some t.spec.name } s hover
    exact .inl ⟨hwaits, hu, hr.host.trans (by rw [hhost, Provisioning.dir, hs]; rfl),
      hr.locks.trans hlocks, hr.adrift.trans hadrift⟩
  next =>
    split at h₁
    next =>
      cases h₁
      simp [provisioned, advance_fst] at he
    next cause hcause =>
      cases h₁
      obtain ⟨e', he', hu⟩ := t.provisionFailed_phase { w.tick with span := some t.spec.name }
        cause.message
      obtain rfl : e' = e := by simpa [he'] using he
      exact .inr ⟨cause, hcause, hu, (t.provisionFailed_rehosted _ cause.message).host⟩
    next =>
      split at h₁
      next =>
        cases h₁
        cases he
      next => cases h₁

/-- A task that is done with its commands gives up its context. -/
theorem step_closing {c : Context} {q : Progress} (ht : t.phase = .closing c q)
    (hdir : c.dir = p.envDir t.spec.name) (hkeep : c.keep = p.keep)
    (h : t.step f w = .moved t' w') : Leaves p t w e w' := by
  obtain ⟨w₁, h₁, rfl⟩ := step_of_stepIn h
  have hclose (w : World) : (c.teardown w).1.SameGround (t.close w c q).2 := by
    unfold close
    split
    all_goals
      next heq =>
        rw [heq]
        exact ⟨⟨rfl, rfl⟩, rfl⟩
  unfold stepIn at h₁
  rw [ht] at h₁
  cases h₁
  have hc := hclose { w.tick with span := some t.spec.name }
  obtain ⟨hhost, hlocks, hadrift⟩ := c.teardown_host { w.tick with span := some t.spec.name }
  refine .closed c q ht (hc.host.trans (hhost.trans ?_)) (hc.locks.trans hlocks)
    (hc.adrift.trans hadrift)
  rw [hkeep, hdir]
  rfl

theorem skipped_cutsOnce (spec : EnvSpec) : CutsOnce (skipped spec) := by
  refine cutsOnce_of_skipped fun o ho => ?_
  obtain ⟨i, hi, rfl⟩ := List.mem_mapIdx.1 ho
  rfl

/-! ### What every step keeps -/

/-- What holds of a task whatever happened to it so far. -/
def Fits (p : Provisioner) (t : Task) : Prop :=
  match t.phase with
  | .fresh | .aborted => True
  | .provisioning _ => t.spec.isNoop = false
  | .commands c q | .closing c q => c.keep = p.keep ∧ q.Cuts
  | .awaiting c q _ => c.keep = p.keep ∧ q.Cuts ∧ q.stopped = false
  | .finished e => e.name = t.spec.name ∧ CutsOnce e.outcomes

theorem step_fits (hhome : t.IsHome f.provisioner) (ht : t.Fits f.provisioner)
    (h : t.step f w = .moved t' w') : t'.Fits f.provisioner := by
  have hspec := (step_follows h).spec
  have hfresh (hp : t.phase = .fresh) : (∀ s, t'.phase = .provisioning s → t.spec.isNoop = false) ∧
      ∀ e, t'.phase = .finished e → CutsOnce e.outcomes := by
    rcases step_fresh hp h with ⟨-, he⟩ | ⟨-, ⟨e, he, ho⟩ | ⟨hn, s, hs⟩⟩
    · rw [he]
      exact ⟨nofun, fun e heq => by cases heq; exact .nil⟩
    · rw [he]
      exact ⟨nofun, fun e heq => by cases heq; rw [ho]; exact .nil⟩
    · rw [hs]
      exact ⟨fun _ _ => hn, nofun⟩
  have hfail (s : Provisioning) (e : EnvResult) (hp : t.phase = .provisioning s)
      (he : t'.phase = .finished e) : CutsOnce e.outcomes := by
    have hs : s.name = t.spec.name := by rwa [IsHome, hp] at hhome
    rcases step_provisioning hp hs h he with ⟨-, hu, -⟩ | ⟨cause, -, hu, -⟩
    all_goals
      rw [hu.outcomes]
      exact skipped_cutsOnce t.spec
  have hclose (c : Context) (q : Progress) (hp : t.phase = .closing c q) := step_close hp h
  have he := (step_follows h).edge
  unfold Fits at ht ⊢
  rw [hspec]
  generalize t.phase = a at ht he hfresh hfail hclose
  generalize t'.phase = b at he hfresh hfail hclose
  cases he with
  | pass r hr => exact ⟨hr, (hfresh rfl).2 r rfl⟩
  | provision s => exact (hfresh rfl).1 s rfl
  | build => exact ht
  | fail s r hr => exact ⟨hr, hfail s r rfl rfl⟩
  | enter s => exact ⟨rfl, Progress.start_cuts⟩
  | skip c => exact ⟨ht.1, ht.2.skip _⟩
  | halt c => exact ⟨ht.1, ht.2.halt.skip _⟩
  | outcome c hi hs => exact ⟨ht.1, ht.2.record hs _ _⟩
  | launch c q r hi hs => exact ⟨ht.1, ht.2, hs⟩
  | collect c q r => exact ⟨ht.1, ht.2.1.record ht.2.2 _ _⟩
  | abort | abortWaiting => trivial
  | leave => exact ht
  | close c q r hr =>
    obtain ⟨ms, hres⟩ := hclose c q rfl
    cases hres
    exact ⟨rfl, ht.2.once⟩

theorem Course.fits {spec : EnvSpec} {xs : List Scene} (h : Course spec xs t)
    (hx : ∀ x ∈ xs, x.facilities.provisioner = p) : t.Fits p := by
  induction h with
  | start x => trivial
  | step x hcourse hs ih =>
    have hbefore := fun y hy => hx y (List.mem_append_left [x] hy)
    have hlast : x.facilities.provisioner = p := hx x (by simp)
    subst hlast
    exact step_fits (hcourse.isHome hbefore) (ih hbefore) hs

/-- The context of a task that has one. -/
def context? (t : Task) : Option Context :=
  match t.phase with
  | .commands c _ | .awaiting c _ _ | .closing c _ => some c
  | .fresh | .provisioning _ | .finished _ | .aborted => none

/-- A task keeps its context until it is over. -/
theorem step_context {c : Context} (hc : t.context? = some c) (h : t.step f w = .moved t' w') :
    t'.context? = some c ∨ t'.isOver := by
  have he := (step_follows h).edge
  unfold context? at hc ⊢
  unfold isOver
  generalize t.phase = a at hc he
  generalize t'.phase = b at he ⊢
  cases he with
  | pass | provision | build | fail | enter => cases hc
  | skip | halt | outcome | launch | collect | leave => exact .inl hc
  | abort | abortWaiting => exact .inr (.inr rfl)
  | close => exact .inr (.inl ⟨_, rfl⟩)

/-! ### A cancelled run -/

/-- What a task comes to if it has a result, once the run is cancelled: what it has done so far is
all that it does. -/
def WindsUp (t : Task) (e : EnvResult) : Prop :=
  match t.phase with
  | .fresh => e = .unstarted t.spec.name
  | .provisioning _ => e.outcomes = skipped t.spec ∧
    (e.status = .provisionFailed ∨ e.status = .failed ∧ e.failure = some "run cancelled")
  | .commands _ q => q.CutsTo t.spec e
  | .awaiting _ q _ => ∃ o : CommandOutcome, o.index = q.index ∧
    (q.record t.spec.continueOnError o).CutsTo t.spec e
  | .closing _ q => e.status = t.life ∧ e.outcomes = q.outcomes ∧ e.failure = q.failure
  | .finished r => e = r
  | .aborted => False

/-- After a cancellation the commands are passed over, and then the context is closed. -/
theorem step_commands {c : Context} {q : Progress} (ht : t.phase = .commands c q)
    (hc : w.tick.cancelled = true) (h : t.step f w = .moved t' w') :
    t'.phase = .closing c q ∧ t.spec.commands.length ≤ q.index ∨
      ∃ command, t.spec.commands[q.index]? = some command ∧
        (q.stopped = true ∧ t'.phase = .commands c (q.skip command) ∨
          q.stopped = false ∧ t'.phase = .commands c (q.halt.skip command)) := by
  have hproceed (w : World) (hc : w.cancelled = true) :
      (t.proceed f w c q).1.phase = .closing c q ∧ t.spec.commands.length ≤ q.index ∨
        ∃ command, t.spec.commands[q.index]? = some command ∧
          (q.stopped = true ∧ (t.proceed f w c q).1.phase = .commands c (q.skip command) ∨
            q.stopped = false ∧
              (t.proceed f w c q).1.phase = .commands c (q.halt.skip command)) := by
    unfold proceed
    split
    next hn => exact .inl ⟨rfl, List.getElem?_eq_none_iff.1 hn⟩
    next command hcommand =>
      refine .inr ⟨command, hcommand, ?_⟩
      cases hs : q.stopped with
      | true => exact .inl ⟨rfl, rfl⟩
      | false =>
        rw [hc]
        exact .inr ⟨rfl, rfl⟩
  obtain ⟨w₁, h₁, -⟩ := step_of_stepIn h
  unfold stepIn at h₁
  rw [ht] at h₁
  cases h₁
  exact hproceed _ hc

/-- Whether a step sees the cancellation or overlooks it while it waits, it changes nothing about
what the task comes to. -/
theorem step_windsUp (hhome : t.IsHome f.provisioner) (ht : t.Fits f.provisioner)
    (hc : w.tick.cancelled = true ∨ t.races = true) (h : t.step f w = .moved t' w')
    (he : t'.WindsUp e) : t.WindsUp e := by
  have hspec := (step_follows h).spec
  have hcancelled (hr : t.races = false) : w.tick.cancelled = true :=
    hc.resolve_right (by simp [hr])
  cases hp : t.phase with
  | fresh =>
    have hcan := hcancelled (by simp [races, hp])
    rcases step_fresh hp h with ⟨-, hfin⟩ | ⟨hnot, -⟩
    · rw [WindsUp, hfin] at he
      rwa [WindsUp, hp]
    · rw [hnot] at hcan
      cases hcan
  | provisioning s =>
    have hs : s.name = t.spec.name := by rwa [IsHome, hp] at hhome
    have hbusy : 0 < t.spec.commands.length := by
      have hn : t.spec.isNoop = false := by rwa [Fits, hp] at ht
      exact List.length_pos_iff.2 (by simpa [EnvSpec.isNoop] using hn)
    have hfail (r : EnvResult) (hr : t'.phase = .finished r) := step_provisioning hp hs h hr
    have hedge := (step_follows h).edge
    rw [WindsUp, hp]
    rw [hp] at hedge
    rw [WindsUp, hspec] at he
    generalize t'.phase = b at hedge he hfail
    cases hedge with
    | build => exact he
    | fail s r =>
      cases he
      rcases hfail e rfl with ⟨-, hu, -⟩ | ⟨cause, -, hu, -⟩
      all_goals exact ⟨hu.outcomes, .inl hu.status⟩
    | enter s =>
      have hfailure : e.failure = some "run cancelled" := by
        rw [he.failure, if_neg fun h => h.elim nofun (Nat.not_le.2 hbusy)]
        rfl
      exact ⟨he.outcomes, .inr ⟨by rw [he.status, hfailure]; rfl, hfailure⟩⟩
  | commands c q =>
    have hcan := hcancelled (by simp [races, hp])
    rw [WindsUp, hp]
    rcases step_commands hp hcan h with ⟨hq, hi⟩ | ⟨command, hcommand, ⟨hs, hq⟩ | ⟨hs, hq⟩⟩
    · rw [WindsUp, hq] at he
      exact Progress.cutsTo_of_done hi (he.1.trans (step_leave hp hi h)) he.2.1 he.2.2
    · rw [WindsUp, hq, hspec] at he
      exact he.of_skip hs hcommand
    · rw [WindsUp, hq, hspec] at he
      exact he.of_halt hs hcommand
  | awaiting c q r =>
    have hedge := (step_follows h).edge
    rw [WindsUp, hp]
    rw [hp] at hedge
    rw [WindsUp, hspec] at he
    generalize t'.phase = b at hedge he
    cases hedge with
    | collect c q r ho => exact ⟨_, ho.index, he⟩
    | abortWaiting => exact he.elim
  | closing c q =>
    obtain ⟨ms, hr⟩ := step_close hp h
    rw [WindsUp, hr] at he
    subst he
    rw [WindsUp, hp]
    exact ⟨rfl, rfl, rfl⟩
  | finished r => exact absurd (.inl ⟨r, hp⟩) (not_isOver_of_step h)
  | aborted => exact absurd (.inr hp) (not_isOver_of_step h)

/-- A step to a result leaves the context. -/
theorem step_leaves (hhome : t.IsHome f.provisioner) (ht : t.Fits f.provisioner)
    (h : t.step f w = .moved t' w') (he : t'.phase = .finished e) :
    Leaves f.provisioner t w e w' := by
  have hedge := (step_follows h).edge
  rw [he] at hedge
  cases hp : t.phase with
  | fresh => exact .unbuilt hp (step_fresh_host hp h)
  | provisioning s =>
    rw [IsHome, hp] at hhome
    rcases step_provisioning hp hhome h he with ⟨hs, hu, hw, hl, ha⟩ | ⟨cause, hs, hu, hw⟩
    · exact .cancelled s hp hs hu hw hl ha
    · exact .failed s cause hp hs hu hw
  | closing c q =>
    rw [IsHome, hp] at hhome
    rw [Fits, hp] at ht
    exact step_closing hp hhome.2 ht.1 h
  | commands | awaiting | finished | aborted =>
    rw [hp] at hedge
    cases hedge

end Task

end Testbed
