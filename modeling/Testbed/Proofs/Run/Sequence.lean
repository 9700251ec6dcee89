import Mathlib.Data.List.Induction
import Testbed.Proofs.Run.Turn

/-! What comes of the commands of one environment. Those that had their turn come first and the
others are passed over; the first stop short of the list only behind an outcome that stops the
environment or where the cancellation was seen. The failure is that of the first outcome that is
neither a success nor passed over. All this is kept by every step, so it holds of the result, and
where programs end and time passes there is a result. -/
namespace Testbed

/-! ### Outcomes -/

/-- It had its turn and did not pass. -/
def CommandOutcome.isFault (o : CommandOutcome) : Bool := !o.isPassed && !o.isSkipped

theorem CommandOutcome.isSkipped_of_isPassed {o : CommandOutcome} (h : o.isPassed = true) :
    o.isSkipped = false := by
  have hs : o.status = .passed := by simpa [isPassed] using h
  simp [isSkipped, hs]

/-- What each outcome is at its place, one more at the end may be at its own. -/
theorem CommandOutcome.forall_concat {P : Nat → CommandOutcome → Prop}
    {outcomes : List CommandOutcome} {last : CommandOutcome}
    (h : ∀ (i : Nat) (o : CommandOutcome), outcomes[i]? = some o → P i o)
    (hlast : P outcomes.length last) (i : Nat) (o : CommandOutcome)
    (hi : (outcomes ++ [last])[i]? = some o) : P i o := by
  rw [List.getElem?_append] at hi
  split at hi
  next => exact h i o hi
  next hge =>
    rw [List.getElem?_singleton] at hi
    split at hi
    next hzero =>
      cases hi
      have hi : i = outcomes.length := by omega
      rwa [hi]
    next => cases hi

namespace Progress

/-- The failure that outcomes come to. -/
def verdict (outcomes : List CommandOutcome) : Option String :=
  match outcomes.find? CommandOutcome.isFault with
  | some o => some o.failureText
  | none => if outcomes.any CommandOutcome.isSkipped then some "run cancelled" else none

theorem verdict_eq_none_iff {outcomes : List CommandOutcome} :
    verdict outcomes = none ↔ ∀ o ∈ outcomes, o.isPassed = true := by
  unfold verdict
  split
  next o h =>
    refine iff_of_false nofun fun hall => ?_
    have hfault := List.find?_some h
    simp [CommandOutcome.isFault, hall o (List.mem_of_find?_eq_some h)] at hfault
  next h =>
    have hnone : ∀ o ∈ outcomes, o.isPassed = false → o.isSkipped = true := by
      simpa [CommandOutcome.isFault] using h
    constructor
    · intro hv o ho
      by_contra hp
      have hp : o.isPassed = false := by simpa using hp
      rw [if_pos (List.any_eq_true.2 ⟨o, ho, hnone o ho hp⟩)] at hv
      cases hv
    · intro hall
      have hany : outcomes.any CommandOutcome.isSkipped = false :=
        List.any_eq_false.2 fun o ho =>
          by simp [CommandOutcome.isSkipped_of_isPassed (hall o ho)]
      rw [hany, if_neg Bool.false_ne_true]

/-- Behind those that had their turn, what is passed over changes the verdict only when there is
none yet. -/
theorem verdict_concat_skipped (outcomes : List CommandOutcome) {o : CommandOutcome}
    (ho : o.isSkipped = true) :
    verdict (outcomes ++ [o]) = some ((verdict outcomes).getD "run cancelled") := by
  have hfault : o.isFault = false := by simp [CommandOutcome.isFault, ho]
  unfold verdict
  rw [List.find?_append]
  cases hf : outcomes.find? CommandOutcome.isFault with
  | some o' => rfl
  | none =>
    simp only [List.find?_singleton, hfault, Bool.false_eq_true, if_false, Option.or_none,
      List.any_append, List.any_cons, ho, Bool.true_or, Bool.or_true, if_true]
    split <;> rfl

theorem verdict_concat {outcomes : List CommandOutcome} {o : CommandOutcome}
    (hall : ∀ o' ∈ outcomes, o'.isSkipped = false) (ho : o.isSkipped = false) :
    verdict (outcomes ++ [o]) =
      if o.isPassed then verdict outcomes else some ((verdict outcomes).getD o.failureText) := by
  have hany : outcomes.any CommandOutcome.isSkipped = false := by simpa using hall
  unfold verdict
  rw [List.find?_append]
  cases hf : outcomes.find? CommandOutcome.isFault with
  | some o' =>
    rw [Option.some_or]
    cases o.isPassed <;> rfl
  | none =>
    cases hp : o.isPassed <;>
      simp [CommandOutcome.isFault, hp, ho, hany]

/-! ### What every step keeps -/

/-- The outcomes in two parts: of the commands that had their turn, and of those passed over. `cut`
says before which commands the cancellation was seen. -/
structure Splits (spec : EnvSpec) (cut : Nat → Prop) (p : Progress)
    (ran waived : List CommandOutcome) : Prop where
  outcomes : p.outcomes = ran ++ waived
  tried : ∀ o ∈ ran, o.isSkipped = false
  skipped : ∀ o ∈ waived, o.isSkipped = true
  early : ∀ o ∈ ran.dropLast, stopsAfter spec.continueOnError o = false
  going : p.stopped = false → waived = [] ∧ ∀ o ∈ ran, stopsAfter spec.continueOnError o = false
  stopped : p.stopped = true →
    (∃ o, ran.getLast? = some o ∧ stopsAfter spec.continueOnError o = true) ∨
      cut ran.length ∧ waived ≠ []

/-- Every outcome has the index of its place. -/
def Indexed (outcomes : List CommandOutcome) : Prop :=
  ∀ (i : Nat) (o : CommandOutcome), outcomes[i]? = some o → o.index = i

/-- What the commands have come to so far. -/
structure Orderly (spec : EnvSpec) (cut : Nat → Prop) (p : Progress) : Prop where
  splits : ∃ ran waived, Splits spec cut p ran waived
  count : p.index ≤ spec.commands.length
  indexed : Indexed p.outcomes
  failure : p.failure = verdict p.outcomes

variable {spec : EnvSpec} {cut cut' : Nat → Prop} {p : Progress}

theorem start_orderly (spec : EnvSpec) (cut : Nat → Prop) : Orderly spec cut .start where
  splits := ⟨[], [], rfl, nofun, nofun, nofun, fun _ => ⟨rfl, nofun⟩, nofun⟩
  count := Nat.zero_le _
  indexed := fun i o h => by simp [start] at h
  failure := rfl

theorem Orderly.mono (h : Orderly spec cut p) (hc : ∀ n, cut n → cut' n) : Orderly spec cut' p := by
  obtain ⟨⟨ran, waived, hs⟩, hcount, hindexed, hfailure⟩ := h
  have hstopped (h : p.stopped = true) := (hs.stopped h).imp_right (And.imp_left (hc ran.length))
  exact ⟨⟨ran, waived, { hs with stopped := hstopped }⟩, hcount, hindexed, hfailure⟩

theorem indexed_concat (h : Indexed p.outcomes) {o : CommandOutcome} (ho : o.index = p.index) :
    Indexed (p.outcomes ++ [o]) := CommandOutcome.forall_concat h ho

/-- Where a stopped environment has no fault, something was passed over. -/
theorem Splits.exists_verdict {ran waived : List CommandOutcome} (h : Splits spec cut p ran waived)
    (hs : p.stopped = true) : ∃ reason, verdict p.outcomes = some reason := by
  refine Option.ne_none_iff_exists'.1 fun hnone => ?_
  have hall := verdict_eq_none_iff.1 hnone
  rcases h.stopped hs with ⟨o, ho, hstops⟩ | ⟨-, hne⟩
  · have hpassed := hall o (by simp [h.outcomes, List.mem_of_getLast? ho])
    simp [stopsAfter, hpassed] at hstops
  · obtain ⟨o, ho⟩ := List.exists_mem_of_ne_nil _ hne
    have hskipped := CommandOutcome.isSkipped_of_isPassed (hall o (by simp [h.outcomes, ho]))
    rw [h.skipped o ho] at hskipped
    cases hskipped

theorem Orderly.skip (h : Orderly spec cut p) (hs : p.stopped = true) {command : Command}
    (hc : spec.commands[p.index]? = some command) : Orderly spec cut (p.skip command) := by
  obtain ⟨⟨ran, waived, hsplits⟩, hcount, hindexed, hfailure⟩ := h
  have hskipped : (CommandOutcome.skipped p.index command.display).isSkipped = true := rfl
  refine ⟨⟨ran, waived ++ [.skipped p.index command.display], ?_, hsplits.tried, ?_, hsplits.early,
    ?_, fun _ => ?_⟩, ?_, indexed_concat hindexed rfl, ?_⟩
  · simp [Progress.skip, hsplits.outcomes]
  · rw [List.forall_mem_append]
    exact ⟨hsplits.skipped, by simpa using hskipped⟩
  · intro hgoing
    rw [Progress.skip, hs] at hgoing
    cases hgoing
  · exact (hsplits.stopped hs).imp_right fun h => ⟨h.1, by simp⟩
  · rw [skip_index]
    exact (List.getElem?_eq_some_iff.1 hc).1
  · obtain ⟨reason, hreason⟩ := hsplits.exists_verdict hs
    rw [Progress.skip, verdict_concat_skipped _ hskipped, hreason, hfailure, hreason]
    rfl

theorem Orderly.halt (h : Orderly spec cut p) (hs : p.stopped = false) {command : Command}
    (hc : spec.commands[p.index]? = some command) (hcut : cut p.index) :
    Orderly spec cut (p.halt.skip command) := by
  obtain ⟨⟨ran, waived, hsplits⟩, hcount, hindexed, hfailure⟩ := h
  have hskipped : (CommandOutcome.skipped p.index command.display).isSkipped = true := rfl
  obtain ⟨rfl, -⟩ := hsplits.going hs
  have hran : p.outcomes = ran := by rw [hsplits.outcomes, List.append_nil]
  refine ⟨⟨ran, [.skipped p.index command.display], ?_, hsplits.tried, by simpa using hskipped,
    hsplits.early, nofun, fun _ => .inr ⟨?_, by simp⟩⟩, ?_, indexed_concat hindexed rfl, ?_⟩
  · rw [← hran]
    rfl
  · rwa [← hran]
  · rw [skip_index]
    exact (List.getElem?_eq_some_iff.1 hc).1
  · have := verdict_concat_skipped p.outcomes hskipped
    simp only [Progress.skip, Progress.halt, fail, index]
    rw [hfailure]
    exact this.symm

theorem Orderly.record (h : Orderly spec cut p) (hs : p.stopped = false)
    (hi : p.index < spec.commands.length) {o : CommandOutcome} (hindex : o.index = p.index)
    (ho : o.isSkipped = false) : Orderly spec cut (p.record spec.continueOnError o) := by
  obtain ⟨⟨ran, waived, hsplits⟩, hcount, hindexed, hfailure⟩ := h
  obtain ⟨rfl, hgoing⟩ := hsplits.going hs
  have hran : p.outcomes = ran := by rw [hsplits.outcomes, List.append_nil]
  have houtcomes : (p.record spec.continueOnError o).outcomes = ran ++ [o] := by
    simp only [Progress.record]
    split <;> simp [fail, hran]
  have hstopped : (p.record spec.continueOnError o).stopped =
      stopsAfter spec.continueOnError o := by
    simp only [Progress.record]
    split <;> simp [fail, hs]
  refine ⟨⟨ran ++ [o], [], ?_, ?_, List.forall_mem_nil _, ?_, fun hgo => ⟨rfl, ?_⟩,
    fun hstop => .inl ⟨o, ?_, ?_⟩⟩, ?_, ?_, ?_⟩
  · rw [houtcomes, List.append_nil]
  · rw [List.forall_mem_append]
    exact ⟨hsplits.tried, by simpa using ho⟩
  · rw [List.dropLast_concat]
    exact hgoing
  · rw [List.forall_mem_append]
    exact ⟨hgoing, by simpa [hstopped] using hgo⟩
  · simp
  · rwa [hstopped] at hstop
  · rw [record_index]
    exact hi
  · rw [houtcomes, ← hran]
    exact indexed_concat hindexed hindex
  · rw [houtcomes, verdict_concat hsplits.tried ho, ← hran, ← hfailure]
    simp only [Progress.record]
    split <;> rfl

end Progress

/-! ### A task along scenes -/

/-- A program that ends has run: it passed or failed, or was killed at its time limit or by the
cancellation. -/
def Facilities.Concludes (f : Facilities) : Prop :=
  ∀ (external : Bool) (h : Host) (i : Invocation) (cutAt : Option Nat) (e : ExitOutcome),
    ((Task.executableFor f external).run h i cutAt).ending = .exited e →
      e.status = .passed ∨ e.status = .failed ∨ e.status = .timedOut ∨ e.status = .cancelled

theorem CommandOutcome.Arises.isSkipped {f : Facilities} {p : Progress} {o : CommandOutcome}
    (hf : f.Concludes) (h : o.Arises f p) : o.isSkipped = false := by
  have hne : o.status ≠ .skipped := by
    rcases h.status with hs | ⟨external, h, i, cutAt, e, he, hs⟩
    · simp [hs]
    · rw [hs]
      rcases hf external h i cutAt e he with h | h | h | h <;> simp [h]
  simpa [CommandOutcome.isSkipped] using hne

namespace Task

variable {f : Facilities} {t t' : Task} {w w' : World} {c : Context} {p : Progress}

/-- The task after it was looked at. -/
def look (t : Task) (x : Scene) : Task :=
  match t.step x.facilities x.world with
  | .moved t' _ => t'
  | .blocked _ => t

/-- The task after it was looked at in each of the scenes. -/
def along (t : Task) (xs : List Scene) : Task := xs.foldl look t

theorem look_cases (t : Task) (x : Scene) :
    t.look x = t ∨ ∃ w', t.step x.facilities x.world = .moved (t.look x) w' := by
  unfold look
  split
  next t' w' h => exact .inr ⟨w', h⟩
  next => exact .inl rfl

theorem along_concat (t : Task) (xs : List Scene) (x : Scene) :
    t.along (xs ++ [x]) = (t.along xs).look x := by
  simp [along]

theorem along_spec (t : Task) (xs : List Scene) : (t.along xs).spec = t.spec := by
  induction xs using List.reverseRecOn with
  | nil => rfl
  | append_singleton xs x ih =>
    rw [along_concat]
    rcases (t.along xs).look_cases x with h | ⟨w', h⟩
    · rw [h, ih]
    · rw [(step_follows h).spec, ih]

/-- In one of the scenes the cancellation was seen before the command of that index. -/
def Cut (t : Task) (xs : List Scene) (n : Nat) : Prop :=
  ∃ ys x zs c p, xs = ys ++ x :: zs ∧ (t.along ys).phase = .commands c p ∧ p.index = n ∧
    p.stopped = false ∧ x.world.tick.cancelled = true

theorem Cut.mono {xs : List Scene} {n : Nat} (h : t.Cut xs n) (x : Scene) :
    t.Cut (xs ++ [x]) n := by
  obtain ⟨ys, y, zs, c, p, rfl, h⟩ := h
  exact ⟨ys, y, zs ++ [x], c, p, by simp, h⟩

/-! ### What every step keeps -/

/-- What a task that has come to its commands keeps to. -/
def Orderly (cut : Nat → Prop) (t : Task) : Prop :=
  match t.phase with
  | .commands _ p => p.Orderly t.spec cut
  | .awaiting _ p _ => p.Orderly t.spec cut ∧ p.stopped = false ∧ p.index < t.spec.commands.length
  | .closing _ p =>
    p.Orderly t.spec cut ∧ t.spec.commands.length ≤ p.index ∧ t.life = p.status
  | .finished r => ∃ p : Progress, p.Orderly t.spec cut ∧ t.spec.commands.length ≤ p.index ∧
    r.status = p.status ∧ r.outcomes = p.outcomes ∧ r.failure = p.failure
  | .aborted => True
  | .fresh | .provisioning _ => False

theorem Orderly.mono {cut cut' : Nat → Prop} (h : t.Orderly cut) (hc : ∀ n, cut n → cut' n) :
    t.Orderly cut' := by
  unfold Orderly at h ⊢
  split at h
  next ht => exact h.mono hc
  next ht => exact ⟨h.1.mono hc, h.2⟩
  next ht => exact ⟨h.1.mono hc, h.2⟩
  next ht =>
    obtain ⟨p, hp, h⟩ := h
    exact ⟨p, hp.mono hc, h⟩
  all_goals exact h

theorem step_close (ht : t.phase = .closing c p) (h : t.step f w = .moved t' w') :
    ∃ ms, t'.phase = .finished ⟨t.spec.name, t.life, p.outcomes, p.failure, ms⟩ := by
  have hclose (w : World) : ∃ ms, (t.close w c p).1.phase =
      .finished ⟨t.spec.name, t.life, p.outcomes, p.failure, ms⟩ := by
    unfold close
    split <;> exact ⟨_, rfl⟩
  unfold step stepIn at h
  rw [ht] at h
  cases h
  exact hclose _

theorem step_leave (ht : t.phase = .commands c p) (hi : t.spec.commands.length ≤ p.index)
    (h : t.step f w = .moved t' w') : t'.life = p.status := by
  have hproceed (w : World) : (t.proceed f w c p).1.life = p.status := by
    unfold proceed
    rw [List.getElem?_eq_none hi]
    simp only [advance_fst]
  unfold step stepIn at h
  rw [ht] at h
  cases h
  exact hproceed _

theorem step_orderly {cut : Nat → Prop} (hf : f.Concludes) (ht : t.Orderly cut)
    (hcut : ∀ c p, t.phase = .commands c p → p.stopped = false → w.tick.cancelled = true →
      cut p.index) (h : t.step f w = .moved t' w') : t'.Orderly cut := by
  have hleave (c : Context) (p : Progress) (hp : t.phase = .commands c p)
      (hi : t.spec.commands.length ≤ p.index) : t'.life = p.status := step_leave hp hi h
  have hclose (c : Context) (p : Progress) (hp : t.phase = .closing c p) := step_close hp h
  obtain ⟨hspec, -, he⟩ := step_follows h
  unfold Orderly at ht ⊢
  rw [hspec]
  generalize t.phase = a at ht he hcut hleave hclose
  generalize t'.phase = b at he hclose
  cases he with
  | pass | provision | build | fail | enter => exact ht.elim
  | skip c hc hs => exact ht.skip hs hc
  | halt c hc hs hx => exact ht.halt hs hc (hcut _ _ rfl hs hx)
  | outcome c hi hs ho => exact ht.record hs hi ho.index (ho.isSkipped hf)
  | launch c p r hi hs => exact ⟨ht, hs, hi⟩
  | collect c p r ho =>
    obtain ⟨hp, hs, hi⟩ := ht
    exact hp.record hs hi ho.index (ho.isSkipped hf)
  | abort | abortWaiting => trivial
  | leave c p hi => exact ⟨ht, hi, hleave c p rfl hi⟩
  | close c p r =>
    obtain ⟨hp, hi, hlife⟩ := ht
    obtain ⟨ms, hr⟩ := hclose c p rfl
    cases hr
    exact ⟨p, hp, hi, hlife, rfl, rfl⟩

theorem along_orderly (ht : t.phase = .commands c .start) {xs : List Scene}
    (hx : ∀ x ∈ xs, x.facilities.Concludes) : (t.along xs).Orderly (t.Cut xs) := by
  induction xs using List.reverseRecOn with
  | nil =>
    unfold Orderly
    rw [along, List.foldl_nil, ht]
    exact Progress.start_orderly t.spec _
  | append_singleton xs x ih =>
    have hbefore := (ih fun y hy => hx y (by simp [hy])).mono fun n hn => hn.mono x
    rw [along_concat]
    rcases (t.along xs).look_cases x with h | ⟨w', h⟩
    · rwa [h]
    · refine step_orderly (hx x (by simp)) hbefore (fun c p hp hs hcancelled => ?_) h
      exact ⟨xs, x, [], c, p, rfl, hp, rfl, hs, hcancelled⟩

end Task

/-! ### The result -/

/-- The result of an environment whose commands had their turn one after the other, up to a point:
`ran` are the outcomes of those, `waived` those of the others, and `cut` says before which commands
the cancellation was seen. -/
structure EnvResult.Sequenced (spec : EnvSpec) (cut : Nat → Prop) (r : EnvResult)
    (ran waived : List CommandOutcome) : Prop where
  outcomes : r.outcomes = ran ++ waived
  length : r.outcomes.length = spec.commands.length
  index : ∀ (i : Nat) (o : CommandOutcome), r.outcomes[i]? = some o → o.index = i
  tried : ∀ o ∈ ran, o.status ≠ .skipped
  skipped : ∀ o ∈ waived, o.status = .skipped
  early : ∀ o ∈ ran.dropLast,
    o.status = .passed ∨ spec.continueOnError = true ∧ o.status ≠ .cancelled
  short : waived ≠ [] → cut ran.length ∨ ∃ o, ran.getLast? = some o ∧ o.status ≠ .passed ∧
    (spec.continueOnError = true → o.status = .cancelled)
  status : r.status = .succeeded ∨ r.status = .failed
  succeeded : r.status = .succeeded ↔ ∀ o ∈ r.outcomes, o.status = .passed
  failure : r.failure = none ↔ r.status = .succeeded
  reason : r.status ≠ .succeeded → r.failure =
    some ((r.outcomes.find? CommandOutcome.isFault).elim "run cancelled" CommandOutcome.failureText)

namespace Progress

theorem stopsAfter_iff {continueOnError : Bool} {o : CommandOutcome} :
    stopsAfter continueOnError o = true ↔
      o.status ≠ .passed ∧ (continueOnError = true → o.status = .cancelled) := by
  unfold stopsAfter CommandOutcome.isPassed
  generalize o.status = status
  cases continueOnError <;> cases status <;> decide

theorem stopsAfter_eq_false_iff {continueOnError : Bool} {o : CommandOutcome} :
    stopsAfter continueOnError o = false ↔
      o.status = .passed ∨ continueOnError = true ∧ o.status ≠ .cancelled := by
  rw [← Bool.not_eq_true, stopsAfter_iff]
  grind

theorem status_eq_succeeded_iff (p : Progress) : p.status = .succeeded ↔ p.failure = none := by
  unfold status
  cases p.failure <;> simp

theorem verdict_eq_some {outcomes : List CommandOutcome} (h : verdict outcomes ≠ none) :
    verdict outcomes = some ((outcomes.find? CommandOutcome.isFault).elim "run cancelled"
      CommandOutcome.failureText) := by
  unfold verdict at h ⊢
  split
  next o ho => rw [ho, Option.elim_some]
  next hnone =>
    rw [hnone] at h ⊢
    dsimp only at h
    split
    · rfl
    next hany => simp [hany] at h

theorem Orderly.sequenced {spec : EnvSpec} {cut : Nat → Prop} {p : Progress} {r : EnvResult}
    (h : p.Orderly spec cut) (hi : spec.commands.length ≤ p.index) (hs : r.status = p.status)
    (ho : r.outcomes = p.outcomes) (hf : r.failure = p.failure) :
    ∃ ran waived, r.Sequenced spec cut ran waived := by
  obtain ⟨⟨ran, waived, hsplits⟩, hcount, hindexed, hfailure⟩ := h
  have hsucceeded : r.status = .succeeded ↔ r.failure = none := by
    rw [hs, hf, status_eq_succeeded_iff]
  have hverdict : r.failure = verdict r.outcomes := by rw [hf, hfailure, ho]
  refine ⟨ran, waived, ho ▸ hsplits.outcomes, ?_, ho ▸ hindexed, ?_, ?_, ?_, fun hne => ?_, ?_, ?_,
    hsucceeded.symm, fun hnot => ?_⟩
  · rw [ho]
    exact Nat.le_antisymm hcount hi
  · exact fun o hmem => by simpa [CommandOutcome.isSkipped] using hsplits.tried o hmem
  · exact fun o hmem => by simpa [CommandOutcome.isSkipped] using hsplits.skipped o hmem
  · exact fun o hmem => stopsAfter_eq_false_iff.1 (hsplits.early o hmem)
  · have hstopped : p.stopped = true := by
      by_contra hgoing
      exact hne (hsplits.going (by simpa using hgoing)).1
    rcases hsplits.stopped hstopped with ⟨o, hlast, hstops⟩ | ⟨hcut, -⟩
    · exact .inr ⟨o, hlast, stopsAfter_iff.1 hstops⟩
    · exact .inl hcut
  · rw [hs]
    unfold Progress.status
    split <;> simp
  · rw [hsucceeded, hverdict, verdict_eq_none_iff]
    simp [CommandOutcome.isPassed]
  · rw [hverdict]
    exact verdict_eq_some fun hnone => hnot (hsucceeded.2 (hverdict.trans hnone))

end Progress

namespace Task

variable {t : Task} {c : Context}

theorem along_sequenced (ht : t.phase = .commands c .start) {xs : List Scene}
    (hx : ∀ x ∈ xs, x.facilities.Concludes) {r : EnvResult}
    (hr : (t.along xs).phase = .finished r) :
    ∃ ran waived, r.Sequenced t.spec (t.Cut xs) ran waived := by
  have horderly := along_orderly ht hx
  unfold Orderly at horderly
  rw [hr, along_spec] at horderly
  obtain ⟨p, hp, hi, hs, ho, hf⟩ := horderly
  exact hp.sequenced hi hs ho hf

/-! ### That there is one -/

/-- A task that has come to its commands, and waits for nothing but its moment. -/
def Prompt (t : Task) : Prop :=
  match t.phase with
  | .commands .. | .closing .. | .finished _ => True
  | .awaiting _ _ r => r.until? ≠ none
  | .fresh | .provisioning _ | .aborted => False

theorem step_prompt {f : Facilities} {t' : Task} {w w' : World} (hf : f.Steady) (hb : f.Brisk)
    (ht : t.Prompt) (h : t.step f w = .moved t' w') : t'.Prompt := by
  have he := (step_follows h).edge
  unfold Prompt at ht ⊢
  generalize t.phase = a at ht he
  generalize t'.phase = b at he
  cases he with
  | pass | provision | build | fail | enter => exact ht.elim
  | skip | halt | outcome | collect | leave | close => trivial
  | launch c p r hi hs hu => exact fun hnone => hu hnone hb
  | abort _ _ hnot => exact hnot hf
  | abortWaiting _ _ _ hnot => exact hnot hf

theorem Prompt.exists_step {x : Scene} (ht : t.Prompt) (ho : ∀ r, t.phase ≠ .finished r)
    (hm : t.moment ≤ x.world.clock) : ∃ t' w', t.step x.facilities x.world = .moved t' w' := by
  refine Task.exists_step x.facilities ?_ (.inr ?_) hm
  · rintro (⟨r, hr⟩ | hr)
    · exact ho r hr
    · rw [Prompt, hr] at ht
      exact ht
  · unfold Hangs
    unfold Prompt at ht
    split at ht <;> simp_all

/-- Every program ends by itself, kills nobody, and time goes on. -/
structure Flows (σ : Nat → Scene) : Prop where
  steady : ∀ n, (σ n).facilities.Steady
  brisk : ∀ n, (σ n).facilities.Brisk
  time : ∀ moment, ∃ n, ∀ k ≥ n, moment ≤ (σ k).world.clock

theorem exists_along_finished {σ : Nat → Scene} (hσ : Flows σ) (t : Task) (ht : t.Prompt)
    (n : Nat) : ∃ k r, (t.along ((List.range' n k).map σ)).phase = .finished r := by
  induction hleft : t.left using Nat.strongRecOn generalizing t n with
  | ind left ih =>
    subst hleft
    by_cases ho : ∃ r, t.phase = .finished r
    · obtain ⟨r, hr⟩ := ho
      exact ⟨0, r, hr⟩
    have ho : ∀ r, t.phase ≠ .finished r := fun r hr => ho ⟨r, hr⟩
    have hmoved {n : Nat} {t' : Task} {w' : World}
        (h : t.step (σ n).facilities (σ n).world = .moved t' w') :
        ∃ k r, (t.along ((List.range' n k).map σ)).phase = .finished r := by
      have hlook : t.look (σ n) = t' := by rw [look, h]
      obtain ⟨k, r, hr⟩ := ih t'.left (step_left_lt h) t'
        (step_prompt (hσ.steady n) (hσ.brisk n) ht h) (n + 1) rfl
      refine ⟨k + 1, r, ?_⟩
      rw [List.range'_succ, List.map_cons, along, List.foldl_cons, hlook]
      exact hr
    obtain ⟨soon, hsoon⟩ := hσ.time t.moment
    -- the scenes before its moment are passed over
    have hwait (d : Nat) : ∀ n, soon ≤ n + d →
        ∃ k r, (t.along ((List.range' n k).map σ)).phase = .finished r := by
      induction d with
      | zero =>
        intro n hn
        obtain ⟨t', w', h⟩ := ht.exists_step ho (hsoon n hn)
        exact hmoved h
      | succ d ihd =>
        intro n hn
        rcases t.look_cases (σ n) with h | ⟨w', h⟩
        · obtain ⟨k, r, hr⟩ := ihd (n + 1) (by omega)
          refine ⟨k + 1, r, ?_⟩
          rw [List.range'_succ, List.map_cons, along, List.foldl_cons, h]
          exact hr
        · exact hmoved h
    exact hwait soon n (Nat.le_add_left ..)

theorem exists_finished_of_start {σ : Nat → Scene} (hσ : Flows σ)
    (ht : t.phase = .commands c .start) :
    ∃ n r, (t.along ((List.range n).map σ)).phase = .finished r := by
  have hprompt : t.Prompt := by
    rw [Prompt, ht]
    trivial
  obtain ⟨n, r, hr⟩ := exists_along_finished hσ t hprompt 0
  exact ⟨n, r, by rwa [List.range_eq_range']⟩

/-- A task that begins with its commands has them one after the other: whatever their programs do
and whenever the run is cancelled, its result is in sequence, and when every program ends there is
a result. -/
theorem commands_in_sequence (ht : t.phase = .commands c .start) :
    (∀ xs : List Scene, (∀ x ∈ xs, x.facilities.Concludes) → ∀ r,
      (t.along xs).phase = .finished r → ∃ ran waived, r.Sequenced t.spec (t.Cut xs) ran waived) ∧
    ∀ σ : Nat → Scene, Flows σ → ∃ n r, (t.along ((List.range n).map σ)).phase = .finished r := by
  exact ⟨fun xs hx r hr => along_sequenced ht hx hr, fun σ hσ => exists_finished_of_start hσ ht⟩

/-- Every program is found and fails at once. -/
def failing : Facilities :=
  let fails : Executable := ⟨fun _ _ program => .ok ⟨program⟩,
    fun h _ _ => ⟨h.tree, [], false, .none, .exited ⟨.failed, some 1, "", "", 0⟩⟩⟩
  ⟨⟨⟨".envrun"⟩, ⟨""⟩, true, [0]⟩, fun h _ _ => ⟨h.tree, [], false, .none, .exited 0 ""⟩, fails,
    fails, []⟩

/-- Two commands, in a context that is kept. -/
def twoCommands : Task :=
  ⟨⟨"a", none, [], [.ofArgv ["x"], .ofArgv ["y"]], [], [], none, false, 0⟩, .running, 0,
    .commands ⟨"a", ⟨".envrun/a"⟩, ⟨""⟩, true, ⟨"a", "", [], .epoch⟩, ⟨"a", 0, true⟩⟩ .start⟩

/-- The first command fails, the second is passed over. -/
theorem commands_in_sequence_failing :
    let xs : List Scene := List.replicate 4 ⟨failing, World.start default⟩
    let σ : Nat → Scene := fun n => ⟨failing, { World.start default with clock := n }⟩
    ∃ r ran waived, (twoCommands.along xs).phase = .finished r ∧
      r.Sequenced twoCommands.spec (twoCommands.Cut xs) ran waived ∧
      r.outcomes.map CommandOutcome.status = [.failed, .skipped] ∧
      r.failure = some "\x60x\x60 exited with code 1" ∧
      ∃ n r, (twoCommands.along ((List.range n).map σ)).phase = .finished r := by
  intro xs σ
  have hphase : ∃ c, twoCommands.phase = .commands c .start := ⟨_, rfl⟩
  obtain ⟨c, hc⟩ := hphase
  obtain ⟨hsequenced, hends⟩ := commands_in_sequence hc
  have hconcludes : ∀ x ∈ xs, x.facilities.Concludes := by
    intro x hx external h i cutAt e he
    obtain rfl := List.eq_of_mem_replicate hx
    cases external <;> cases he <;> exact .inr (.inl rfl)
  have hflows : Flows σ := by
    refine ⟨fun n external h i cutAt => ?_, fun n external h i cutAt => ?_,
      fun moment => ⟨moment, fun k hk => hk⟩⟩
    all_goals cases external <;> nofun
  have hphase : ∃ r, (twoCommands.along xs).phase = .finished r ∧
      r.outcomes.map CommandOutcome.status = [.failed, .skipped] ∧
      r.failure = some "\x60x\x60 exited with code 1" := ⟨_, rfl, rfl, by decide⟩
  obtain ⟨r, hr, hstatus, hfailure⟩ := hphase
  obtain ⟨ran, waived, hseq⟩ := hsequenced xs hconcludes r hr
  exact ⟨r, ran, waived, hr, hseq, hstatus, hfailure, hends σ hflows⟩

end Task

end Testbed
