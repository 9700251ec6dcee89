import Testbed.Proofs.Run.Entry

/-! Whether an environment goes on after errors decides which of its commands have their turn, not
what it comes to. Where a command comes to the same outcome whichever others ran, both policies
agree up to the first that did not pass, and with it the failure is settled. Behind it the one has
outcomes of the other commands and the other passes them over. -/
namespace Testbed

/-- How many commands have their turn where nothing runs behind the first that did not pass. -/
def CommandOutcome.turns (outcomes : List CommandOutcome) : Nat :=
  outcomes.findIdx (fun o => !o.isPassed) + 1

namespace Progress

open CommandOutcome (turns)

/-! ### Both policies side by side -/

/-- What the first commands come to, `n` of them, when each that has its turn comes to the outcome
that is assigned to its index. -/
def made (continueOnError : Bool) (g : Nat → CommandOutcome) (commands : List Command)
    (n : Nat) : Progress :=
  (commands.take n).foldl
    (fun p c => if p.stopped then p.skip c else p.record continueOnError (g p.index)) .start

variable {continueOnError : Bool} {g : Nat → CommandOutcome} {spec : EnvSpec} {n : Nat}
  {commands : List Command} {command : Command}

theorem made_index (hn : n ≤ commands.length) : (made continueOnError g commands n).index = n := by
  induction n with
  | zero => rfl
  | succ n ih =>
    have hc := List.getElem?_eq_getElem (show n < commands.length by omega)
    have ih := ih (by omega)
    rw [made] at ih
    rw [made, List.take_add_one, hc, Option.toList_some, List.foldl_concat]
    split <;> simp [ih]

theorem made_succ (hc : commands[n]? = some command) :
    made continueOnError g commands (n + 1) =
      if (made continueOnError g commands n).stopped then
        (made continueOnError g commands n).skip command
      else (made continueOnError g commands n).record continueOnError (g n) := by
  have hi : (made continueOnError g commands n).index = n :=
    made_index (List.getElem?_eq_some_iff.1 hc).1.le
  rw [made] at hi
  rw [made, made, List.take_add_one, hc, Option.toList_some, List.foldl_concat, hi]

theorem turns_concat (outcomes : List CommandOutcome) (o : CommandOutcome) :
    turns (outcomes ++ [o]) =
      if turns outcomes ≤ outcomes.length then turns outcomes
      else outcomes.length + if o.isPassed then 2 else 1 := by
  unfold turns
  rw [List.findIdx_append, List.findIdx_singleton]
  simp only [Nat.succ_le_iff]
  split
  · rfl
  · cases o.isPassed <;> simp [Nat.add_comm, Nat.add_left_comm]

/-- `p` goes on after errors and `q` does not. -/
structure Matches (spec : EnvSpec) (p q : Progress) : Prop where
  going : p.stopped = false
  failed : p.failure ≠ none ↔ turns p.outcomes ≤ p.index
  reason : p.failure = (p.outcomes.find? (fun o => !o.isPassed)).map CommandOutcome.failureText
  failure : q.failure = p.failure
  stopped : q.stopped = true ↔ turns p.outcomes ≤ p.index
  outcomes : q.outcomes = p.outcomes.take (turns p.outcomes) ++
    ((Task.skipped spec).take p.index).drop (turns p.outcomes)

variable {p q : Progress} {o : CommandOutcome}

theorem record_going (hp : p.stopped = false) (ho : o.status ≠ .cancelled) :
    (p.record true o).stopped = false := by
  rw [record_stopped, hp, Bool.false_or, stopsAfter_eq_false_iff]
  exact .inr ⟨rfl, ho⟩

/-- Nothing is cut off of outcomes that have all had their turns. -/
theorem take_turns_append (spec : EnvSpec) {outcomes : List CommandOutcome}
    (ho : outcomes.length ≤ turns outcomes) :
    outcomes.take (turns outcomes) ++
      ((Task.skipped spec).take outcomes.length).drop (turns outcomes) = outcomes := by
  rw [List.take_of_length_le ho, List.drop_of_length_le ((List.length_take_le ..).trans ho),
    List.append_nil]

theorem start_matches (spec : EnvSpec) : Matches spec .start .start where
  going := rfl
  failed := by simp [start, index, turns]
  reason := rfl
  failure := rfl
  stopped := by simp [start, index, turns]
  outcomes := by simp [start, index]

/-- Behind a failure the one goes on and the other does not. -/
theorem Matches.skip (h : Matches spec p q) (hs : q.stopped = true)
    (hc : spec.commands[p.index]? = some command) (hi : q.index = p.index)
    (ho : o.status ≠ .cancelled) : Matches spec (p.record true o) (q.skip command) := by
  have hle : turns p.outcomes ≤ p.outcomes.length := h.stopped.1 hs
  have hturns : turns (p.outcomes ++ [o]) = turns p.outcomes := by rw [turns_concat, if_pos hle]
  have hbehind : turns p.outcomes ≤ p.index + 1 := Nat.le_succ_of_le hle
  obtain ⟨reason, hreason⟩ := Option.ne_none_iff_exists'.1 (h.failed.2 hle)
  have hfailure : (p.record true o).failure = some reason := by
    rw [record_failure, hreason]
    split <;> rfl
  refine ⟨?_, ?_, ?_, ?_, ?_, ?_⟩
  · exact record_going h.going ho
  · rw [hfailure, record_outcomes, record_index, hturns]
    exact iff_of_true (Option.some_ne_none _) hbehind
  · have hfirst := h.reason
    rw [hreason] at hfirst
    obtain ⟨o', ho', rfl⟩ := Option.map_eq_some_iff.1 hfirst.symm
    rw [hfailure, record_outcomes, List.find?_append, ho', Option.some_or, Option.map_some]
  · rw [hfailure, ← hreason]
    exact h.failure
  · rw [record_outcomes, record_index, hturns]
    exact iff_of_true hs hbehind
  · have hlen : turns p.outcomes ≤ ((Task.skipped spec).take p.index).length := by
      have hlt := (List.getElem?_eq_some_iff.1 hc).1
      rw [List.length_take, Task.skipped, List.length_mapIdx]
      exact le_min hle (hle.trans hlt.le)
    have hnext : (Task.skipped spec)[p.index]? = some (.skipped p.index command.display) := by
      simp [Task.skipped, hc]
    rw [record_outcomes, record_index, hturns, List.take_append_of_le_length hle,
      List.take_add_one, hnext, Option.toList_some, List.drop_append_of_le_length hlen,
      ← List.append_assoc, ← h.outcomes, ← hi]
    rfl

/-- Before a failure both go on alike, and the first failure is that of both. -/
theorem Matches.record (h : Matches spec p q) (hs : q.stopped = false)
    (ho : o.status ≠ .cancelled) : Matches spec (p.record true o) (q.record false o) := by
  have hlt : ¬ turns p.outcomes ≤ p.outcomes.length := by
    rw [← index, ← h.stopped, hs]
    exact Bool.false_ne_true
  have hnone : p.failure = none := by
    by_contra hne
    exact hlt (h.failed.1 hne)
  have hsame : q.outcomes = p.outcomes :=
    h.outcomes.trans (take_turns_append spec (Nat.le_of_not_le hlt))
  have hturns : turns (p.outcomes ++ [o]) = p.index + if o.isPassed then 2 else 1 := by
    rw [turns_concat, if_neg hlt, index]
  have hle : turns (p.outcomes ++ [o]) ≤ p.index + 1 ↔ o.status ≠ .passed := by
    rw [hturns]
    by_cases hp : o.status = .passed <;> simp [CommandOutcome.isPassed, hp]
  have hfirst : p.outcomes.find? (fun o => !o.isPassed) = none := by
    rw [← Option.map_eq_none_iff, ← h.reason, hnone]
  refine ⟨?_, ?_, ?_, ?_, ?_, ?_⟩
  · exact record_going h.going ho
  · rw [record_failure, record_outcomes, record_index, hle, hnone]
    by_cases hp : o.status = .passed <;> simp [hp]
  · rw [record_failure, record_outcomes, List.find?_append, hfirst, hnone, Option.none_or]
    by_cases hp : o.status = .passed <;> simp [CommandOutcome.isPassed, hp]
  · rw [record_failure, record_failure, h.failure]
  · rw [record_stopped, hs, Bool.false_or, record_outcomes, record_index, hle, stopsAfter_iff]
    exact and_iff_left (fun hgoing => absurd hgoing Bool.false_ne_true)
  · have hge : (p.outcomes ++ [o]).length ≤ turns (p.outcomes ++ [o]) := by
      rw [hturns, List.length_append, List.length_singleton, index]
      split <;> omega
    have hindex : p.index + 1 = (p.outcomes ++ [o]).length := by
      rw [List.length_append, List.length_singleton, index]
    rw [record_outcomes, record_outcomes, record_index, hsame, hindex, take_turns_append spec hge]

theorem made_matches (hn : n ≤ spec.commands.length)
    (hg : ∀ i < spec.commands.length, (g i).status ≠ .cancelled) :
    Matches spec (made true g spec.commands n) (made false g spec.commands n) := by
  induction n with
  | zero => exact start_matches spec
  | succ n ih =>
    have h := ih (by omega)
    have hc := List.getElem?_eq_getElem (show n < spec.commands.length by omega)
    have hp : (made true g spec.commands n).index = n := made_index (by omega)
    have hq : (made false g spec.commands n).index = n := made_index (by omega)
    rw [made_succ hc, made_succ hc, if_neg (Bool.not_eq_true _ ▸ h.going)]
    split
    next hs => exact h.skip hs (hp.symm ▸ hc) (hq.trans hp.symm) (hg n (by omega))
    next hs => exact h.record (by simpa using hs) (hg n (by omega))

/-- An environment that goes on after errors has all the outcomes that are assigned. -/
theorem made_outcomes (hn : n ≤ spec.commands.length)
    (hg : ∀ i < spec.commands.length, (g i).status ≠ .cancelled) :
    (made true g spec.commands n).outcomes = (List.range n).map g := by
  induction n with
  | zero => rfl
  | succ n ih =>
    have h := made_matches (show n ≤ spec.commands.length by omega) hg
    have hc := List.getElem?_eq_getElem (show n < spec.commands.length by omega)
    rw [made_succ hc, if_neg (Bool.not_eq_true _ ▸ h.going), record_outcomes, ih (by omega),
      List.range_succ, List.map_append, List.map_singleton]

end Progress

namespace Task

variable {g : Nat → CommandOutcome} {f : Facilities} {t t' : Task} {w w' : World} {c d : Context}

/-- What the commands have come to, while they have their turns. -/
def progress? (t : Task) : Option Progress :=
  match t.phase with
  | .commands _ p | .awaiting _ p _ => some p
  | .fresh | .provisioning _ | .closing .. | .finished _ | .aborted => none

/-- A command that has its turn between two states of a task comes to what is assigned to its
index. -/
def Draws (g : Nat → CommandOutcome) (t t' : Task) : Prop :=
  ∀ p ∈ t.progress?, ∀ q ∈ t'.progress?, p.stopped = false → p.index < q.index →
    q.outcomes = p.outcomes ++ [g p.index]

instance (g : Nat → CommandOutcome) (t t' : Task) : Decidable (t.Draws g t') :=
  inferInstanceAs (Decidable (∀ p ∈ t.progress?, ∀ q ∈ t'.progress?, _ → _ → _ = _))

/-- While the task is looked at in the scenes, the commands that have their turn come to what is
assigned to their indices. -/
def ComesTo (g : Nat → CommandOutcome) (t : Task) : List Scene → Prop
  | [] => True
  | x :: xs => t.Draws g (t.look x) ∧ (t.look x).ComesTo g xs

instance ComesTo.decide (g : Nat → CommandOutcome) (t : Task) :
    (xs : List Scene) → Decidable (t.ComesTo g xs)
  | [] => .isTrue trivial
  | x :: xs =>
    have := ComesTo.decide g (t.look x) xs
    inferInstanceAs (Decidable (_ ∧ _))

/-- A task whose commands have come to what is assigned to them. -/
def Tracks (g : Nat → CommandOutcome) (t : Task) : Prop :=
  let made := Progress.made t.spec.continueOnError g t.spec.commands
  match t.phase with
  | .commands _ p => p.index ≤ t.spec.commands.length ∧ p = made p.index
  | .awaiting _ p _ =>
    p.index < t.spec.commands.length ∧ p.stopped = false ∧ p = made p.index
  | .closing _ p => p = made t.spec.commands.length ∧ t.life = p.status
  | .finished r =>
    r.status = (made t.spec.commands.length).status ∧
      r.outcomes = (made t.spec.commands.length).outcomes ∧
      r.failure = (made t.spec.commands.length).failure
  | .aborted => True
  | .fresh | .provisioning _ => False

theorem step_tracks (ht : t.Tracks g) (hw : w.tick.cancelled = false) (hd : t.Draws g t')
    (h : t.step f w = .moved t' w') : t'.Tracks g := by
  have hleave (c : Context) (p : Progress) (hp : t.phase = .commands c p)
      (hi : t.spec.commands.length ≤ p.index) : t'.life = p.status := step_leave hp hi h
  have hclose (c : Context) (p : Progress) (hp : t.phase = .closing c p) := step_close hp h
  obtain ⟨hspec, -, he⟩ := step_follows h
  rw [hw] at he
  unfold Draws progress? at hd
  unfold Tracks at ht ⊢
  rw [hspec]
  generalize t.phase = a at ht he hd hleave hclose
  generalize t'.phase = b at he hd hclose
  -- the outcome of a command that has its turn is the one assigned to it
  have hrecord {p : Progress} {o : CommandOutcome} (hi : p.index < t.spec.commands.length)
      (hs : p.stopped = false)
      (hp : p = .made t.spec.continueOnError g t.spec.commands p.index)
      (hq : (p.record t.spec.continueOnError o).outcomes = p.outcomes ++ [g p.index]) :
      p.record t.spec.continueOnError o =
        .made t.spec.continueOnError g t.spec.commands (p.index + 1) := by
    obtain rfl : o = g p.index := by simpa [Progress.record_outcomes] using hq
    rw [Progress.made_succ (List.getElem?_eq_getElem hi), ← hp, hs]
    rfl
  cases he with
  | pass | provision | build | fail | enter => exact ht.elim
  | skip c hc hs =>
    obtain ⟨-, hp⟩ := ht
    refine ⟨by simpa using (List.getElem?_eq_some_iff.1 hc).1, ?_⟩
    rw [Progress.skip_index, Progress.made_succ hc, ← hp, if_pos hs]
  | halt c hc hs hx => cases hx
  | outcome c hi hs ho =>
    have hq := hd _ rfl _ rfl hs (by simp)
    exact ⟨by simpa using hi, by simpa using hrecord hi hs ht.2 hq⟩
  | launch c p r hi hs => exact ⟨hi, hs, ht.2⟩
  | collect c p r ho =>
    obtain ⟨hi, hs, hp⟩ := ht
    have hq := hd _ rfl _ rfl hs (by simp)
    exact ⟨by simpa using hi, by simpa using hrecord hi hs hp hq⟩
  | abort | abortWaiting => trivial
  | leave c p hi =>
    have hlast : p.index = t.spec.commands.length := le_antisymm ht.1 hi
    exact ⟨hlast ▸ ht.2, hleave c p rfl hi⟩
  | close c p r =>
    obtain ⟨hp, hlife⟩ := ht
    obtain ⟨ms, hr⟩ := hclose c p rfl
    cases hr
    exact ⟨hp ▸ hlife, by rw [← hp], by rw [← hp]⟩

theorem tracks_of_start (ht : t.phase = .commands c .start) : t.Tracks g := by
  unfold Tracks
  rw [ht]
  exact ⟨Nat.zero_le _, rfl⟩

theorem along_tracks {xs : List Scene} (ht : t.Tracks g)
    (hx : ∀ x ∈ xs, x.world.tick.cancelled = false) (hg : t.ComesTo g xs) :
    (t.along xs).Tracks g := by
  induction xs generalizing t with
  | nil => exact ht
  | cons x xs ih =>
    obtain ⟨hdraws, hrest⟩ := hg
    refine ih ?_ (fun y hy => hx y (List.mem_cons_of_mem _ hy)) hrest
    rcases t.look_cases x with h | ⟨w', h⟩
    · rwa [h]
    · exact step_tracks ht (hx x List.mem_cons_self) hdraws h

end Task

/-! ### The results -/

/-- Results of one environment whose commands come to `g`: `r` where it goes on after errors and `q`
where it does not. -/
structure EnvResult.Concurs (g : Nat → CommandOutcome) (spec : EnvSpec) (r q : EnvResult) :
    Prop where
  status : q.status = r.status
  failure : q.failure = r.failure
  reason : r.failure = (r.outcomes.find? (fun o => !o.isPassed)).map CommandOutcome.failureText
  assigned : r.outcomes = (List.range spec.commands.length).map g
  outcomes : q.outcomes = r.outcomes.take (CommandOutcome.turns r.outcomes) ++
    (Task.skipped spec).drop (CommandOutcome.turns r.outcomes)

namespace Task

variable {g : Nat → CommandOutcome} {spec : EnvSpec} {t u : Task} {c d : Context}

theorem Tracks.made {r : EnvResult} (ht : t.Tracks g) (hr : t.phase = .finished r) :
    let p := Progress.made t.spec.continueOnError g t.spec.commands t.spec.commands.length
    r.status = p.status ∧ r.outcomes = p.outcomes ∧ r.failure = p.failure := by
  unfold Tracks at ht
  rwa [hr] at ht

theorem Tracks.concurs {r q : EnvResult} (ht : t.Tracks g) (hu : u.Tracks g)
    (hts : t.spec = { spec with continueOnError := true })
    (hus : u.spec = { spec with continueOnError := false })
    (hg : ∀ i < spec.commands.length, (g i).status ≠ .cancelled)
    (hr : t.phase = .finished r) (hq : u.phase = .finished q) : r.Concurs g spec q := by
  have hmade := ht.made hr
  have hmade' := hu.made hq
  rw [hts] at hmade
  rw [hus] at hmade'
  obtain ⟨hrs, hro, hrf⟩ := hmade
  obtain ⟨hqs, hqo, hqf⟩ := hmade'
  have h : Progress.Matches spec _ _ := Progress.made_matches le_rfl hg
  have hlength : (Task.skipped spec).length = spec.commands.length := by simp [Task.skipped]
  refine ⟨?_, ?_, ?_, ?_, ?_⟩
  · rw [hqs, hrs, Progress.status, Progress.status, h.failure]
  · rw [hqf, hrf, h.failure]
  · rw [hrf, hro, h.reason]
  · rw [hro, Progress.made_outcomes le_rfl hg]
  · rw [hqo, hro, h.outcomes, Progress.made_index le_rfl, ← hlength, List.take_length]

/-- The policy does not change the verdict. Whatever the commands of an environment come to, as long
as that does not depend on which others ran and nothing is cancelled, its results with and without
going on after errors have one status and one failure, that of the first command that did not pass;
and where every program ends there are such results. -/
theorem policies_agree (hts : t.spec = { spec with continueOnError := true })
    (hus : u.spec = { spec with continueOnError := false })
    (ht : t.phase = .commands c .start) (hu : u.phase = .commands d .start)
    (hg : ∀ i < spec.commands.length, (g i).status ≠ .cancelled) :
    (∀ xs ys : List Scene, (∀ x ∈ xs ++ ys, x.world.tick.cancelled = false) →
      t.ComesTo g xs → u.ComesTo g ys → ∀ r q, (t.along xs).phase = .finished r →
        (u.along ys).phase = .finished q → r.Concurs g spec q) ∧
    ∀ σ : Nat → Scene, Flows σ →
      (∃ n r, (t.along ((List.range n).map σ)).phase = .finished r) ∧
      ∃ n q, (u.along ((List.range n).map σ)).phase = .finished q := by
  constructor
  · intro xs ys hcalm hxs hys r q hr hq
    have hxcalm (x : Scene) (hx : x ∈ xs) := hcalm x (List.mem_append_left ys hx)
    have hycalm (y : Scene) (hy : y ∈ ys) := hcalm y (List.mem_append_right xs hy)
    have htracks := along_tracks (tracks_of_start ht) hxcalm hxs
    have hutracks := along_tracks (tracks_of_start hu) hycalm hys
    exact htracks.concurs hutracks ((along_spec t xs).trans hts) ((along_spec u ys).trans hus) hg
      hr hq
  · exact fun σ hσ => ⟨exists_finished_of_start hσ ht, exists_finished_of_start hσ hu⟩

/-- Every program is found; the one called `y` fails and every other passes. -/
def choosy : Facilities :=
  let ended (i : Invocation) : ExitOutcome :=
    if i.path.text = "y" then ⟨.failed, some 1, "", "", 0⟩ else ⟨.passed, some 0, "", "", 0⟩
  let runs : Executable := ⟨fun _ _ program => .ok ⟨program⟩,
    fun h i _ => ⟨h.tree, [], false, .none, .exited (ended i)⟩⟩
  { failing with ambient := runs, isolated := runs }

/-- What the commands `x`, `y` and `x` come to with them. -/
def choosyOutcome (i : Nat) : CommandOutcome :=
  if i = 1 then ⟨i, "y", .failed, some 1, 0, "", "", none⟩
  else ⟨i, "x", .passed, some 0, 0, "", "", none⟩

/-- Three commands under either policy, in a context that is kept. -/
def threeCommands (continueOnError : Bool) : Task :=
  ⟨{ twoCommands.spec with
      commands := [.ofArgv ["x"], .ofArgv ["y"], .ofArgv ["x"]]
      continueOnError := continueOnError },
    .running, 0, twoCommands.phase⟩

/-- The second command fails, and the third has its turn or is passed over. -/
theorem policies_agree_choosy :
    let xs : List Scene := List.replicate 5 ⟨choosy, World.start default⟩
    let σ : Nat → Scene := fun n => ⟨choosy, { World.start default with clock := n }⟩
    ∃ r q, ((threeCommands true).along xs).phase = .finished r ∧
      ((threeCommands false).along xs).phase = .finished q ∧
      r.Concurs choosyOutcome (threeCommands false).spec q ∧
      r.outcomes.map CommandOutcome.status = [.passed, .failed, .passed] ∧
      q.outcomes.map CommandOutcome.status = [.passed, .failed, .skipped] ∧
      q.failure = some "\x60y\x60 exited with code 1" ∧
      ∃ n q, ((threeCommands false).along ((List.range n).map σ)).phase = .finished q := by
  intro xs σ
  have hphase : ∃ c, twoCommands.phase = .commands c .start := ⟨_, rfl⟩
  obtain ⟨c, hc⟩ := hphase
  have hnever : ∀ i < (threeCommands false).spec.commands.length,
      (choosyOutcome i).status ≠ .cancelled := by decide
  obtain ⟨hagree, hends⟩ := @policies_agree choosyOutcome (threeCommands false).spec
    (threeCommands true) (threeCommands false) c c rfl rfl hc hc hnever
  have hcalm : ∀ x ∈ xs ++ xs, x.world.tick.cancelled = false := by
    intro x hx
    rcases List.mem_append.1 hx with h | h <;> rw [List.eq_of_mem_replicate h] <;> rfl
  have hcomes (continueOnError : Bool) :
      (threeCommands continueOnError).ComesTo choosyOutcome xs := by
    cases continueOnError <;> decide
  have hr : ∃ r, ((threeCommands true).along xs).phase = .finished r ∧
      r.outcomes.map CommandOutcome.status = [.passed, .failed, .passed] := ⟨_, rfl, rfl⟩
  have hq : ∃ q, ((threeCommands false).along xs).phase = .finished q ∧
      q.outcomes.map CommandOutcome.status = [.passed, .failed, .skipped] ∧
      q.failure = some "\x60y\x60 exited with code 1" := ⟨_, rfl, rfl, by decide⟩
  obtain ⟨r, hr, hrstatus⟩ := hr
  obtain ⟨q, hq, hqstatus, hfailure⟩ := hq
  have hflows : Flows σ := by
    refine ⟨fun n external h i cutAt => ?_, fun n external h i cutAt => ?_,
      fun moment => ⟨moment, fun k hk => hk⟩⟩
    all_goals cases external <;> nofun
  exact ⟨r, q, hr, hq, hagree xs xs hcalm (hcomes true) (hcomes false) r q hr hq, hrstatus,
    hqstatus, hfailure, (hends σ hflows).2⟩

end Task

end Testbed
