import Testbed.Proofs.Program.Spawn
import Testbed.Proofs.Run.Entry
import Testbed.Report.Gate

/-! Reports whose parts agree. Where commands run the programs of the system and of their contexts,
whatever these do, the status of an outcome goes with its exit code, its error and its outputs, and
the status of an entry with its failure and its outcomes, whatever fails and whenever the run is
cancelled; so the gate always has a failure to quote. -/
namespace Testbed

/-! ### Outcomes -/

structure CommandOutcome.WellFormed (o : CommandOutcome) : Prop where
  passed : o.status = .passed ↔ o.exitCode = some 0
  code : o.exitCode ≠ none → o.status = .passed ∨ o.status = .failed
  error : o.error ≠ none ↔ o.status = .error
  idle : o.status = .skipped ∨ o.status = .error →
    o.stdout = "" ∧ o.stderr = "" ∧ o.durationMs = 0

theorem CommandOutcome.skipped_wellFormed (index : Nat) (display : String) :
    (CommandOutcome.skipped index display).WellFormed := by
  constructor <;> simp [CommandOutcome.skipped]

theorem CommandOutcome.errored_wellFormed (index : Nat) (display error : String) :
    (CommandOutcome.errored index display error).WellFormed := by
  constructor <;> simp [CommandOutcome.errored]

/-- A program that ended by itself has a code, unless a signal ended it. -/
structure ExitOutcome.WellFormed (e : ExitOutcome) : Prop where
  passed : e.status = .passed ↔ e.exitCode = some 0
  code : e.exitCode ≠ none → e.status = .passed ∨ e.status = .failed
  ran : e.status ≠ .skipped ∧ e.status ≠ .error

theorem ExitOutcome.WellFormed.toOutcome {e : ExitOutcome} (h : e.WellFormed) (index : Nat)
    (display : String) : (e.toOutcome index display).WellFormed where
  passed := h.passed
  code := h.code
  error := iff_of_false (fun hne => hne rfl) h.ran.2
  idle hs := (hs.elim h.ran.1 h.ran.2).elim

/-! ### Programs -/

namespace Spawn

theorem exited_wellFormed (code : Option Int) (ended : Nat) (c : Process.Course) :
    (outcome (if code = some 0 then .passed else .failed) code ended c).WellFormed := by
  have hstatus : (outcome (if code = some 0 then .passed else .failed) code ended c).status =
      if code = some 0 then .passed else .failed := rfl
  have hcode : (outcome (if code = some 0 then .passed else .failed) code ended c).exitCode =
      code := rfl
  constructor <;> rw [hstatus]
  · rw [hcode]
    split <;> simp_all
  · intro _
    split <;> simp
  · split <;> simp

theorem cut_wellFormed {status : CommandStatus} (hs : status = .timedOut ∨ status = .cancelled)
    (ended : Nat) (c : Process.Course) : (outcome status none ended c).WellFormed := by
  have hstatus : (outcome status none ended c).status = status := rfl
  have hcode : (outcome status none ended c).exitCode = none := rfl
  constructor <;> rcases hs with rfl | rfl <;> simp [hstatus, hcode]

/-- However a program ends, what is told of it agrees. -/
theorem run_wellFormed {programs : Process.Programs} {h : Host} {i : Invocation}
    {cutAt : Option Nat} {e : ExitOutcome} (he : (run programs h i cutAt).ending = .exited e) :
    e.WellFormed := by
  have hkilled (c : Process.Course) (cut : Cut) (hk : (killed i c cut).ending = .exited e) :
      e.WellFormed := by
    cases cut with
    | timedOut moment =>
      cases hk
      exact cut_wellFormed (.inl rfl) ..
    | cancelled moment =>
      cases hk
      exact cut_wellFormed (.inr rfl) ..
  have hreply (c : Process.Course) (cut : Option Cut) (hr : (replyTo i c cut).ending = .exited e) :
      e.WellFormed := by
    unfold replyTo at hr
    split at hr
    · cases hr
      exact exited_wellFormed ..
    · exact hkilled _ _ hr
    · cases hr
      exact cut_wellFormed (.inr rfl) ..
  unfold run at he
  dsimp only at he
  split at he
  · cases he
  · exact hreply _ _ he

end Spawn

/-- Commands run the programs of the system and of their contexts, and these do whatever they
do. -/
structure Facilities.Plain (f : Facilities) : Prop where
  ambient : ∃ programs, f.ambient = .ambient programs
  isolated : ∃ programs, f.isolated = .isolated programs

theorem Facilities.Plain.run_eq {f : Facilities} (h : f.Plain) (external : Bool) :
    ∃ programs, (Task.executableFor f external).run = Spawn.run programs := by
  cases external with
  | true => exact h.ambient.imp fun _ ha => congrArg Executable.run ha
  | false => exact h.isolated.imp fun _ hi => congrArg Executable.run hi

theorem Facilities.Plain.gives {f : Facilities} (h : f.Plain) :
    f.Gives CommandOutcome.WellFormed := by
  intro index o ho
  cases ho with
  | refused display message => exact CommandOutcome.errored_wellFormed ..
  | ran external host i cutAt e display he =>
    obtain ⟨programs, hrun⟩ := h.run_eq external
    rw [hrun] at he
    exact (Spawn.run_wellFormed he).toOutcome index display

/-! ### Entries -/

structure EnvResult.WellFormed (e : EnvResult) : Prop where
  terminal : e.status.isTerminal = true
  failure : e.failure = none ↔ e.status = .succeeded
  succeeded : e.status = .succeeded → ∀ o ∈ e.outcomes, o.status = .passed
  failed : e.status = .failed → ∃ o ∈ e.outcomes, o.status ≠ .passed
  unbuilt : e.status = .provisionFailed → ∀ o ∈ e.outcomes, o.status = .skipped
  outcomes : ∀ o ∈ e.outcomes, o.WellFormed

theorem EnvResult.Ends.wellFormed {spec : EnvSpec} {e : EnvResult} {ran : List CommandOutcome}
    {es : List Event} (h : e.Ends CommandOutcome.WellFormed spec ran es) : e.WellFormed := by
  cases h with
  | unstarted => constructor <;> simp [EnvResult.unstarted, EnvResult.skipped, Lifecycle.isTerminal]
  | through ms hn => constructor <;> simp [Task.through, Lifecycle.isTerminal]
  | unbuilt failure ms hn =>
    have hskipped : ∀ o ∈ Task.skipped spec, ∃ index display, o = .skipped index display := by
      intro o ho
      obtain ⟨i, hi, rfl⟩ := List.mem_mapIdx.1 ho
      exact ⟨_, _, rfl⟩
    refine ⟨rfl, by simp [Task.unbuilt], fun hs => (by cases hs), fun hs => (by cases hs),
      fun _ o ho => ?_, fun o ho => ?_⟩
    all_goals obtain ⟨index, display, rfl⟩ := hskipped o ho
    · rfl
    · exact CommandOutcome.skipped_wellFormed index display
  | ran trouble hn hp hi hr =>
    rename_i p
    obtain ⟨ms, rfl⟩ := hr
    have hstatus : p.status = .succeeded ↔ p.failure = none := p.status_eq_succeeded_iff
    obtain ⟨waived, houtcomes, -, hwaived⟩ := hp.outcomes
    have hone := p.status_cases
    refine ⟨?_, hstatus.symm, fun hs => hp.failure.1 (hstatus.1 hs), fun hs => ?_, fun hs => ?_,
      fun o ho => ?_⟩
    · rcases hone with h | h <;> simp [h, Lifecycle.isTerminal]
    · have hnot : p.failure ≠ none := fun hnone => by
        rw [hstatus.2 hnone] at hs
        cases hs
      rw [Ne, hp.failure] at hnot
      simpa using hnot
    · rcases hone with h | h <;> simp [h] at hs
    · dsimp only at ho
      rw [houtcomes, List.mem_append] at ho
      rcases ho with ho | ho
      · exact hp.good o ho
      · obtain ⟨index, display, rfl⟩ := hwaived o ho
        exact CommandOutcome.skipped_wellFormed index display

/-! ### The verdict -/

namespace Verdict

theorem ofReport_violations (r : Report) : (ofReport r).violations =
    (r.environments.filter fun e => !e.succeeded).map violation := by
  unfold ofReport
  dsimp only
  split
  next h => exact (List.isEmpty_iff.1 h).symm
  next => rfl

/-- The violation is told in the words of the failure. -/
def Quotes (e : EnvResult) (violation : String) : Prop :=
  ∃ failure, e.failure = some failure ∧
    violation = s!"Environment '{e.name}' {e.status.category}: {failure}"

theorem quotes_violation {e : EnvResult} (h : e.WellFormed) (hs : e.succeeded = false) :
    Quotes e (violation e) := by
  have hnot : e.status ≠ .succeeded := by simpa [EnvResult.succeeded] using hs
  obtain ⟨failure, hf⟩ := Option.ne_none_iff_exists'.1 fun hnone => hnot (h.failure.1 hnone)
  refine ⟨failure, hf, ?_⟩
  unfold violation reason
  rw [hf]

theorem quotes_violations {r : Report} (h : ∀ e ∈ r.environments, e.WellFormed) :
    List.Forall₂ Quotes (r.environments.filter fun e => !e.succeeded)
      (ofReport r).violations := by
  rw [ofReport_violations, List.forall₂_map_right_iff, List.forall₂_same]
  intro e he
  obtain ⟨hmem, hs⟩ := List.mem_filter.1 he
  exact quotes_violation (h e hmem) (by simpa using hs)

end Verdict

namespace Run

/-- Whatever fails and whenever a run is cancelled, with plain programs every entry of its report is
well-formed unless its task died, and when none died each violation quotes the failure of its
environment. -/
theorem reported_wellFormed (c : Config) (s : Selection) (o : RunOptions) (runId : Uuid) (w : World)
    {moves : List Move} (hm : ∀ m ∈ moves, m.Uses Facilities.Plain) {rep : Report}
    (h : (after c s o runId w moves).1 = .ended (.reported rep)) :
    (∀ e ∈ rep.environments, e.WellFormed ∨ e = .aborted e.name) ∧
      ((∀ e ∈ rep.environments, e ≠ .aborted e.name) →
        (∀ e ∈ rep.environments, e.WellFormed) ∧
          List.Forall₂ Verdict.Quotes (rep.environments.filter fun e => !e.succeeded)
            (Verdict.ofReport rep).violations) := by
  have hgives : ∀ m ∈ moves, m.Uses (·.Gives CommandOutcome.WellFormed) := fun m hmem =>
    (hm m hmem).imp fun f hf => hf.gives
  obtain ⟨found, -, hends⟩ := reported_ends h hgives
  have hall : ∀ e ∈ rep.environments, e.WellFormed ∨ e = .aborted e.name := by
    intro e he
    obtain ⟨spec, -, hentry⟩ := Config.exists_left_of_forall₂ hends he
    rcases hentry with ⟨ran, es, hentry⟩ | rfl
    · exact .inl hentry.wellFormed
    · exact .inr rfl
  refine ⟨hall, fun halive => ?_⟩
  have hsound : ∀ e ∈ rep.environments, e.WellFormed := fun e he =>
    (hall e he).resolve_right (halive e he)
  exact ⟨hsound, Verdict.quotes_violations hsound⟩

/-- The run is cancelled while its one environment is being provisioned. -/
theorem reported_wellFormed_cancelled :
    let o : RunOptions := ⟨none, none, none, []⟩
    let f : Facilities :=
      ⟨provisioner toolbox o, Rehearsal.installer [], .ambient .idle, .isolated .idle,
        o.posargs⟩
    let moves : List Move := [.turn f 0, .turn f 0, .cancel, .turn f 0, .turn f 0]
    ∃ rep e, (after toolbox .all o .nil (.start default) moves).1 = .ended (.reported rep) ∧
      rep.environments = [e] ∧ e.status = .provisionFailed ∧ e.outcomes ≠ [] ∧ e.WellFormed ∧
      ∃ violation, (Verdict.ofReport rep).violations = [violation] ∧
        Verdict.Quotes e violation := by
  intro o f moves
  have hrun : ∃ rep e, (after toolbox .all o .nil (.start default) moves).1 =
      .ended (.reported rep) ∧ rep.environments = [e] ∧ e.status = .provisionFailed ∧
        e.outcomes.length = 1 ∧ e.succeeded = false := ⟨_, _, rfl, rfl, rfl, rfl, rfl⟩
  obtain ⟨rep, e, hrep, hentries, hstatus, hlen, hfailed⟩ := hrun
  have hplain : f.Plain := ⟨⟨_, rfl⟩, ⟨_, rfl⟩⟩
  have hm : ∀ m ∈ moves, m.Uses Facilities.Plain := by
    simp [moves, Move.Uses, hplain]
  have hne : e.outcomes ≠ [] := by
    rintro hnil
    simp [hnil] at hlen
  have halive : ∀ e' ∈ rep.environments, e' ≠ .aborted e'.name := by
    intro e' he' heq
    rw [hentries, List.mem_singleton] at he'
    subst he'
    rw [heq] at hstatus
    cases hstatus
  obtain ⟨hsound, hquotes⟩ := (reported_wellFormed toolbox .all o .nil (.start default) hm hrep).2 halive
  have hfilter : rep.environments.filter (fun e => !e.succeeded) = [e] := by
    simp [hentries, hfailed]
  rw [hfilter] at hquotes
  obtain ⟨violation, rest, hquote, hrest, hviolations⟩ := List.forall₂_cons_left_iff.1 hquotes
  obtain rfl := List.forall₂_nil_left_iff.1 hrest
  exact ⟨rep, e, hrep, hentries, hstatus, hne, hsound e (by simp [hentries]), violation,
    hviolations, hquote⟩

end Run

end Testbed
