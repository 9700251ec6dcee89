import Testbed.Proofs.Run.Act
import Testbed.Proofs.Run.Isolation

/-! The entries of a report. An environment is passed over, is through at once, gets no context, or
has its commands run; which of the four shows in its entry, and in the events that its task told of.
All that a task has told of so far is kept by every step, whatever the programs do, and so holds of
its entry. -/
namespace Testbed

/-- The facilities give outcomes of one kind only. -/
def Facilities.Gives (good : CommandOutcome → Prop) (f : Facilities) : Prop :=
  ∀ (index : Nat) (o : CommandOutcome), o.Stems f index → good o

theorem Facilities.gives_any (f : Facilities) : f.Gives fun _ => True := fun _ _ _ => trivial

/-- The digest of what is installed for an environment. -/
def EnvSpec.digest (spec : EnvSpec) : String := Dependency.digest (Dependency.resolve spec.deps)

namespace Progress

variable {good : CommandOutcome → Prop} {spec : EnvSpec} {p : Progress} {ran : List CommandOutcome}

/-- What the commands have come to: `ran` are the outcomes of those that had their turn, and behind
them the others were passed over. -/
structure Tallies (good : CommandOutcome → Prop) (spec : EnvSpec) (p : Progress)
    (ran : List CommandOutcome) : Prop where
  outcomes : ∃ waived, p.outcomes = ran ++ waived ∧ (p.stopped = false → waived = []) ∧
    ∀ o ∈ waived, ∃ index display, o = .skipped index display
  good : ∀ o ∈ ran, good o
  count : p.index ≤ spec.commands.length
  indexed : Indexed p.outcomes
  failure : p.failure = none ↔ ∀ o ∈ p.outcomes, o.status = .passed
  stopped : p.stopped = true → p.failure ≠ none

theorem start_tallies (good : CommandOutcome → Prop) (spec : EnvSpec) :
    Tallies good spec .start [] where
  outcomes := ⟨[], rfl, fun _ => rfl, nofun⟩
  good := nofun
  count := Nat.zero_le _
  indexed := fun i o h => by simp [start] at h
  failure := by simp [start]
  stopped := nofun

theorem record_failure (continueOnError : Bool) (p : Progress) (o : CommandOutcome) :
    (p.record continueOnError o).failure =
      if o.status = .passed then p.failure else some (p.failure.getD o.failureText) := by
  by_cases h : o.status = .passed <;> simp [record, CommandOutcome.isPassed, h, fail]

/-- Passing over a command stops the environment for good, and is no success. -/
theorem Tallies.waive (h : Tallies good spec p ran) {q : Progress} {display : String}
    (ho : q.outcomes = p.outcomes ++ [.skipped p.index display]) (hs : q.stopped = true)
    (hf : q.failure ≠ none) (hi : p.index < spec.commands.length) : Tallies good spec q ran := by
  obtain ⟨waived, houtcomes, -, hwaived⟩ := h.outcomes
  refine ⟨⟨waived ++ [.skipped p.index display], ?_, fun hgo => ?_, ?_⟩, h.good, ?_, ?_, ?_,
    fun _ => hf⟩
  · rw [ho, houtcomes, List.append_assoc]
  · rw [hs] at hgo
    cases hgo
  · rw [List.forall_mem_append]
    exact ⟨hwaived, by simp⟩
  · rw [index, ho, List.length_append, List.length_singleton]
    exact hi
  · rw [ho]
    exact indexed_concat h.indexed rfl
  · refine iff_of_false hf fun hall => ?_
    have hpassed := hall (.skipped p.index display) (by simp [ho])
    cases hpassed

theorem Tallies.record (h : Tallies good spec p ran) (hs : p.stopped = false)
    (hi : p.index < spec.commands.length) {o : CommandOutcome} (ho : o.index = p.index)
    (hgood : good o) : Tallies good spec (p.record spec.continueOnError o) (ran ++ [o]) := by
  obtain ⟨waived, houtcomes, hgoing, -⟩ := h.outcomes
  obtain rfl := hgoing hs
  rw [List.append_nil] at houtcomes
  refine ⟨⟨[], ?_, fun _ => rfl, nofun⟩, ?_, ?_, ?_, ?_, fun hstop => ?_⟩
  · rw [record_outcomes, houtcomes, List.append_nil]
  · rw [List.forall_mem_append]
    exact ⟨h.good, by simpa using hgood⟩
  · rw [record_index]
    exact hi
  · rw [record_outcomes]
    exact indexed_concat h.indexed ho
  · rw [record_failure, record_outcomes, List.forall_mem_append, ← h.failure]
    by_cases hpassed : o.status = .passed <;> simp [hpassed]
  · rw [record_stopped, hs, Bool.false_or, stopsAfter_iff] at hstop
    rw [record_failure, if_neg hstop.1]
    exact Option.some_ne_none _

end Progress

/-! ### Entries -/

/-- The entry of an environment that comes to an end, with the outcomes of the commands that had
their turn and the events that its task told of. -/
inductive EnvResult.Ends (good : CommandOutcome → Prop) (spec : EnvSpec) :
    EnvResult → List CommandOutcome → List Event → Prop
  | unstarted : Ends good spec (.unstarted spec.name) [] [.ofResult (.unstarted spec.name)]
  | through (ms : Nat) (hn : spec.commands = []) :
      Ends good spec (Task.through spec ms) [] [.ofResult (Task.through spec ms)]
  | unbuilt (failure : String) (ms : Nat) (hn : spec.commands ≠ []) :
      Ends good spec (Task.unbuilt spec failure ms) []
        [.provisionFailed spec.name failure, .ofResult (Task.unbuilt spec failure ms)]
  | ran {p : Progress} {ran : List CommandOutcome} {r : EnvResult} (trouble : Option String)
      (hn : spec.commands ≠ []) (hp : p.Tallies good spec ran)
      (hi : spec.commands.length ≤ p.index)
      (hr : ∃ ms, r = ⟨spec.name, p.status, p.outcomes, p.failure, ms⟩) :
      Ends good spec r ran (.provisioned spec.name spec.digest ::
        ran.map (.ofOutcome spec.name) ++
          (trouble.toList.map (.teardownError spec.name) ++ [.ofResult r]))

namespace Task

variable {good : CommandOutcome → Prop} {f : Facilities} {t t' : Task} {es new : List Event}
  {installs : List Install}

/-- A task with a context has told of that and of the outcomes of its commands. -/
def Recounts (good : CommandOutcome → Prop) (spec : EnvSpec) (p : Progress) (es : List Event) :
    Prop :=
  spec.commands ≠ [] ∧ ∃ ran, p.Tallies good spec ran ∧
    es = .provisioned spec.name spec.digest :: ran.map (.ofOutcome spec.name)

/-- What a task has told of so far. -/
def Tells (good : CommandOutcome → Prop) (t : Task) (es : List Event) : Prop :=
  match t.phase with
  | .fresh => es = []
  | .provisioning s => t.spec.commands ≠ [] ∧ s.metadata.digest = t.spec.digest ∧ es = []
  | .commands _ p => Recounts good t.spec p es
  | .awaiting _ p _ => Recounts good t.spec p es ∧ p.stopped = false ∧
    p.index < t.spec.commands.length
  | .closing _ p => Recounts good t.spec p es ∧ t.spec.commands.length ≤ p.index ∧
    t.life = p.status
  | .finished r => ∃ ran, r.Ends good t.spec ran es
  | .aborted => True

theorem Recounts.record {spec : EnvSpec} {p : Progress} (h : Recounts good spec p es)
    (hf : f.Gives good) (hs : p.stopped = false) (hi : p.index < spec.commands.length)
    {o : CommandOutcome} (ho : o.Stems f p.index) :
    Recounts good spec (p.record spec.continueOnError o) (es ++ [.ofOutcome spec.name o]) := by
  obtain ⟨hn, ran, hp, rfl⟩ := h
  have hindex : o.index = p.index := by cases ho <;> rfl
  exact ⟨hn, ran ++ [o], hp.record hs hi hindex (hf _ o ho), by simp⟩

theorem Recounts.waive {spec : EnvSpec} {p q : Progress} (h : Recounts good spec p es)
    {command : Command} (hc : spec.commands[p.index]? = some command)
    (ho : q.outcomes = p.outcomes ++ [.skipped p.index command.display]) (hs : q.stopped = true)
    (hf : q.failure ≠ none) : Recounts good spec q (es ++ []) := by
  obtain ⟨hn, ran, hp, rfl⟩ := h
  have hi := (List.getElem?_eq_some_iff.1 hc).1
  exact ⟨hn, ran, hp.waive ho hs hf hi, List.append_nil _⟩

/-- Every way to act keeps what was told so far. -/
theorem Act.tells (h : Act f t installs t' new) (hf : f.Gives good) (ht : t.Tells good es) :
    t'.Tells good (es ++ new) := by
  unfold Tells at ht
  cases h with
  | skip hp =>
    rw [hp] at ht
    subst ht
    exact ⟨[], .unstarted⟩
  | pass ms hp hn =>
    rw [hp] at ht
    subst ht
    exact ⟨[], .through ms hn⟩
  | provision s hp hn hs hm =>
    rw [hp] at ht
    subst ht
    obtain ⟨date, hm⟩ := hm
    exact ⟨hn, by rw [hm]; rfl, rfl⟩
  | build hp hs =>
    rw [hp] at ht
    obtain ⟨hn, hd, rfl⟩ := ht
    exact ⟨hn, by rw [hs.metadata, hd], rfl⟩
  | fail failure ms hp =>
    rw [hp] at ht
    obtain ⟨hn, -, rfl⟩ := ht
    exact ⟨[], .unbuilt failure ms hn⟩
  | enter hp =>
    rw [hp] at ht
    obtain ⟨hn, hd, rfl⟩ := ht
    exact ⟨hn, [], Progress.start_tallies good t.spec, by rw [hd]; rfl⟩
  | waive hp hc hs =>
    rw [hp] at ht
    obtain ⟨ran, htallies, -⟩ := ht.2
    exact ht.waive hc rfl hs (htallies.stopped hs)
  | halt hp hc hs =>
    rw [hp] at ht
    exact ht.waive hc rfl rfl (Option.some_ne_none _)
  | outcome hp hi hs ho =>
    rw [hp] at ht
    exact ht.record hf hs hi ho
  | launch r hp hi hs =>
    rw [hp] at ht
    exact ⟨by rwa [List.append_nil], hs, hi⟩
  | collect hp ho =>
    rw [hp] at ht
    exact ht.1.record hf ht.2.1 ht.2.2 ho
  | abort => trivial
  | leave hp hi =>
    rw [hp] at ht
    exact ⟨by rwa [List.append_nil], hi, rfl⟩
  | close trouble r hp hr =>
    rw [hp] at ht
    obtain ⟨⟨hn, ran, htallies, rfl⟩, hi, hlife⟩ := ht
    exact ⟨ran, .ran trouble hn htallies hi (hlife ▸ hr)⟩

theorem Course.tells {spec : EnvSpec} {xs : List Scene} (h : Course spec xs t)
    (hx : ∀ x ∈ xs, x.facilities.Gives good) : ∃ es, t.Tells good es := by
  induction h with
  | start x => exact ⟨[], rfl⟩
  | step x _ hs ih =>
    obtain ⟨es, hes⟩ := ih fun y hy => hx y (List.mem_append_left [x] hy)
    obtain ⟨new, hact, -⟩ := step_acts hs
    exact ⟨es ++ new, hact.tells (hx x (by simp)) hes⟩

theorem Yields.ends {spec : EnvSpec} {xs : List Scene} {r : EnvResult} (h : Yields xs spec r)
    (hx : ∀ x ∈ xs, x.facilities.Gives good) : ∃ ran es, r.Ends good spec ran es := by
  obtain ⟨t, ⟨ys, hys, hcourse⟩, hr⟩ := h
  obtain ⟨es, hes⟩ := hcourse.tells fun y hy => hx y (hys.subset hy)
  rw [Tells, hr, hcourse.names.1] at hes
  obtain ⟨ran, hends⟩ := hes
  exact ⟨ran, es, hends⟩

end Task

/-! ### The entries of a run -/

/-- An entry is what the task of its environment came to, or says that the task died. -/
def EnvResult.Answers (xs : List Scene) (spec : EnvSpec) (e : EnvResult) : Prop :=
  Task.Yields xs spec e ∨ e = .aborted spec.name

theorem Pool.Accounted.entries {permits : Nat} {specs : List EnvSpec} {cs : Nat → List Scene}
    {xs : List Scene} {p : Pool} (h : Accounted permits specs cs p) (hsub : ∀ k, (cs k).Sublist xs)
    (ho : p.isOver = true) :
    List.Forall₂ (EnvResult.Answers xs) specs p.results := by
  rw [List.forall₂_iff_get]
  refine ⟨h.length_results.symm, fun i hi hi' => ?_⟩
  obtain ⟨job, entry, -, hr, ha⟩ := h.answers ho (List.getElem?_eq_getElem hi)
  have hentry : p.results[i] = entry := by simpa [List.getElem?_eq_getElem hi'] using hr
  rw [List.get_eq_getElem, List.get_eq_getElem, hentry]
  exact ha.imp (fun h => h.2.yields (hsub i)) And.right

namespace Run

theorem Sets.entries {permits : Nat} {specs : List EnvSpec} {crew : Crew}
    (h : Sets permits specs crew) (w : World) (moves : List Move)
    (ho : (crew.after w moves).1.isOver = true) :
    List.Forall₂ (EnvResult.Answers (crew.scenes w moves)) specs
      (crew.after w moves).1.results := by
  rcases h with rfl | rfl
  · obtain ⟨r, hr, ha⟩ := Crew.row_accounted specs w moves
    rw [hr] at ho ⊢
    exact ((ha.allFinish ho).yields (Crew.course_sublist · _ w moves)).imp fun _ _ => .inl
  · obtain ⟨p, hp, ha⟩ := Crew.pool_accounted permits specs w moves
    rw [hp] at ho ⊢
    exact ha.entries (Crew.course_sublist · _ w moves) ho

end Run

/-- An environment with what a run overrides. -/
def RunOptions.override (o : RunOptions) (spec : EnvSpec) : EnvSpec :=
  { spec with continueOnError := o.continueOnError.getD spec.continueOnError }

/-- Whether an environment goes on after errors does not show in how it may end. -/
theorem EnvResult.Ends.of_override {good : CommandOutcome → Prop} {o : RunOptions} {spec : EnvSpec}
    {e : EnvResult} {ran : List CommandOutcome} {es : List Event}
    (h : e.Ends good (o.override spec) ran es) : e.Ends good spec ran es := by
  cases h with
  | unstarted => exact .unstarted
  | through ms hn => exact .through ms hn
  | unbuilt failure ms hn => exact .unbuilt failure ms hn
  | ran trouble hn hp hi hr =>
    exact .ran trouble hn ⟨hp.outcomes, hp.good, hp.count, hp.indexed, hp.failure, hp.stopped⟩ hi hr

namespace Run

variable {c : Config} {s : Selection} {o : RunOptions} {runId : Uuid} {w : World}
  {moves : List Move} {rep : Report} {good : CommandOutcome → Prop}

theorem specs_eq {found chosen : List EnvSpec} (hf : s.resolve c = .ok found)
    (hs : specs c s o = .ok chosen) : chosen = found.map o.override := by
  rw [specs, hf] at hs
  cases hs
  rfl

theorem facilities_of_mem_scenes {kind : Facilities → Prop} (hm : ∀ m ∈ moves, m.Uses kind) :
    ∀ x ∈ scenes c s o w moves, kind x.facilities := by
  unfold scenes
  split
  · exact Crew.facilities_of_mem_scenes hm
  · simp

/-- The entries of a report are those of the selected environments, under what the run overrides. -/
theorem reported_answers (h : (after c s o runId w moves).1 = .ended (.reported rep)) :
    ∃ found, s.resolve c = .ok found ∧ List.Forall₂ (fun spec e =>
      e.Answers (scenes c s o w moves) (o.override spec)) found rep.environments := by
  have hb := begin_begins c s o w
  rw [after] at h
  rw [scenes]
  generalize begin c s o w = x at hb h
  cases hb with
  | refuse | overflow => cases h
  | go found chosen crew w' _ _ hfound hspecs _ hcrew _ =>
    obtain ⟨hover, henvs⟩ := conclude_reported h
    have hentries := hcrew.entries w' moves hover
    rw [← henvs, specs_eq hfound hspecs, List.forall₂_map_left_iff] at hentries
    exact ⟨found, hfound, hentries⟩

/-- Every selected environment has its entry, that of a task which came to its end or died. -/
theorem reported_ends (h : (after c s o runId w moves).1 = .ended (.reported rep))
    (hm : ∀ m ∈ moves, m.Uses (·.Gives good)) :
    ∃ found, s.resolve c = .ok found ∧ List.Forall₂ (fun spec e =>
      (∃ ran es, e.Ends good spec ran es) ∨ e = .aborted spec.name) found rep.environments := by
  obtain ⟨found, hfound, hanswers⟩ := reported_answers h
  refine ⟨found, hfound, hanswers.imp fun spec e he => he.imp_left fun hy => ?_⟩
  obtain ⟨ran, es, hends⟩ := hy.ends (facilities_of_mem_scenes hm)
  exact ⟨ran, es, hends.of_override⟩

end Run

/-! ### One outcome for each command -/

/-- One outcome for each command, at its own index. -/
structure EnvResult.Complete (spec : EnvSpec) (e : EnvResult) : Prop where
  length : e.outcomes.length = spec.commands.length
  index : ∀ (i : Nat) (o : CommandOutcome), e.outcomes[i]? = some o → o.index = i

theorem EnvResult.complete_iff_of_nil {spec : EnvSpec} {e : EnvResult} (h : e.outcomes = []) :
    e.Complete spec ↔ spec.commands = [] := by
  refine ⟨fun hc => ?_, fun hn => ⟨by simp [h, hn], fun i o hi => by simp [h] at hi⟩⟩
  have hlen := hc.length
  rw [h] at hlen
  exact List.eq_nil_of_length_eq_zero hlen.symm

theorem Progress.status_cases (p : Progress) : p.status = .succeeded ∨ p.status = .failed := by
  unfold status
  split <;> simp

theorem Progress.status_ne_skipped (p : Progress) : p.status ≠ .skipped := by
  rcases p.status_cases with h | h <;> simp [h]

/-- Only where it was passed over does an environment that came to an end lack outcomes. -/
theorem EnvResult.Ends.complete {good : CommandOutcome → Prop} {spec : EnvSpec} {e : EnvResult}
    {ran : List CommandOutcome} {es : List Event} (h : e.Ends good spec ran es)
    (hs : e.status ≠ .skipped) : e.Complete spec := by
  cases h with
  | unstarted => exact absurd rfl hs
  | through ms hn => exact (complete_iff_of_nil rfl).2 hn
  | unbuilt failure ms hn =>
    refine ⟨by simp [Task.unbuilt, Task.skipped], fun i o hi => ?_⟩
    obtain ⟨command, -, rfl⟩ : ∃ command, spec.commands[i]? = some command ∧
        CommandOutcome.skipped i command.display = o := by
      simpa [Task.unbuilt, Task.skipped, List.getElem?_mapIdx] using hi
    rfl
  | ran trouble hn hp hi hr =>
    obtain ⟨ms, rfl⟩ := hr
    exact ⟨Nat.le_antisymm hp.count hi, hp.indexed⟩

theorem EnvResult.Ends.complete_iff {good : CommandOutcome → Prop} {spec : EnvSpec} {e : EnvResult}
    {ran : List CommandOutcome} {es : List Event} (h : e.Ends good spec ran es) :
    e.Complete spec ↔ spec.commands = [] ∨ e.status ≠ .skipped ∧ e ≠ .aborted spec.name := by
  by_cases hs : e.status = .skipped
  · have hnil : e.outcomes = [] := by
      cases h with
      | unstarted => rfl
      | through => rfl
      | unbuilt => cases hs
      | ran _ _ _ _ hr =>
        obtain ⟨ms, rfl⟩ := hr
        exact absurd hs (Progress.status_ne_skipped _)
    rw [complete_iff_of_nil hnil]
    simp [hs]
  · have hcomplete := h.complete hs
    refine iff_of_true hcomplete ((Classical.em _).imp_right fun hn => ⟨hs, fun ha => hn ?_⟩)
    exact (complete_iff_of_nil (by rw [ha]; rfl)).1 hcomplete

namespace Run

/-- In a report an entry has one outcome for each command of its environment, at its own index, just
when there are no commands or the environment was neither passed over nor lost with its task: both
of these leave an entry without outcomes. -/
theorem reported_complete_iff (c : Config) (s : Selection) (o : RunOptions) (runId : Uuid)
    (w : World) (moves : List Move) {rep : Report}
    (h : (after c s o runId w moves).1 = .ended (.reported rep)) :
    ∃ found, s.resolve c = .ok found ∧ List.Forall₂ (fun spec e => e.Complete spec ↔
      spec.commands = [] ∨ e.status ≠ .skipped ∧ e ≠ .aborted spec.name)
        found rep.environments := by
  have hany : ∀ m ∈ moves, m.Uses (·.Gives fun _ => True) := fun m _ =>
    Move.uses_of_forall Facilities.gives_any m
  obtain ⟨found, hfound, hends⟩ := reported_ends h hany
  refine ⟨found, hfound, hends.imp fun spec e he => ?_⟩
  rcases he with ⟨ran, es, he⟩ | rfl
  · exact he.complete_iff
  · rw [EnvResult.complete_iff_of_nil rfl]
    simp

/-- The run is cancelled before its one environment begins: the command has no outcome. -/
theorem reported_complete_iff_cancelled :
    let o : RunOptions := ⟨none, none, none, []⟩
    let moves : List Move := .cancel :: List.replicate 3 (.turn .willing 0)
    ∃ rep spec, (after toolbox .all o .nil (.start default) moves).1 = .ended (.reported rep) ∧
      toolbox.environments = [spec] ∧ spec.commands.length = 1 ∧
      rep.environments = [.unstarted "a"] ∧ ¬ (EnvResult.unstarted "a").Complete spec := by
  intro o moves
  have hrun : ∃ rep spec, (after toolbox .all o .nil (.start default) moves).1 =
        .ended (.reported rep) ∧ toolbox.environments = [spec] ∧
      Selection.all.resolve toolbox = .ok toolbox.environments ∧ spec.commands.length = 1 ∧
      rep.environments = [.unstarted "a"] := ⟨_, _, rfl, rfl, rfl, rfl, rfl⟩
  obtain ⟨rep, spec, hrep, hspec, hresolve, hlen, hentries⟩ := hrun
  refine ⟨rep, spec, hrep, hspec, hlen, hentries, fun hcomplete => ?_⟩
  obtain ⟨found, hfound, hall⟩ := reported_complete_iff toolbox .all o .nil (.start default) moves hrep
  rw [hresolve, hspec] at hfound
  cases hfound
  rw [hentries] at hall
  cases hall with
  | cons hiff _ =>
    rcases hiff.1 hcomplete with hnil | ⟨hs, -⟩
    · simp [hnil] at hlen
    · exact hs rfl

end Run

end Testbed
