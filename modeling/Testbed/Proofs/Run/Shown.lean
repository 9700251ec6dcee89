import Testbed.Proofs.Command.Display
import Testbed.Proofs.Config.Refusal
import Testbed.Proofs.Run.Entry

/-! What the lines stand for that show commands. In a report a command that did not start is shown
as it is declared, and one whose program was run is shown as it was run, with its placeholders
replaced; the error about a requirement shows a command as it is declared. Each line is the display
of one argument vector and of no other. So lines that look alike stand for the same arguments, and
two commands of one environment can be shown alike only where they are declared, or become, the
same. -/
namespace Testbed

/-- The context is that of an environment, for which placeholders stand. -/
structure Context.BelongsTo (p : Provisioner) (env : String) (c : Context) : Prop where
  name : c.name = env
  dir : c.dir = p.envDir env
  root : c.root = p.root

/-- The outcome of a command of an environment shows these arguments: those that are declared, or
what they became when the program was run. -/
inductive CommandOutcome.Shows (p : Provisioner) (posargs : List String) (env : String)
    (declared : List String) : CommandOutcome → List String → Prop
  | skipped (i : Nat) :
      Shows p posargs env declared (.skipped i (Command.displayArgv declared)) declared
  | errored (i : Nat) (message : String) :
      Shows p posargs env declared (.errored i (Command.displayArgv declared) message) declared
  | ran {c : Context} (hc : c.BelongsTo p env) (e : ExitOutcome) (i : Nat) :
      Shows p posargs env declared
        (e.toOutcome i (Command.displayArgv (Placeholders.expand c posargs declared)))
        (Placeholders.expand c posargs declared)

theorem CommandOutcome.Shows.identifies {p : Provisioner} {posargs declared argv : List String}
    {env : String} {o : CommandOutcome} (h : o.Shows p posargs env declared argv) :
    Command.Identifies o.display argv := by
  cases h <;> exact Command.identifies_displayArgv _

/-- Every outcome shows the command at its place. -/
def EnvSpec.Shown (p : Provisioner) (posargs : List String) (spec : EnvSpec)
    (outcomes : List CommandOutcome) : Prop :=
  ∀ (i : Nat) (o : CommandOutcome), outcomes[i]? = some o →
    ∃ command argv, spec.commands[i]? = some command ∧
      o.Shows p posargs spec.name command.argv argv

namespace EnvSpec

variable {p : Provisioner} {posargs argv : List String} {spec : EnvSpec}
  {outcomes : List CommandOutcome} {o : CommandOutcome} {command : Command}

theorem shown_nil (p : Provisioner) (posargs : List String) (spec : EnvSpec) :
    spec.Shown p posargs [] := fun i o h => by simp at h

theorem Shown.concat (h : spec.Shown p posargs outcomes)
    (hc : spec.commands[outcomes.length]? = some command)
    (ho : o.Shows p posargs spec.name command.argv argv) :
    spec.Shown p posargs (outcomes ++ [o]) :=
  CommandOutcome.forall_concat h ⟨command, argv, hc, ho⟩

theorem shown_skipped (p : Provisioner) (posargs : List String) (spec : EnvSpec) :
    spec.Shown p posargs (Task.skipped spec) := by
  intro i o h
  obtain ⟨command, hc, rfl⟩ : ∃ command, spec.commands[i]? = some command ∧
      CommandOutcome.skipped i command.display = o := by
    simpa [Task.skipped, List.getElem?_mapIdx] using h
  exact ⟨command, command.argv, hc, .skipped i⟩

end EnvSpec

namespace Task

variable {p : Provisioner} {posargs argv : List String} {f : Facilities} {t t' : Task}
  {w w' : World} {c : Context} {q : Progress} {r : Running} {command : Command}

/-- All that a task keeps for its entry shows its commands. -/
def Shown (p : Provisioner) (posargs : List String) (t : Task) : Prop :=
  match t.phase with
  | .provisioning s => s.name = t.spec.name
  | .commands c q => c.BelongsTo p t.spec.name ∧ t.spec.Shown p posargs q.outcomes
  | .awaiting c q r => c.BelongsTo p t.spec.name ∧ t.spec.Shown p posargs q.outcomes ∧
    ∃ command, t.spec.commands[q.index]? = some command ∧
      r.argv = Placeholders.expand c posargs command.argv
  | .closing _ q => t.spec.Shown p posargs q.outcomes
  | .finished r => t.spec.Shown p posargs r.outcomes
  | .fresh | .aborted => True

/-- A task that comes to a command has its context, and shows those before. -/
structure Turns (p : Provisioner) (posargs : List String) (t : Task) (c : Context) (q : Progress)
    (command : Command) : Prop where
  context : c.BelongsTo p t.spec.name
  shown : t.spec.Shown p posargs q.outcomes
  next : t.spec.commands[q.index]? = some command

theorem Turns.record (h : t.Turns p posargs c q command) {o : CommandOutcome}
    (ho : o.Shows p posargs t.spec.name command.argv argv) :
    (t.record w c q o).1.Shown p posargs := by
  refine ⟨h.context, ?_⟩
  rw [Progress.record_outcomes]
  exact h.shown.concat h.next ho

theorem Turns.settle (h : t.Turns p posargs c q command) (path : Path) (reply : RunReply)
    (w : World) :
    (t.settle w c q command (Placeholders.expand c posargs command.argv) path reply).1.Shown p
      posargs := by
  unfold Task.settle
  dsimp only
  split
  next e _ => exact h.record (.ran h.context e q.index)
  next => exact h.record (.errored q.index _)
  next => trivial

theorem Turns.runCommand (h : t.Turns p posargs c q command) (hf : f.posargs = posargs)
    (w : World) : (t.runCommand f w c q command).1.Shown p posargs := by
  subst hf
  unfold Task.runCommand
  split
  next => exact h.record (.errored q.index _)
  next program args hargv =>
    split
    next => exact h.record (.errored q.index _)
    next path _ =>
      rw [← hargv]
      unfold launch
      dsimp only
      split
      · exact h.settle path _ _
      · exact ⟨h.context, h.shown, command, h.next, rfl⟩
      · exact ⟨h.context, h.shown, command, h.next, rfl⟩

theorem proceed_shown (hc : c.BelongsTo p t.spec.name) (hq : t.spec.Shown p posargs q.outcomes)
    (hf : f.posargs = posargs) (w : World) : (t.proceed f w c q).1.Shown p posargs := by
  unfold proceed
  split
  next =>
    simp only [advance_fst]
    exact hq
  next command hnext =>
    have hskipped := hq.concat hnext (.skipped q.index)
    split
    · exact ⟨hc, hskipped⟩
    · split
      · exact ⟨hc, hskipped⟩
      · exact Turns.runCommand ⟨hc, hq, hnext⟩ hf w

theorem attend_shown (h : t.Turns p posargs c q command)
    (hr : r.argv = Placeholders.expand c posargs command.argv)
    (hm : t.attend f w c q r = .moved t' w') : t'.Shown p posargs := by
  have hended (cutAt : Option Nat) := h.settle r.invocation.path
    ((executableFor f r.executable).run w.host r.invocation cutAt) w
  unfold attend at hm
  rw [h.next, hr] at hm
  dsimp only [Option.getD_some] at hm
  split at hm
  · cases hm
    exact hended _
  · split at hm
    · split at hm
      · cases hm
        exact hended _
      · cases hm
    · cases hm

theorem step_shown (hf : f.provisioner = p ∧ f.posargs = posargs) (ht : t.Shown p posargs)
    (h : t.step f w = .moved t' w') : t'.Shown p posargs := by
  have hcommands (c : Context) (q : Progress) (hphase : t.phase = .commands c q) :
      t'.Shown p posargs := by
    rw [Shown, hphase] at ht
    obtain ⟨w₁, h₁, -⟩ := step_of_stepIn h
    rw [stepIn, hphase] at h₁
    cases h₁
    exact proceed_shown ht.1 ht.2 hf.2 _
  have hawaiting (c : Context) (q : Progress) (r : Running) (hphase : t.phase = .awaiting c q r) :
      t'.Shown p posargs := by
    rw [Shown, hphase] at ht
    obtain ⟨hc, hq, command, hnext, hr⟩ := ht
    obtain ⟨w₁, h₁, -⟩ := step_of_stepIn h
    rw [stepIn, hphase] at h₁
    exact attend_shown ⟨hc, hq, hnext⟩ hr h₁
  obtain ⟨es, hact, -⟩ := step_acts h
  unfold Shown at ht
  -- a way to act says what an outcome stems from, but not what it shows
  cases hact with
  | skip | pass => exact EnvSpec.shown_nil p posargs t.spec
  | provision s _ _ hs => exact hs
  | build hphase hs =>
    rw [hphase] at ht
    exact hs.name.trans ht
  | fail => exact EnvSpec.shown_skipped p posargs t.spec
  | enter hphase =>
    rw [hphase] at ht
    obtain ⟨rfl, rfl⟩ := hf
    exact ⟨⟨ht, congrArg f.provisioner.envDir ht, rfl⟩, EnvSpec.shown_nil _ _ t.spec⟩
  | waive hphase | halt hphase | outcome hphase | launch _ hphase | leave hphase =>
    exact hcommands _ _ hphase
  | collect hphase => exact hawaiting _ _ _ hphase
  | abort => trivial
  | close _ r hphase hr =>
    rw [hphase] at ht
    obtain ⟨ms, rfl⟩ := hr
    exact ht

theorem Course.shown {spec : EnvSpec} {xs : List Scene} (h : Course spec xs t)
    (hx : ∀ x ∈ xs, x.facilities.provisioner = p ∧ x.facilities.posargs = posargs) :
    t.Shown p posargs := by
  induction h with
  | start x => trivial
  | step x _ hs ih =>
    have hbefore := ih fun y hy => hx y (List.mem_append_left [x] hy)
    exact step_shown (hx x (by simp)) hbefore hs

theorem Yields.shown {spec : EnvSpec} {xs : List Scene} {e : EnvResult} (h : Yields xs spec e)
    (hx : ∀ x ∈ xs, x.facilities.provisioner = p ∧ x.facilities.posargs = posargs) :
    spec.Shown p posargs e.outcomes := by
  obtain ⟨t, ⟨ys, hys, hcourse⟩, he⟩ := h
  have ht := hcourse.shown fun y hy => hx y (hys.subset hy)
  rwa [Shown, he, hcourse.names.1] at ht

end Task

namespace Run

/-- The facilities put in what the run has for placeholders. -/
def Fills (c : Config) (o : RunOptions) (f : Facilities) : Prop :=
  f.provisioner = provisioner c o ∧ f.posargs = o.posargs

theorem reported_shown {c : Config} {s : Selection} {o : RunOptions} {runId : Uuid} {w : World}
    {moves : List Move} {rep : Report} (hm : ∀ m ∈ moves, m.Uses (Fills c o))
    (h : (after c s o runId w moves).1 = .ended (.reported rep)) :
    ∃ found, s.resolve c = .ok found ∧ List.Forall₂ (fun spec e =>
      spec.Shown (provisioner c o) o.posargs e.outcomes) found rep.environments := by
  obtain ⟨found, hfound, hanswers⟩ := reported_answers h
  refine ⟨found, hfound, hanswers.imp fun spec e he => ?_⟩
  rcases he with hyields | rfl
  · exact hyields.shown (facilities_of_mem_scenes hm)
  · exact EnvSpec.shown_nil _ _ spec

/-- A display is that of one argument vector. So the error about a requirement identifies a command
of the tables, and each outcome in the report of a run, under any schedule, identifies the command
at its place, as that is declared or as it was run. -/
theorem displays_identify :
    (∀ a b : List String, (Command.ofArgv a).display = (Command.ofArgv b).display ↔ a = b) ∧
    (∀ (root : Path) (file : Config.File) (env line reference : String),
      Config.ofFile root file = .error (.unknownReference env line reference) →
        ∃ argv, file.Blames env reference argv ∧ Command.Identifies line argv) ∧
    ∀ (c : Config) (s : Selection) (o : RunOptions) (runId : Uuid) (w : World) (moves : List Move)
      (rep : Report), (∀ m ∈ moves, m.Uses (Fills c o)) →
      (after c s o runId w moves).1 = .ended (.reported rep) →
        ∃ found, s.resolve c = .ok found ∧ List.Forall₂ (fun spec e =>
          ∀ (i : Nat) (outcome : CommandOutcome), e.outcomes[i]? = some outcome →
            ∃ command argv, spec.commands[i]? = some command ∧
              outcome.Shows (provisioner c o) o.posargs spec.name command.argv argv ∧
              Command.Identifies outcome.display argv) found rep.environments := by
  refine ⟨fun a b => Command.displayArgv_inj, fun root file env line reference h => ?_,
    fun c s o runId w moves rep hm h => ?_⟩
  · obtain ⟨argv, hblames, rfl⟩ := Config.ofFile_unknownReference h
    exact ⟨argv, hblames, Command.identifies_displayArgv argv⟩
  · obtain ⟨found, hfound, hshown⟩ := reported_shown hm h
    refine ⟨found, hfound, hshown.imp fun spec e he i outcome hi => ?_⟩
    obtain ⟨command, argv, hcommand, hshows⟩ := he i outcome hi
    exact ⟨command, argv, hcommand, hshows, hshows.identifies⟩

/-- Two commands that only quotes tell apart. -/
def spaced : Config :=
  ⟨⟨"/"⟩, ⟨⟨"/.envrun"⟩, none, 1, false, InstallCommand.default, [0]⟩,
    [⟨"a", none, [], [.ofArgv ["a b"], .ofArgv ["a", "b"]], [], [], none, false, 0⟩]⟩

/-- The first of them requires what is not declared. -/
def spacedFile : Config.File where
  settings := .empty
  base := ⟨none, none, [], [], [], [], none, none, none⟩
  envs := [⟨some "a", none, [], [⟨.argv ["a b"], false, ["x"]⟩, ⟨.argv ["a", "b"], false, []⟩], [],
    [], none, none, none⟩]

/-- The file is refused, and without the requirement the run is cancelled during provisioning. -/
theorem displays_identify_spaced :
    let o : RunOptions := ⟨none, none, none, []⟩
    let f : Facilities :=
      ⟨provisioner spaced o, Rehearsal.installer [], .ambient .idle, .isolated .idle,
        o.posargs⟩
    let moves : List Move := [.turn f 0, .turn f 0, .cancel, .turn f 0, .turn f 0]
    (Command.ofArgv ["a b"]).display ≠ (Command.ofArgv ["a", "b"]).display ∧
    Config.ofFile ⟨"/"⟩ spacedFile = .error (.unknownReference "a" "'a b'" "x") ∧
    Command.Identifies "'a b'" ["a b"] ∧
    ∃ rep e, (after spaced .all o .nil (.start default) moves).1 = .ended (.reported rep) ∧
      rep.environments = [e] ∧ e.outcomes.map CommandOutcome.display = ["'a b'", "a b"] ∧
      Command.Identifies "a b" ["a", "b"] := by
  intro o f moves
  obtain ⟨hdisplay, hfile, hreport⟩ := displays_identify
  have hne : (Command.ofArgv ["a b"]).display ≠ (Command.ofArgv ["a", "b"]).display :=
    fun h => absurd ((hdisplay _ _).1 h) (by decide)
  have hrefused : Config.ofFile ⟨"/"⟩ spacedFile =
      .error (.unknownReference "a" "'a b'" "x") := by decide +kernel
  obtain ⟨argv, -, hline⟩ := hfile _ _ _ _ _ hrefused
  obtain rfl : ["a b"] = argv := (hline _).1 (by decide)
  have hrun : ∃ rep e, (after spaced .all o .nil (.start default) moves).1 =
      .ended (.reported rep) ∧ rep.environments = [e] ∧
        e.outcomes = [.skipped 0 "'a b'", .skipped 1 "a b"] := ⟨_, _, rfl, rfl, rfl⟩
  obtain ⟨rep, e, hrep, hentries, houtcomes⟩ := hrun
  have hm : ∀ m ∈ moves, m.Uses (Fills spaced o) := by
    have hfills : Fills spaced o f := ⟨rfl, rfl⟩
    simp [moves, Move.Uses, hfills]
  obtain ⟨found, -, hall⟩ := hreport spaced .all o .nil (.start default) moves rep hm hrep
  rw [hentries] at hall
  obtain ⟨spec, -, he⟩ := Config.exists_left_of_forall₂ hall List.mem_cons_self
  obtain ⟨command, argv, -, -, hidentifies⟩ := he 1 (.skipped 1 "a b") (by rw [houtcomes]; rfl)
  obtain rfl : ["a", "b"] = argv := (hidentifies _).1 (by decide)
  exact ⟨hne, hrefused, hline, rep, e, hrep, hentries, by rw [houtcomes]; rfl, hidentifies⟩

end Run

end Testbed
