import Testbed.Proofs.Config.Acceptance
import Testbed.Proofs.Program.Lookup
import Testbed.Proofs.Program.Spawn
import Testbed.Proofs.Run.Ending
import Testbed.Proofs.Run.Launch

/-! Commands keep to their contexts. A command is allowed a program from outside when it is declared
external or when the allow-list, of the base and of its environment together, has an entry for the
program it declares. Whatever the program becomes once placeholders are put in, every other command
is only ever started from inside the context of its environment, and where its program is found does
not depend on the variables of the host. -/
namespace Testbed

/-! ### Commands -/

/-- The facilities of a run, but for how sources are installed, what external programs are and what
becomes of a program that is started. -/
structure Facilities.Serves (f : Facilities) (c : Config) (o : RunOptions) : Prop where
  provisioner : f.provisioner = Run.provisioner c o
  isolated : f.isolated.resolve = Lookup.isolated
  posargs : f.posargs = o.posargs

namespace Task

variable {f : Facilities} {h : Host} {c : Context} {command : Command}

theorem eq_of_locate {path : Path} {program : String} {args : List String}
    (hl : locate f h c command = .ok (path, program, args)) :
    Placeholders.expand c f.posargs command.argv = program :: args ∧
      (executableFor f command.external).resolve h c program = .ok path := by
  unfold locate at hl
  split at hl
  next => cases hl
  next program' args' hargv =>
    cases hr : (executableFor f command.external).resolve h c program' with
    | error e => simp [hr, Except.map] at hl
    | ok path' =>
      simp only [hr, Except.map, Except.ok.injEq, Prod.mk.injEq] at hl
      obtain ⟨rfl, rfl, rfl⟩ := hl
      exact ⟨hargv, hr⟩

/-- A command that is not allowed an external program is started inside its context. -/
theorem confined_of_locate {path : Path} {program : String} {args : List String}
    (hf : f.isolated.resolve = Lookup.isolated) (he : command.external = false)
    (hl : locate f h c command = .ok (path, program, args)) :
    Lookup.Confined h c program path := by
  have hr := (eq_of_locate hl).2
  rw [he, executableFor, if_neg Bool.false_ne_true, hf] at hr
  exact Lookup.confined_of_isolated hr

/-- Two runs find the program of a command in the same place, or miss it in the same way, when the
files are the same and the command is not allowed an external one. -/
theorem locate_congr {cfg : Config} {o : RunOptions} {f' : Facilities} {h' : Host}
    (hf : f.Serves cfg o) (hf' : f'.Serves cfg o) (he : command.external = false)
    (ht : h'.tree = h.tree) (hc : h'.cwd = h.cwd) :
    locate f' h' c command = locate f h c command := by
  unfold locate
  rw [hf.posargs, hf'.posargs]
  simp only [executableFor, he, hf.isolated, hf'.isolated, Lookup.isolated_congr ht hc,
    Bool.false_eq_true, if_false]

end Task

/-! ### Runs -/

/-- The facilities of a move are of some kind. -/
def Move.Uses (kind : Facilities → Prop) : Move → Prop
  | .turn f _ | .race f _ | .kill f _ => kind f
  | .wait _ | .cancel | .meddle _ | .land _ => True

theorem Move.uses_of_forall {kind : Facilities → Prop} (h : ∀ f, kind f) (m : Move) :
    m.Uses kind := by
  cases m with
  | turn f | race f | kill f => exact h f
  | wait | cancel | meddle | land => trivial

theorem Move.Uses.imp {kind kind' : Facilities → Prop} {m : Move} (hm : m.Uses kind)
    (h : ∀ f, kind f → kind' f) : m.Uses kind' := by
  cases m with
  | turn f | race f | kill f => exact h f hm
  | wait | cancel | meddle | land => trivial

theorem Move.Uses.facilities {kind : Facilities → Prop} {m : Move} {w : World} {x : Scene}
    (hm : m.Uses kind) (hx : m.scene? w = some x) : kind x.facilities := by
  cases m with
  | turn f i | race f i =>
    cases hx
    exact hm
  | _ => cases hx

theorem Crew.facilities_of_mem_scenes {kind : Facilities → Prop} {c : Crew} {w : World}
    {moves : List Move} (hm : ∀ m ∈ moves, m.Uses kind) :
    ∀ x ∈ c.scenes w moves, kind x.facilities := by
  induction moves generalizing c w with
  | nil => exact fun x hx => absurd hx List.not_mem_nil
  | cons m moves ih =>
    intro x hx
    rw [scenes, List.mem_append] at hx
    rcases hx with hx | hx
    · exact (hm m List.mem_cons_self).facilities (by simpa using hx)
    · exact ih (fun m' hm' => hm m' (List.mem_cons_of_mem _ hm')) x hx

namespace Run

/-- The scenes of a run, in which an environment was looked at. -/
def scenes (c : Config) (s : Selection) (o : RunOptions) (w : World) (moves : List Move) :
    List Scene :=
  match begin c s o w with
  | (.going crew, w') => crew.scenes w' moves
  | (.ended _, _) => []

theorem begin_launches (c : Config) (s : Selection) (o : RunOptions) (w : World) :
    (begin c s o w).2.launches = w.launches := by
  unfold begin
  dsimp only
  split
  · rfl
  · split <;> rfl

theorem sayCasualties_launches (w : World) (n : Nat) :
    (sayCasualties w n).launches = w.launches := by
  induction n generalizing w with
  | zero => rfl
  | succ n ih => exact ih (w.note .warn none "Environment task aborted")

theorem conclude_launches (runId : Uuid) (origin : World) (c : Crew) (w : World) :
    (conclude runId origin c w).2.launches = w.launches := by
  unfold conclude
  split
  · rfl
  · split
    · exact sayCasualties_launches w c.casualties
    · rfl

theorem mem_launches (c : Config) (s : Selection) (o : RunOptions) (runId : Uuid) (w : World)
    (moves : List Move) : ∀ l ∈ (after c s o runId w moves).2.launches, l ∈ w.launches ∨
      ∃ chosen, specs c s o = .ok chosen ∧ l.ComesFrom (scenes c s o w moves) chosen := by
  have hb := begin_begins c s o w
  have hl := begin_launches c s o w
  rw [after, scenes]
  generalize begin c s o w = x at hb hl
  cases hb with
  | refuse => exact fun l hmem => .inl hmem
  | overflow => exact fun l hmem => .inl (hl ▸ hmem)
  | go found chosen crew w' _ _ _ hspecs _ hcrew _ =>
    intro l hmem
    dsimp only at hmem hl ⊢
    rw [conclude_launches] at hmem
    rw [← hl]
    exact (Crew.mem_launches hcrew w' moves l hmem).imp_right fun h => ⟨chosen, hspecs, h⟩

/-- A run overrides nothing but whether an environment goes on after errors. -/
theorem exists_overridden_of_mem_specs {c : Config} {s : Selection} {o : RunOptions}
    {chosen : List EnvSpec} (h : specs c s o = .ok chosen) {spec : EnvSpec} (hspec : spec ∈ chosen) :
    ∃ own ∈ c.environments,
      spec = { own with continueOnError := o.continueOnError.getD own.continueOnError } := by
  unfold specs at h
  cases hs : s.resolve c with
  | error name => simp [hs, Except.map] at h
  | ok found =>
    simp only [hs, Except.map, Except.ok.injEq] at h
    subst h
    obtain ⟨own, hown, rfl⟩ := List.mem_map.1 hspec
    exact ⟨own, (Selection.resolve_sublist hs).subset hown, rfl⟩

theorem exists_of_mem_specs {c : Config} {s : Selection} {o : RunOptions} {chosen : List EnvSpec}
    (h : specs c s o = .ok chosen) {spec : EnvSpec} (hspec : spec ∈ chosen) :
    ∃ own ∈ c.environments,
      spec.name = own.name ∧ spec.deps = own.deps ∧ spec.commands = own.commands := by
  obtain ⟨own, hown, rfl⟩ := exists_overridden_of_mem_specs h hspec
  exact ⟨own, hown, rfl, rfl, rfl⟩

/-- A launch is made by the task of a chosen environment, at one of its commands and in its
context. -/
theorem exists_starts {c : Config} {o : RunOptions} {chosen : List EnvSpec} {xs : List Scene}
    (hxs : ∀ x ∈ xs, x.facilities.provisioner = provisioner c o) {l : Launch}
    (hl : l.ComesFrom xs chosen) :
    ∃ x ∈ xs, ∃ t ctx p command program, t.spec ∈ chosen ∧ Task.Reaches xs t.spec t ∧
      t.Makes x l ∧ Task.Starts x.facilities x.world.host t ctx p command program l ∧
      l.env = t.spec.name ∧ ctx.name = l.env ∧ ctx.dir = (provisioner c o).envDir l.env := by
  obtain ⟨x, hx, spec, hspec, t, ⟨ys, hys, hcourse⟩, hmakes⟩ := hl
  obtain ⟨ctx, p, command, program, hstarts⟩ := hmakes.starts
  obtain rfl := hcourse.names.1
  have henv : l.env = t.spec.name := by rw [hstarts.launch]
  have hhome : ctx.name = t.spec.name ∧ ctx.dir = (provisioner c o).envDir t.spec.name := by
    have := hcourse.isHome fun y hy => hxs y (hys.subset hy)
    rwa [Task.IsHome, hstarts.phase] at this
  exact ⟨x, hx, t, ctx, p, command, program, hspec, ⟨ys, hys, hcourse⟩, hmakes, hstarts, henv,
    henv ▸ hhome⟩

/-- A launch goes back to an entry of the tables: it is made by a task whose next command is that of
the entry, in the context of the environment, with the placeholders put in. -/
structure Traces (file : Config.File) (c : Config) (o : RunOptions) (own : Config.EnvTable)
    (entry : Config.CommandEntry) (argv : List String) (x : Scene) (t : Task) (ctx : Context)
    (program : String) (l : Launch) : Prop where
  makes : t.Makes x l
  phase : ∃ p, t.phase = .commands ctx p ∧
    (file.base.commands ++ own.commands)[p.index]? = some entry
  env : own.name = some l.env
  context : ctx.name = l.env ∧ ctx.dir = (provisioner c o).envDir l.env
  means : entry.run.Means argv
  expands : Placeholders.expand ctx o.posargs argv = program :: l.args

theorem exists_traces {root : Path} {file : Config.File} {c : Config}
    (hc : Config.ofFile root file = .ok c) {s : Selection} {o : RunOptions}
    {chosen : List EnvSpec} (hchosen : specs c s o = .ok chosen) {xs : List Scene}
    (hxs : ∀ x ∈ xs, x.facilities.Serves c o) {l : Launch} (hl : l.ComesFrom xs chosen) :
    ∃ x ∈ xs, ∃ own ∈ file.envs, ∃ entry argv t ctx program,
      Task.Reaches xs t.spec t ∧ Traces file c o own entry argv x t ctx program l ∧
        (¬ Config.Allowed file.base own entry (argv.headD "") →
          l.external = false ∧ Lookup.Confined x.world.host ctx program l.path) := by
  obtain ⟨x, hx, t, ctx, p, command, program, hspec, hreach, hmakes, hstarts, henv, hhome⟩ :=
    exists_starts (fun x hx => (hxs x hx).provisioner) hl
  have hserves := hxs x hx
  obtain ⟨spec', hspec', hname, -, hcommands⟩ := exists_of_mem_specs hchosen hspec
  obtain ⟨own, hown, hmerges⟩ := Config.exists_left_of_forall₂ (Config.ofFile_merges hc) hspec'
  obtain ⟨entry, hentry, hreads, hexternal⟩ :=
    Config.getElem?_of_forall₂ hmerges.commands (hcommands ▸ hstarts.turn)
  obtain ⟨hexpands, -⟩ := Task.eq_of_locate hstarts.located
  refine ⟨x, hx, own, hown, entry, command.argv, t, ctx, program, hreach,
    ⟨hmakes, ⟨p, hstarts.phase, hentry⟩, ?_, hhome, hreads.means, ?_⟩, fun hnot => ?_⟩
  · rw [hmerges.name, henv, hname]
  · rw [← hserves.posargs, hexpands]
  · have hinternal : command.external = false :=
      Bool.eq_false_iff.2 fun h => hnot ((hmerges.external_iff hexternal).1 h)
    refine ⟨by rw [hstarts.launch]; exact hinternal, ?_⟩
    exact Task.confined_of_locate hserves.isolated hinternal hstarts.located

/-- A command that keeps to a context, whatever stands on the host: its program is found inside or
not at all, and two runs that see the same files find the same, or fail alike. -/
structure Keeps (c : Config) (o : RunOptions) (command : Command) (ctx : Context) : Prop where
  confined : ∀ (f : Facilities) (h : Host) (path : Path) (program : String) (args : List String),
    f.Serves c o → Task.locate f h ctx command = .ok (path, program, args) →
      Lookup.Confined h ctx program path
  blind : ∀ (f f' : Facilities) (h h' : Host), f.Serves c o → f'.Serves c o → h'.tree = h.tree →
    h'.cwd = h.cwd → Task.locate f' h' ctx command = Task.locate f h ctx command

/-- Every command of an environment that may not use an external program keeps to its context, and
under any schedule all that a run starts are programs of commands, found in the contexts of their
own environments unless they may use external ones. -/
theorem isolates {root : Path} {file : Config.File} {c : Config}
    (hc : Config.ofFile root file = .ok c) (o : RunOptions) :
    List.Forall₂ (fun own spec => List.Forall₂ (fun entry command => entry.run.Means command.argv ∧
        (¬ Config.Allowed file.base own entry command.program → ∀ ctx, Keeps c o command ctx))
      (file.base.commands ++ own.commands) spec.commands) file.envs c.environments ∧
    ∀ (s : Selection) (runId : Uuid) (w : World) (moves : List Move),
      (∀ m ∈ moves, m.Uses (·.Serves c o)) →
      ∀ l ∈ (after c s o runId w moves).2.launches, l ∈ w.launches ∨
        ∃ x ∈ scenes c s o w moves, ∃ own ∈ file.envs, ∃ entry argv t ctx program,
          Task.Reaches (scenes c s o w moves) t.spec t ∧
          Traces file c o own entry argv x t ctx program l ∧
          (¬ Config.Allowed file.base own entry (argv.headD "") →
            l.external = false ∧ Lookup.Confined x.world.host ctx program l.path) := by
  constructor
  · refine (Config.ofFile_merges hc).imp fun own spec hmerges => ?_
    refine hmerges.commands.imp fun entry command ⟨hreads, hexternal⟩ => ?_
    refine ⟨hreads.means, fun hnot ctx => ?_⟩
    have hinternal : command.external = false :=
      Bool.eq_false_iff.2 fun h => hnot ((hmerges.external_iff hexternal).1 h)
    exact ⟨fun f h path program args hf => Task.confined_of_locate hf.isolated hinternal,
      fun f f' h h' hf hf' => Task.locate_congr hf hf' hinternal⟩
  · intro s runId w moves hm l hl
    refine (mem_launches c s o runId w moves l hl).imp_right ?_
    rintro ⟨chosen, hchosen, hcomes⟩
    refine exists_traces hc hchosen ?_ hcomes
    unfold scenes
    split
    · exact Crew.facilities_of_mem_scenes hm
    · simp

/-- One program is installed and asked for. -/
def toolFile : Config.File where
  settings := .empty
  base := ⟨none, none, [], [], [], [], none, none, none⟩
  envs := [⟨some "a", none, ["tool"], [⟨.line "tool \x7bposargs\x7d", false, []⟩], [], [], none,
    none, none⟩]

def toolbox : Config :=
  ⟨⟨"/"⟩, ⟨⟨"/.envrun"⟩, none, 1, false, InstallCommand.default, [0]⟩,
    [⟨"a", none, [.package "tool" "tool"], [⟨["tool", "\x7bposargs\x7d"], false, []⟩], [], [], none,
      false, 0⟩]⟩

def toolTree : Host.Tree :=
  ⟨[([".envrun"], .directory), ([".envrun", "a"], .directory),
    ([".envrun", "a", "bin"], .directory),
    ([".envrun", "a", "bin", "tool"], .file (.tool "tool") 0o755)]⟩

theorem isExecutable_tool :
    Host.isExecutable ⟨toolTree, [], []⟩ ⟨"/.envrun/a/bin/tool"⟩ = true := by
  have hfollow : toolTree.follow true [] "/.envrun/a/bin/tool" =
      toolTree.walk true Host.Tree.maxLinks [] ["", ".envrun", "a", "bin", "tool"] := rfl
  rw [Host.isExecutable, Host.Tree.isExecutable, Host.Tree.stat, hfollow]
  cbv

theorem isolates_tool :
    let o : RunOptions := ⟨none, none, none, ["x"]⟩
    let f : Facilities :=
      ⟨provisioner toolbox o, Rehearsal.installer [], .ambient .idle, .isolated .idle,
        o.posargs⟩
    let ctx : Context :=
      ⟨"a", ⟨"/.envrun/a"⟩, ⟨"/"⟩, false, .ofDeclared "a" [] .epoch, ⟨"a", 0, true⟩⟩
    let command : Command := ⟨["tool", "\x7bposargs\x7d"], false, []⟩
    let found : Path × String × List String := (⟨"/.envrun/a/bin/tool"⟩, "tool", ["x"])
    Config.ofFile ⟨"/"⟩ toolFile = .ok toolbox ∧
      Task.locate f ⟨toolTree, [], []⟩ ctx command = .ok found ∧
      Task.locate f ⟨toolTree, [("PATH", "/bin")], []⟩ ctx command = .ok found ∧
      Lookup.Confined ⟨toolTree, [], []⟩ ctx "tool" ⟨"/.envrun/a/bin/tool"⟩ := by
  intro o f ctx command found
  have hc : Config.ofFile ⟨"/"⟩ toolFile = .ok toolbox := rfl
  have hf : f.Serves toolbox o := ⟨rfl, rfl, rfl⟩
  have hkeeps : ∀ ctx, Keeps toolbox o command ctx := by
    cases (isolates hc o).1 with
    | cons henv _ =>
      cases henv with
      | cons h _ => exact h.2 (by simp [Config.Allowed, toolFile])
  have hlocate : Task.locate f ⟨toolTree, [], []⟩ ctx command = .ok found := by
    have hresolve : (Task.executableFor f command.external).resolve ⟨toolTree, [], []⟩ ctx "tool" =
        .ok ⟨"/.envrun/a/bin/tool"⟩ := by
      have hbin : ctx.binDir.join "tool" = ⟨"/.envrun/a/bin/tool"⟩ := by decide
      have hpath : Lookup.isPathLike "tool" = false := rfl
      rw [Task.executableFor, if_neg Bool.false_ne_true, hf.isolated, Lookup.isolated,
        Lookup.isolated?, hpath, if_neg Bool.false_ne_true, hbin, Lookup.usable, isExecutable_tool]
      rfl
    have hexpand : Placeholders.expand ctx f.posargs command.argv = ["tool", "x"] := rfl
    rw [Task.locate, hexpand]
    dsimp only
    rw [hresolve]
    rfl
  have hblind := (hkeeps ctx).blind f f ⟨toolTree, [], []⟩ ⟨toolTree, [("PATH", "/bin")], []⟩ hf hf
    rfl rfl
  have hconfined := (hkeeps ctx).confined f _ _ _ _ hf hlocate
  exact ⟨hc, hlocate, hblind.trans hlocate, hconfined⟩

end Run

end Testbed
