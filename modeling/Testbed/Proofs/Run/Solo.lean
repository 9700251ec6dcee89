import Testbed.Proofs.Context.Alone
import Testbed.Proofs.Context.Fresh
import Testbed.Proofs.Run.Drive

/-! A task that has turn after turn. The steps that it makes by itself are those that it makes in a row
or in a pool when no other job is looked at. Among them are those that build a context. -/
namespace Testbed

/-- After a context was built from some sources, by a task that had the lock to itself. -/
def World.built (w : World) (tree : Host.Tree) (name : String) (sources : List Dependency) : World :=
  { w with
    host := ⟨tree, [], []⟩
    locks := (w.locks.enter name).2
    steps := w.steps + (sources.length + 6)
    span := none
    journal := w.journal ++
      sources.map (fun _ => ⟨some name, .note ⟨.debug, some name, "Installing"⟩⟩) ++
      [⟨some name, .note ⟨.info, some name, "Environment provisioned"⟩⟩]
    installs := w.installs ++ sources.map (⟨name, ·⟩) }

namespace Task

open Provisioning (rootSite traceless)

/-- So many steps, one after the other and with the same facilities. -/
inductive Brings (f : Facilities) : Nat → Task → World → Task → World → Prop
  | none (t : Task) (w : World) : Brings f 0 t w t w
  | more {n : Nat} {t t₁ t₂ : Task} {w w₁ w₂ : World} (hs : t.step f w = .moved t₁ w₁)
      (h : Brings f n t₁ w₁ t₂ w₂) : Brings f (n + 1) t w t₂ w₂

variable {f : Facilities} {n m : Nat} {t t₁ t₂ : Task} {w w₁ w₂ : World}

theorem Brings.one (h : t.step f w = .moved t₁ w₁) : Brings f 1 t w t₁ w₁ := .more h (.none t₁ w₁)

theorem Brings.trans (h : Brings f n t w t₁ w₁) (h' : Brings f m t₁ w₁ t₂ w₂) :
    Brings f (n + m) t w t₂ w₂ := by
  induction h with
  | none => simpa using h'
  | more hs _ ih =>
    rw [Nat.add_right_comm]
    exact .more hs (ih h')

/-! ### Building a context -/

variable {s s' : Provisioning} {v v' : World} {h₁ h₂ : Host}

theorem step_building (hp : t.phase = .provisioning s)
    (hv : { w.tick with span := some t.spec.name } = v) (hc : v.cancelled = false)
    (hstep : s.step f.provisioner f.installer v = .moved s' v') :
    t.step f w = .moved { t with phase := .provisioning s' } { v' with span := none } := by
  have hbuild : t.stepProvisioning f v s = .moved { t with phase := .provisioning s' } v' := by
    rw [stepProvisioning, if_neg (by simp [hc])]
    split
    next hs => simp [Provisioning.step, hs] at hstep
    next hs => simp [Provisioning.step, hs] at hstep
    next => rw [hstep]
  have hin : t.stepIn f v = .moved { t with phase := .provisioning s' } v' := by
    rw [stepIn, hp]
    exact hbuild
  rw [← hv] at hin
  rw [step, hin]

/-- A context is laid out in three steps where nothing is. -/
theorem brings_laid (hp : t.phase = .provisioning s) (hs : s.stage = .clearing)
    (hc : w.cancelled = false) (hi : w.interruptAt = none)
    (hfree : w.host.exists? (s.dir f.provisioner) = false)
    (hbin : w.host.makeDirAll ((s.dir f.provisioner).join "bin") = .ok h₁)
    (htmp : h₁.makeDirAll ((s.dir f.provisioner).join "tmp") = .ok h₂) :
    Brings f 3 t w
      { t with phase := .provisioning { s with stage := .installing s.metadata.sources } }
      { w with host := h₂, steps := w.steps + 3, span := none } := by
  obtain ⟨host, locks, cancelled, clock, date, steps, interruptAt, span, journal, installs, launches,
    adrift⟩ := w
  obtain rfl : cancelled = false := hc
  obtain rfl : interruptAt = none := hi
  let site (span : Option String) (h : Host) (n : Nat) : World :=
    ⟨h, locks, false, clock, date, n, none, span, journal, installs, launches, adrift⟩
  let v := site (some t.spec.name)
  let during (stage : Stage) : Task := { t with phase := .provisioning { s with stage := stage } }
  have hclear : t.step f (site span host steps) = .moved (during .makingBin) (site none host (steps + 1)) := by
    have hstep : s.step f.provisioner f.installer (v host (steps + 1)) =
        .moved { s with stage := .makingBin } (v host (steps + 1)) := by
      rw [Provisioning.step, hs]
      exact congrArg Provisioning.moved (@Provisioning.clear_eq _ (v host (steps + 1)) s hfree)
    exact step_building (f := f) (w := site span host steps) hp rfl rfl hstep
  have hmakeBin : (during .makingBin).step f (site none host (steps + 1)) =
      .moved (during .makingTmp) (site none h₁ (steps + 2)) := by
    have hstep : ({ s with stage := .makingBin } : Provisioning).step f.provisioner f.installer
        (v host (steps + 2)) = .moved { s with stage := .makingTmp } (v h₁ (steps + 2)) := by
      have hstage : ({ s with stage := .makingBin } : Provisioning).stage = .makingBin := rfl
      rw [Provisioning.step, hstage]
      exact congrArg Provisioning.moved
        (@Provisioning.makeDir_eq (v host (steps + 2)) { s with stage := .makingBin } _ _ h₁ hbin)
    exact step_building (f := f) (t := during .makingBin) (w := site none host (steps + 1)) rfl rfl rfl
      hstep
  have hmakeTmp : (during .makingTmp).step f (site none h₁ (steps + 2)) =
      .moved (during (.installing s.metadata.sources)) (site none h₂ (steps + 3)) := by
    have hstep : ({ s with stage := .makingTmp } : Provisioning).step f.provisioner f.installer
        (v h₁ (steps + 3)) =
          .moved { s with stage := .installing s.metadata.sources } (v h₂ (steps + 3)) := by
      have hstage : ({ s with stage := .makingTmp } : Provisioning).stage = .makingTmp := rfl
      rw [Provisioning.step, hstage]
      exact congrArg Provisioning.moved
        (@Provisioning.makeDir_eq (v h₁ (steps + 3)) { s with stage := .makingTmp } _ _ h₂ htmp)
    exact step_building (f := f) (t := during .makingTmp) (w := site none h₁ (steps + 2)) rfl rfl rfl
      hstep
  exact .more hclear (.more hmakeBin (.one hmakeTmp))

/-- The record is written, and the context is complete. -/
theorem step_recorded (hp : t.phase = .provisioning s) (hs : s.stage = .recording)
    (hc : w.tick.cancelled = false)
    (hwrite : w.host.write (Metadata.path (s.dir f.provisioner)) (Text.encode s.metadata.text) =
      .ok h₁) :
    t.step f w = .moved { t with phase := .provisioning { s with stage := .ready } }
      { w.tick with
        host := h₁
        span := none
        journal := w.journal ++ [⟨some t.spec.name,
          .note ⟨.info, some s.name, "Environment provisioned"⟩⟩] } := by
  let v : World := { w.tick with span := some t.spec.name }
  have hstep : s.step f.provisioner f.installer v = .moved { s with stage := .ready }
      (({ v with host := h₁ } : World).note .info (some s.name) "Environment provisioned") := by
    rw [Provisioning.step, hs]
    exact congrArg Provisioning.moved (@Provisioning.record_eq _ v s h₁ hwrite)
  exact step_building hp rfl hc hstep

/-- The lock is free, and the task goes about its context. -/
theorem step_begins {spec : EnvSpec} (hn : spec.isNoop = false)
    (hc : w.tick.cancelled = false) (hfree : w.locks.line spec.name = []) :
    (Task.start spec w).step f w =
      .moved ⟨spec, .provisioning, w.clock,
          .provisioning { Provisioning.laid w spec.name spec.deps with stage := .clearing }⟩
        { w.tick with locks := (w.locks.enter spec.name).2, span := none } := by
  let v : World := { w.tick with span := some spec.name }
  have hbegin : (Task.start spec w).begin v = (Task.start spec w).provision v := by
    have hspec : (Task.start spec w).spec.isNoop = false := hn
    have hcalm : v.cancelled = false := hc
    simp only [begin, hcalm, hspec, Bool.false_eq_true, if_false]
  have hprovision : (Task.start spec w).provision v =
      (⟨spec, .provisioning, w.clock,
          .provisioning { Provisioning.laid w spec.name spec.deps with stage := .clearing }⟩,
        { v with locks := (w.locks.enter spec.name).2 }) :=
    congrArg (fun r : Provisioning × World =>
      ((⟨spec, .provisioning, w.clock, .provisioning r.1⟩, r.2) : Task × World))
      (@Provisioning.start_free v spec.name spec.deps hfree)
  have hin : (Task.start spec w).stepIn f
      { w.tick with span := some (Task.start spec w).spec.name } =
        .moved ⟨spec, .provisioning, w.clock,
            .provisioning { Provisioning.laid w spec.name spec.deps with stage := .clearing }⟩
          { v with locks := (w.locks.enter spec.name).2 } :=
    congrArg (fun r : Task × World => Turn.moved r.1 r.2) (hbegin.trans hprovision)
  rw [step, hin]

section

variable (hp : f.provisioner = rootSite true) (hi : f.installer = traceless)
include hp hi

/-- One source after the other is handed to the installer. -/
theorem brings_installed (t : Task) (s : Provisioning) (sources : List Dependency)
    (hspan : w.span = none) (hc : w.cancelled = false) (hat : w.interruptAt = none) :
    Brings f sources.length
      { t with phase := .provisioning { s with stage := .installing sources } } w
      { t with phase := .provisioning { s with stage := .installing [] } }
      { w with
        steps := w.steps + sources.length
        journal := w.journal ++ sources.map fun _ =>
          ⟨some t.spec.name, .note ⟨.debug, some s.name, "Installing"⟩⟩
        installs := w.installs ++ sources.map (⟨s.name, ·⟩) } := by
  induction sources generalizing w with
  | nil => simpa using Brings.none _ w
  | cons source sources ih =>
    obtain ⟨host, locks, cancelled, clock, date, steps, interruptAt, span, journal, installs,
      launches, adrift⟩ := w
    obtain rfl : span = none := hspan
    obtain rfl : cancelled = false := hc
    obtain rfl : interruptAt = none := hat
    let site (span : Option String) (journal : Journal) (installs : List Install) : World :=
      ⟨host, locks, false, clock, date, steps + 1, none, span, journal, installs, launches, adrift⟩
    let line : JournalLine := ⟨some t.spec.name, .note ⟨.debug, some s.name, "Installing"⟩⟩
    have hinstall : ({ s with stage := .installing (source :: sources) } : Provisioning).step
        f.provisioner f.installer (site (some t.spec.name) journal installs) =
          .moved { s with stage := .installing sources }
            (site (some t.spec.name) (journal ++ [line]) (installs ++ [⟨s.name, source⟩])) := by
      rw [hp, hi]
      rfl
    refine .more (step_building rfl rfl rfl hinstall) ?_
    have hrest := @ih (site none (journal ++ [line]) (installs ++ [⟨s.name, source⟩])) rfl rfl rfl
    simpa [site, line, Nat.add_assoc, Nat.add_comm 1] using hrest

/-- A context is built where nothing is, by a task that has the lock to itself. -/
theorem brings_built {spec : EnvSpec} {tree : Host.Tree} (hn : spec.isNoop = false)
    (hname : Host.IsName spec.name) (hhost : w.host = ⟨tree, [], []⟩) (hc : w.cancelled = false)
    (hat : w.interruptAt = none) (ht : tree.get? [".envrun"] = some .directory)
    (hvacant : tree.Vacant [".envrun", spec.name]) (hfree : w.locks.line spec.name = []) :
    ∃ tree', (∀ loc, ¬ [".envrun", spec.name] <+: loc → tree'.get? loc = tree.get? loc) ∧
      Brings f ((Dependency.resolve spec.deps).length + 6) (Task.start spec w) w
        ⟨spec, .provisioning, w.clock,
          .provisioning { Provisioning.laid w spec.name spec.deps with stage := .ready }⟩
        (w.built tree' spec.name (Dependency.resolve spec.deps)) := by
  obtain ⟨h₁, h₂, hmissing, hbin, -, htmp, hwrite⟩ := Provisioning.laid_rootSite hname ht hvacant
  obtain ⟨host, locks, cancelled, clock, date, steps, interruptAt, span, journal, installs,
    launches, adrift⟩ := w
  obtain rfl : host = ⟨tree, [], []⟩ := hhost
  obtain rfl : cancelled = false := hc
  obtain rfl : interruptAt = none := hat
  let w : World := ⟨⟨tree, [], []⟩, locks, false, clock, date, steps, none, span, journal, installs,
    launches, adrift⟩
  let sources := Dependency.resolve spec.deps
  let s (stage : Stage) : Provisioning :=
    { Provisioning.laid w spec.name spec.deps with stage := stage }
  let during (stage : Stage) : Task := ⟨spec, .provisioning, clock, .provisioning (s stage)⟩
  let site (h : Host) (n : Nat) (journal : Journal) (installs : List Install) : World :=
    ⟨h, (locks.enter spec.name).2, false, clock, date, n, none, none, journal, installs, launches,
      adrift⟩
  let journal' := journal ++ sources.map fun _ =>
    ⟨some spec.name, .note ⟨.debug, some spec.name, "Installing"⟩⟩
  let installs' := installs ++ sources.map (⟨spec.name, ·⟩)
  let n := steps + 4 + sources.length
  have hbegin : (Task.start spec w).step f w =
      .moved (during .clearing) (site ⟨tree, [], []⟩ (steps + 1) journal installs) :=
    step_begins hn rfl hfree
  have hlaid : Brings f 3 (during .clearing) (site ⟨tree, [], []⟩ (steps + 1) journal installs)
      (during (.installing sources)) (site h₂ (steps + 4) journal installs) :=
    @brings_laid f (during .clearing) (site ⟨tree, [], []⟩ (steps + 1) journal installs) (s .clearing)
      _ _ rfl rfl rfl rfl (hp ▸ hmissing) (hp ▸ hbin) (hp ▸ htmp)
  have hinstalled : Brings f sources.length (during (.installing sources))
      (site h₂ (steps + 4) journal installs) (during (.installing []))
      (site h₂ n journal' installs') :=
    brings_installed hp hi (during .clearing) (s .clearing) sources rfl rfl rfl
  have hdone : (during (.installing [])).step f (site h₂ n journal' installs') =
      .moved (during .recording) (site h₂ (n + 1) journal' installs') :=
    step_building (t := during (.installing [])) (w := site h₂ n journal' installs') rfl rfl rfl rfl
  obtain ⟨tree', hwrite, hsame⟩ := hwrite (Text.encode (s .recording).metadata.text)
  have hrecorded : (during .recording).step f (site h₂ (n + 1) journal' installs') =
      .moved (during .ready) (site ⟨tree', [], []⟩ (n + 2) (journal' ++ [⟨some spec.name,
        .note ⟨.info, some spec.name, "Environment provisioned"⟩⟩]) installs') :=
    @step_recorded f (during .recording) (site h₂ (n + 1) journal' installs') (s .recording) _ rfl rfl
      rfl (hp ▸ hwrite)
  refine ⟨tree', hsame, ?_⟩
  have hall := Brings.more hbegin (hlaid.trans (hinstalled.trans (.more hdone (.one hrecorded))))
  have hcount : 3 + (sources.length + 2) + 1 = sources.length + 6 := by omega
  have hsteps : n + 2 = steps + (sources.length + 6) := by omega
  rw [hsteps] at hall
  exact hcount ▸ hall

end

end Task

/-! ### Turns in a row -/

namespace Row

variable {f : Facilities} {n : Nat} {r : Row} {t t' : Task} {w w' : World} {e : EnvResult}

theorem turn_of_step (hc : r.current = some t) (h : t.step f w = .moved t' w') :
    r.turn f w = .moved { r with current := some t' } w' := by
  have hlive := Task.not_isOver_of_step h
  rw [turn, hc]
  dsimp only
  unfold turnCurrent
  split
  next result hp => exact absurd (.inl ⟨result, hp⟩) hlive
  next hp => exact absurd (.inr hp) hlive
  next => rw [h, Turn.map]

theorem make_of_step (hc : r.current = some t) (h : t.step f w = .moved t' w') (i : Nat) :
    (Crew.row r).make w (.turn f i) = (.row { r with current := some t' }, w') := by
  simp only [Crew.make, Crew.go, Crew.turn, turn_of_step hc h, Turn.map]

theorem after_brings (hc : r.current = some t) (h : t.Brings f n w t' w') (i : Nat) :
    (Crew.row r).after w (List.replicate n (.turn f i)) =
      (.row { r with current := some t' }, w') := by
  induction h generalizing r with
  | none =>
    rw [← hc]
    rfl
  | more hs _ ih =>
    rw [List.replicate_succ, Crew.after_cons, make_of_step hc hs]
    exact ih rfl

/-- An environment is begun, comes to its result and is done with. -/
theorem after_runs {results : List EnvResult} {spec : EnvSpec} {rest : List EnvSpec}
    (h : (Task.start spec w).Brings f n w t w') (ht : t.phase = .finished e) (i : Nat) :
    (Crew.row ⟨results, none, spec :: rest⟩).after w (List.replicate (n + 2) (.turn f i)) =
      (.row ⟨results ++ [e], none, rest⟩, w') := by
  have hbegin : (Crew.row ⟨results, none, spec :: rest⟩).make w (.turn f i) =
      (.row ⟨results, some (Task.start spec w), rest⟩, w) := rfl
  have htake : (Crew.row ⟨results, some t, rest⟩).make w' (.turn f i) =
      (.row ⟨results ++ [e], none, rest⟩, w') := by
    simp only [Crew.make, Crew.go, Crew.turn, turn, turnCurrent, ht, Turn.map]
  have hbring := after_brings (r := ⟨results, some (Task.start spec w), rest⟩) rfl h i
  rw [List.replicate_succ, Crew.after_cons, hbegin, List.replicate_succ', Crew.after_append, hbring,
    Crew.after_cons, htake]
  rfl

end Row

namespace Pool

variable {f : Facilities} {n i : Nat} {p : Pool} {t t' : Task} {w w' : World} {e : EnvResult}

theorem setJob_self {job : Job} (hj : p.jobs[i]? = some job) : p.setJob i job = p := by
  obtain ⟨hi, rfl⟩ := List.getElem?_eq_some_iff.1 hj
  simp [setJob]

@[simp] theorem setJob_setJob (p : Pool) (i : Nat) (job job' : Job) :
    (p.setJob i job).setJob i job' = p.setJob i job' := by
  simp [setJob]

theorem turn_of_step (hj : p.jobs[i]? = some (.active t)) (h : t.step f w = .moved t' w') :
    p.turn f w i = .moved (p.setJob i (.active t')) w' := by
  have hlive := Task.not_isOver_of_step h
  rw [turn, hj]
  dsimp only
  unfold turnActive
  split
  next result hp => exact absurd (.inl ⟨result, hp⟩) hlive
  next hp => exact absurd (.inr hp) hlive
  next => rw [h, Turn.map]

theorem make_of_step (hj : p.jobs[i]? = some (.active t)) (h : t.step f w = .moved t' w') :
    (Crew.pool p).make w (.turn f i) = (.pool (p.setJob i (.active t')), w') := by
  simp only [Crew.make, Crew.go, Crew.turn, turn_of_step hj h, Turn.map]

theorem after_brings (hj : p.jobs[i]? = some (.active t)) (h : t.Brings f n w t' w') :
    (Crew.pool p).after w (List.replicate n (.turn f i)) =
      (.pool (p.setJob i (.active t')), w') := by
  induction h generalizing p with
  | none =>
    rw [setJob_self hj]
    rfl
  | more hs _ ih =>
    rw [List.replicate_succ, Crew.after_cons, make_of_step hj hs, ih (getElem?_setJob_self hj),
      setJob_setJob]

/-- A task comes to its result, which is sent. -/
theorem after_runs (hj : p.jobs[i]? = some (.active t)) (h : t.Brings f n w t' w')
    (ht : t'.phase = .finished e) :
    (Crew.pool p).after w (List.replicate (n + 2) (.turn f i)) =
      (.pool { p.setJob i .closed with sent := p.sent ++ [(i, e)] }, w') := by
  have hfinish : (Crew.pool (p.setJob i (.active t'))).make w' (.turn f i) =
      (.pool (p.setJob i (.reporting e)), w') := by
    simp only [Crew.make, Crew.go, Crew.turn, turn, getElem?_setJob_self hj, turnActive, ht,
      Turn.map, setJob_setJob]
  have hsend : (Crew.pool (p.setJob i (.reporting e))).make w' (.turn f i) =
      (.pool { p.setJob i .closed with sent := p.sent ++ [(i, e)] }, w') := by
    simp only [Crew.make, Crew.go, Crew.turn, turn, getElem?_setJob_self hj, Turn.map,
      setJob_setJob]
    rfl
  rw [← List.replicate_append_replicate, Crew.after_append, after_brings hj h, List.replicate, Crew.after_cons,
    hfinish, List.replicate, Crew.after_cons, hsend]
  rfl

end Pool

end Testbed
