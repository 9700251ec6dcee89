import Testbed.Proofs.Context.Alone
import Testbed.Proofs.Context.Fresh
import Testbed.Proofs.Run.Course
import Testbed.Proofs.Run.Solo
import Testbed.Rehearsal.Installer

/-! Side by side as one after the other. Under every schedule a pool keeps to its permits and ends
with one result for each environment, in their order: that of the environment's own task, in the
course that it took, or an entry that says that the task died. Where each environment comes to the
same on its way among the others as on its way in a row, these are the results of a row. -/
namespace Testbed

namespace Pool

variable {permits : Nat} {specs : List EnvSpec} {cs : Nat → List Scene} {p : Pool}

/-- What became of a job, and the entry that it left. -/
def Answers (xs : List Scene) (job : Job) (spec : EnvSpec) (entry : EnvResult) : Prop :=
  job = .closed ∧ Task.Finishes xs spec entry ∨ job = .dead ∧ entry = .aborted spec.name

theorem Accounted.answers (h : Accounted permits specs cs p) (ho : p.isOver = true) {i : Nat}
    {spec : EnvSpec} (hs : specs[i]? = some spec) :
    ∃ job entry, p.jobs[i]? = some job ∧ p.results[i]? = some entry ∧
      Answers (cs i) job spec entry := by
  have hi : i < p.jobs.length := by
    rw [h.width]
    exact (List.getElem?_eq_some_iff.1 hs).1
  have hj : p.jobs[i]? = some p.jobs[i] := List.getElem?_eq_getElem hi
  have hr : p.results[i]? = some ((p.slot? i).getD (.aborted spec.name)) := by
    simp [results, h.envs, List.getElem?_mapIdx, hs]
  refine ⟨p.jobs[i], _, hj, hr, ?_⟩
  have ha := h.jobs i spec _ hs hj
  have hover : p.jobs[i].isOver = true := List.all_eq_true.1 ho _ (List.getElem_mem hi)
  cases hjob : p.jobs[i] with
  | closed =>
    rw [hjob] at ha
    obtain ⟨r, hslot, hy⟩ := ha
    exact .inl ⟨rfl, by simpa [hslot] using hy⟩
  | dead =>
    rw [hjob] at ha
    have hslot : p.slot? i = none := ha
    exact .inr ⟨rfl, by simp [hslot]⟩
  | _ => simp [hjob, Job.isOver] at hover

theorem Accounted.length_results (h : Accounted permits specs cs p) :
    p.results.length = specs.length := by
  simp [results, h.envs]

/-- When nobody died all results are those of the tasks. -/
theorem Accounted.allFinish (h : Accounted permits specs cs p) (ho : p.isOver = true)
    (hd : p.casualties = 0) : Task.AllFinish cs specs p.results where
  length := h.length_results
  entry i spec e hs he := by
    obtain ⟨job, entry, hj, hr, ha⟩ := h.answers ho hs
    obtain rfl := Option.some.inj (hr.symm.trans he)
    rcases ha with ⟨-, hf⟩ | ⟨rfl, -⟩
    · exact hf
    · simpa using List.countP_eq_zero.1 hd _ (List.mem_of_getElem? hj)

end Pool

theorem Row.Accounted.allFinish {specs : List EnvSpec} {cs : Nat → List Scene} {r : Row}
    (h : Row.Accounted specs cs r) (ho : r.isOver = true) : Task.AllFinish cs specs r.results := by
  have hover : r.current = none ∧ r.rest = [] := by simpa [Row.isOver] using ho
  cases h with
  | between done hs hc hd =>
    rw [hover.2, List.append_nil] at hs
    rwa [hs]
  | amid done spec t hs hc => simp [hover.1] at hc

namespace Task

/-- None of the environments depends on what the others do, as far as is looked at: each comes to the
same result in its course among them here and in its course among them there. -/
def Independent {α : Type} (view : EnvResult → α) (specs : List EnvSpec)
    (cs cs' : Nat → List Scene) : Prop :=
  ∀ (i : Nat) (spec : EnvSpec), specs[i]? = some spec → ∀ e e', Finishes (cs i) spec e →
    Finishes (cs' i) spec e' → view e = view e'

theorem AllFinish.map_eq {α : Type} {view : EnvResult → α} {specs : List EnvSpec}
    {cs cs' : Nat → List Scene} {results results' : List EnvResult}
    (h : AllFinish cs specs results) (h' : AllFinish cs' specs results')
    (hi : Independent view specs cs cs') : results.map view = results'.map view := by
  refine List.ext_getElem (by simp [h.length, h'.length]) fun i hlt hlt' => ?_
  rw [List.length_map] at hlt hlt'
  rw [List.getElem_map, List.getElem_map]
  have hs := List.getElem?_eq_getElem (h.length ▸ hlt : i < specs.length)
  exact hi i _ hs _ _ (h.entry i _ _ hs (List.getElem?_eq_getElem hlt))
    (h'.entry i _ _ hs (List.getElem?_eq_getElem hlt'))

/-- No other result can come of the course at that place. -/
theorem AllFinish.entry_unique {specs : List EnvSpec} {cs : Nat → List Scene}
    {results : List EnvResult} (h : AllFinish cs specs results) {i : Nat} {spec : EnvSpec}
    {e : EnvResult} (hs : specs[i]? = some spec) (he : Finishes (cs i) spec e) :
    results[i]? = some e := by
  have hi : i < results.length := h.length.symm ▸ (List.getElem?_eq_some_iff.1 hs).1
  have hr := List.getElem?_eq_getElem hi
  rw [hr, (h.entry i spec _ hs hr).unique he]

end Task

/-! ### Both ways -/

namespace Crew

/-- The environments before anything is done for them, to be run side by side. -/
abbrev parallel (permits : Nat) (specs : List EnvSpec) : Crew := .pool (.start permits specs)

/-- The environments before anything is done for them, to be run one after the other. -/
abbrev serial (specs : List EnvSpec) : Crew := .row (.start specs)

/-- Whatever the schedule, environments side by side keep to the permits, end with one entry for
each in their order, which is what its own task came to in the scenes in which it moved, or hang, and
agree with the environments one after the other where each is independent of the others. -/
theorem parallel_refines_serial {permits : Nat} (hp : 0 < permits) (specs : List EnvSpec)
    (w : World) :
    (∀ moves, ∃ p, ((parallel permits specs).after w moves).1 = .pool p ∧ p.inFlight ≤ permits ∧
      (p.isOver = true → p.results.length = specs.length ∧
        ∀ (i : Nat) (spec : EnvSpec), specs[i]? = some spec →
          ∃ job entry, p.jobs[i]? = some job ∧ p.results[i]? = some entry ∧
            Pool.Answers ((parallel permits specs).course i w moves) job spec entry)) ∧
    (∀ σ : Schedule, σ.Fair specs.length →
      (∃ n, ((parallel permits specs).after w (σ.before n)).1.isOver = true) ∨
      ∃ n, ∀ m ≥ n, ((parallel permits specs).after w (σ.before m)).1.Hangs
        ((parallel permits specs).after w (σ.before m)).2) ∧
    ∀ moves w' moves' p r, ((parallel permits specs).after w moves).1 = .pool p →
      ((serial specs).after w' moves').1 = .row r →
      p.isOver = true → p.casualties = 0 → r.isOver = true →
      ∀ {α : Type} (view : EnvResult → α),
        Task.Independent view specs (fun i => (parallel permits specs).course i w moves)
          (fun i => (serial specs).course i w' moves') →
        p.results.map view = r.results.map view := by
  refine ⟨fun moves => ?_, fun σ hσ => ?_, ?_⟩
  · obtain ⟨p, h, ha⟩ := pool_accounted permits specs w moves
    exact ⟨p, h, ha.inFlight, fun ho => ⟨ha.length_results, fun i spec hs => ha.answers ho hs⟩⟩
  · have hsound : (parallel permits specs).Sound := ⟨by simp [Pool.start], hp⟩
    have hwidth : (parallel permits specs).width = specs.length := by simp [width, Pool.start]
    rcases ends_or_hangs hsound w (hwidth ▸ hσ) with ⟨n, h | h⟩ | h
    · exact .inl ⟨n, h⟩
    · obtain ⟨p, hpool, -⟩ := pool_accounted permits specs w (σ.before n)
      simp [hpool, isBroken] at h
    · exact .inr h
  · intro moves w' moves' p r hpool hrow hover hdead hover' α view hview
    obtain ⟨p₁, h₁, ha⟩ := pool_accounted permits specs w moves
    obtain ⟨r₁, h₂, hb⟩ := row_accounted specs w' moves'
    obtain rfl : p₁ = p := by simpa [h₁] using hpool
    obtain rfl : r₁ = r := by simpa [h₂] using hrow
    exact (ha.allFinish hover hdead).map_eq (hb.allFinish hover') hview

end Crew

/-! ### Two environments with a command each -/

/-- An executable that finds every program and sees it succeed at once. -/
def Executable.willing : Executable where
  resolve := fun _ _ program => .ok ⟨program⟩
  run := fun h _ _ => ⟨h.tree, [], false, .none, .exited ⟨.passed, some 0, "", "", 0⟩⟩

/-- Facilities with which everything goes well at once. -/
def Facilities.willing : Facilities :=
  ⟨⟨⟨".envrun"⟩, ⟨""⟩, false, [0]⟩, Rehearsal.installer [], .willing, .willing, []⟩

/-- An environment that runs one program. -/
def errand (name : String) : EnvSpec := ⟨name, none, [], [.ofArgv ["x"]], [], [], none, false, 0⟩

def errandOutcome : CommandOutcome :=
  (⟨.passed, some 0, "", "", 0⟩ : ExitOutcome).toOutcome 0 (Command.displayArgv ["x"])

def errandResult (name : String) : EnvResult := ⟨name, .succeeded, [errandOutcome], none, 0⟩

/-- Everything goes well, and the contexts are kept. -/
def keeping : Facilities :=
  { Facilities.willing with
    provisioner := Provisioning.rootSite true
    installer := Provisioning.traceless }

/-- A world in which no time has passed. -/
def camp (t : Host.Tree) (locks : Locks.Registry) (steps : Nat) (j : Journal)
    (launches : List Launch) : World :=
  ⟨⟨t, [], []⟩, locks, false, 0, .epoch, steps, none, none, j, [], launches, []⟩

namespace Task

variable {t : Host.Tree} {locks : Locks.Registry} {name : String}

/-- Once the context is ready the program is run, and the context is kept. -/
theorem brings_passed {s : Provisioning} (hs : s.stage = .ready) (t : Host.Tree)
    (locks : Locks.Registry) (steps : Nat) (j : Journal) (launches : List Launch) :
    ∃ task j' launches',
      Brings keeping 4 ⟨errand name, .provisioning, 0, .provisioning s⟩
        (camp t locks steps j launches) task
        (camp t (Locks.release locks s.client) (steps + 4) j' launches') ∧
      task.phase = .finished (errandResult name) := by
  let c := s.context keeping.provisioner
  let during (life : Lifecycle) (phase : Phase) : Task := ⟨errand name, life, 0, phase⟩
  let passed := Progress.start.record false errandOutcome
  have hready : (during .provisioning (.provisioning s)).step keeping (camp t locks steps j launches) =
      .moved (during .running (.commands c .start)) (camp t locks (steps + 1)
        (j ++ [⟨some name, .event (.provisioned name c.metadata.digest)⟩]) launches) := by
    obtain ⟨sname, metadata, client, stage⟩ := s
    obtain rfl : stage = .ready := hs
    rfl
  have hran (j : Journal) : (during .running (.commands c .start)).step keeping
      (camp t locks (steps + 1) j launches) =
        .moved (during .running (.commands c passed)) (camp t locks (steps + 2)
          (j ++ [⟨some name, .note ⟨.debug, some name, "Resolved executable"⟩⟩] ++
            [⟨some name, .event (.ofOutcome name errandOutcome)⟩])
          (launches ++ [⟨false, name, ⟨"x"⟩, [], 0⟩])) := rfl
  have hdone (j : Journal) (launches : List Launch) :
      (during .running (.commands c passed)).step keeping (camp t locks (steps + 2) j launches) =
        .moved (during .succeeded (.closing c passed)) (camp t locks (steps + 3) j launches) := rfl
  have hclosed (j : Journal) (launches : List Launch) :
      (during .succeeded (.closing c passed)).step keeping (camp t locks (steps + 3) j launches) =
        .moved (during .succeeded (.finished (errandResult name)))
          (camp t (Locks.release locks s.client) (steps + 4)
            (j ++ [⟨some name, .event (.ofResult (errandResult name))⟩]) launches) := rfl
  exact ⟨_, _, _, .more hready (.more (hran _) (.more (hdone _ _) (.one (hclosed _ _)))), rfl⟩

/-- The whole errand changes nothing but its own context. -/
theorem brings_errand (hname : Host.IsName name) (ht : t.get? [".envrun"] = some .directory)
    (hvacant : t.Vacant [".envrun", name]) (hfree : locks.line name = []) (steps : Nat) (j : Journal)
    (launches : List Launch) : ∃ task t' locks' steps' j' launches',
      Brings keeping 10 (Task.start (errand name) (camp t locks steps j launches))
        (camp t locks steps j launches) task (camp t' locks' steps' j' launches') ∧
      task.phase = .finished (errandResult name) ∧
      (∀ loc, ¬ [".envrun", name] <+: loc → t'.get? loc = t.get? loc) ∧
      ∀ other, other ≠ name → locks'.line other = locks.line other := by
  let w := camp t locks steps j launches
  obtain ⟨t', hsame, hbuilt⟩ :=
    @brings_built keeping w rfl rfl (errand name) t rfl hname rfl rfl rfl ht hvacant hfree
  obtain ⟨task, j', launches', hpassed, hfin⟩ := @brings_passed name
    { Provisioning.laid w name [] with stage := .ready } rfl t' (locks.enter name).2 (steps + 6)
    (w.built t' name []).journal launches
  refine ⟨task, t', _, _, j', launches', hbuilt.trans hpassed, hfin, hsame, fun other hne => ?_⟩
  have hleave : (Locks.release (locks.enter name).2 ⟨name, locks.next, true⟩).line other =
      (locks.enter name).2.line other := by
    rw [Locks.release, Locks.Registry.line_leave, if_neg hne]
  exact hleave.trans (by rw [Locks.Registry.line_enter, if_neg hne])

end Task

namespace Crew

/-- Both are under way at once, and the second one is done first. -/
def crossing : List Move :=
  .turn keeping 0 :: .turn keeping 1 ::
    (List.replicate 12 (.turn keeping 1) ++ List.replicate 12 (.turn keeping 0))

/-- Two errands on the same ground, one after the other. -/
theorem brings_errands {first second : String} (hfirst : Host.IsName first)
    (hsecond : Host.IsName second) (hne : second ≠ first) :
    let w := World.start Provisioning.bareHost
    ∃ t₁ w₁ t₂ w₂, (Task.start (errand first) w).Brings keeping 10 w t₁ w₁ ∧
      t₁.phase = .finished (errandResult first) ∧
      (Task.start (errand second) w₁).Brings keeping 10 w₁ t₂ w₂ ∧
      t₂.phase = .finished (errandResult second) ∧
      Task.start (errand second) w₁ = Task.start (errand second) w := by
  intro w
  obtain ⟨t₁, tree, locks, steps, j, launches, hbrings, hfin, hsame, hlocks⟩ :=
    @Task.brings_errand Provisioning.bareHost.tree .empty first hfirst (by decide)
      (Provisioning.vacant_bareHost first) rfl 0 [] []
  have hvacant : tree.Vacant [".envrun", second] := by
    intro loc hloc
    rw [hsame loc fun hloc' => hne ?_]
    · exact Provisioning.vacant_bareHost second loc hloc
    · obtain ⟨rest, rfl⟩ := hloc
      obtain ⟨rest', h⟩ := hloc'
      exact (List.cons.inj (List.cons.inj h).2).1.symm
  have hdir : tree.get? [".envrun"] = some .directory :=
    (hsame [".envrun"] (by simp)).trans (by decide)
  obtain ⟨t₂, tree', locks', steps', j', launches', hbrings', hfin', -⟩ :=
    Task.brings_errand hsecond hdir hvacant (hlocks second hne) steps j launches
  exact ⟨t₁, _, t₂, _, hbrings, hfin, hbrings', hfin', rfl⟩

def errands : List EnvSpec := ["a", "b"].map errand

theorem after_crossing :
    ((parallel 2 errands).after (World.start Provisioning.bareHost) crossing).1 =
      .pool ⟨2, errands, [.closed, .closed], [(1, errandResult "b"), (0, errandResult "a")]⟩ := by
  have ha : Host.IsName "a" := isName_of_isIdentifier (by decide) (by decide)
  have hb : Host.IsName "b" := isName_of_isIdentifier (by decide) (by decide)
  obtain ⟨t₁, w₁, t₂, w₂, hfirst, hfin, hsecond, hfin', hstart⟩ := brings_errands hb ha (by decide)
  let w := World.start Provisioning.bareHost
  let begun : Pool := ⟨2, errands,
    [.active (.start (errand "a") w), .active (.start (errand "b") w)], []⟩
  let halfway : Pool := { begun.setJob 1 .closed with sent := [(1, errandResult "b")] }
  have hbegin : (parallel 2 errands).after w [.turn keeping 0, .turn keeping 1] =
      (.pool begun, w) := rfl
  have hone : (Crew.pool begun).after w (List.replicate 12 (.turn keeping 1)) =
      (.pool halfway, w₁) := Pool.after_runs rfl hfirst hfin
  have htwo := @Pool.after_runs keeping 10 0 halfway _ _ w₁ w₂ _ rfl (hstart ▸ hsecond) hfin'
  have hsplit : crossing = [.turn keeping 0, .turn keeping 1] ++
      (List.replicate 12 (.turn keeping 1) ++ List.replicate 12 (.turn keeping 0)) := rfl
  rw [hsplit, after_append, hbegin, after_append, hone]
  exact congrArg Prod.fst htwo

theorem after_errands :
    ((serial errands).after (World.start Provisioning.bareHost)
        (List.replicate 24 (.turn keeping 0))).1 =
      .row ⟨["a", "b"].map errandResult, none, []⟩ := by
  have ha : Host.IsName "a" := isName_of_isIdentifier (by decide) (by decide)
  have hb : Host.IsName "b" := isName_of_isIdentifier (by decide) (by decide)
  obtain ⟨t₁, w₁, t₂, w₂, hfirst, hfin, hsecond, hfin', -⟩ := brings_errands ha hb (by decide)
  have hone : (serial errands).after (World.start Provisioning.bareHost)
      (List.replicate 12 (.turn keeping 0)) =
        (.row ⟨[errandResult "a"], none, [errand "b"]⟩, w₁) := Row.after_runs hfirst hfin 0
  have htwo : (Crew.row ⟨[errandResult "a"], none, [errand "b"]⟩).after w₁
      (List.replicate 12 (.turn keeping 0)) = (.row ⟨["a", "b"].map errandResult, none, []⟩, w₂) :=
    Row.after_runs hsecond hfin' 0
  have hsplit : List.replicate 24 (Move.turn keeping 0) =
      List.replicate 12 (.turn keeping 0) ++ List.replicate 12 (.turn keeping 0) := rfl
  rw [hsplit, after_append, hone, htwo]

theorem parallel_refines_serial_pair :
    let w := World.start Provisioning.bareHost
    let σ := Schedule.roundRobin keeping 2
    ∃ p r, ((parallel 2 errands).after w crossing).1 = .pool p ∧
      ((serial errands).after w (List.replicate 24 (.turn keeping 0))).1 = .row r ∧
      p.inFlight ≤ 2 ∧ p.sent.map Prod.fst = [1, 0] ∧ p.results.length = 2 ∧
      p.results = r.results ∧ r.results = ["a", "b"].map errandResult ∧
      ((∃ n, ((parallel 2 errands).after w (σ.before n)).1.isOver = true) ∨
        ∃ n, ∀ m ≥ n, ((parallel 2 errands).after w (σ.before m)).1.Hangs
          ((parallel 2 errands).after w (σ.before m)).2) := by
  intro w σ
  obtain ⟨hall, hends, hsame⟩ := parallel_refines_serial (Nat.succ_pos 1) errands w
  obtain ⟨p, hp, ha⟩ := pool_accounted 2 errands w crossing
  obtain rfl := Crew.pool.inj (after_crossing.symm.trans hp)
  obtain ⟨r, hr, hb⟩ := row_accounted errands w (List.replicate 24 (.turn keeping 0))
  obtain rfl := Crew.row.inj (after_errands.symm.trans hr)
  have hindependent : Task.Independent id errands (fun i => (parallel 2 errands).course i w crossing)
      (fun i => (serial errands).course i w (List.replicate 24 (.turn keeping 0))) :=
    fun i spec hs e e' he he' => Option.some.inj
      (((ha.allFinish rfl rfl).entry_unique hs he).symm.trans ((hb.allFinish rfl).entry_unique hs he'))
  obtain ⟨p, hp', hflight, hover⟩ := hall crossing
  obtain rfl := Crew.pool.inj (hp.symm.trans hp')
  have hmap := hsame crossing w _ _ _ hp hr rfl rfl rfl id hindependent
  rw [List.map_id, List.map_id] at hmap
  exact ⟨_, _, hp, hr, hflight, rfl, (hover rfl).1, hmap, rfl,
    hends σ (Schedule.roundRobin_fair _ _)⟩

end Crew

end Testbed
