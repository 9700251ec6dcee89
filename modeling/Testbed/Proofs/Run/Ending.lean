import Mathlib
import Testbed.Proofs.Config.Names
import Testbed.Proofs.Dependency.Resolution
import Testbed.Proofs.Run.Drive
import Testbed.Proofs.Run.Parallel

/-! How runs end. A run is refused for its options or its selection before anything is done, or it
reports on every selected environment, once and in the order of declaration, whatever happens to any
of them. There is a third way: side by side, more permits can be asked for than there can be. -/
namespace Testbed

/-- Nothing that the move runs kills a task, and neither does the move itself. -/
def Move.Steady : Move → Prop
  | .turn f _ | .race f _ => f.Steady
  | .wait _ | .cancel | .meddle _ | .land _ => True
  | .kill .. => False

theorem Move.Steady.facilities {m : Move} {w : World} {x : Scene} (hm : m.Steady)
    (hx : m.scene? w = some x) : x.facilities.Steady := by
  cases m with
  | turn f i =>
    cases hx
    exact hm
  | race f i =>
    cases hx
    exact hm
  | _ => cases hx

theorem Move.IsQuiet.steady {f : Facilities} (hf : f.Steady) {m : Move} (h : m.IsQuiet f) :
    m.Steady := by
  rcases h with ⟨i, rfl⟩ | ⟨ms, rfl⟩
  · exact hf
  · trivial

/-! ### Nobody dies -/

theorem Row.After.isBroken {w w' : World} {m : Move} {r r' : Row} (h : Row.After w m r r' w')
    (hm : m.Steady) (hr : r.isBroken = false) : r'.isBroken = false := by
  have hnot (t : Task) (ht : t.phase ≠ .aborted) : (t.phase == .aborted) = false := by
    simpa using ht
  cases h with
  | same => exact hr
  | turn hx hn =>
    cases hn with
    | begin => exact hnot _ nofun
    | work _ hstep => exact hnot _ (Task.step_phase_ne_aborted (hm.facilities hx) hstep)
    | take => rfl
  | kill heq =>
    rw [heq] at hm
    exact hm.elim

namespace Crew

theorem make_isBroken {c : Crew} (hc : c.isBroken = false) (w : World) {m : Move} (hm : m.Steady) :
    (c.make w m).1.isBroken = false := by
  cases c with
  | row r =>
    obtain ⟨r', w', h, hn⟩ := make_row r w m
    rw [h]
    exact hn.isBroken hm hc
  | pool p =>
    obtain ⟨p', w', h, -⟩ := make_pool p w m
    rw [h]
    rfl

theorem after_isBroken {c : Crew} (hc : c.isBroken = false) (w : World) {moves : List Move}
    (hm : ∀ m ∈ moves, m.Steady) : (c.after w moves).1.isBroken = false := by
  induction moves generalizing c w with
  | nil => exact hc
  | cons m moves ih =>
    rw [after_cons]
    exact ih (make_isBroken hc w (hm m List.mem_cons_self)) _
      fun m' h => hm m' (List.mem_cons_of_mem _ h)

end Crew

/-! ### Names -/

theorem Pool.Accounted.names {permits : Nat} {specs : List EnvSpec} {cs : Nat → List Scene}
    {p : Pool} (h : Accounted permits specs cs p) (ho : p.isOver = true) :
    p.results.map EnvResult.name = specs.map EnvSpec.name := by
  refine List.ext_getElem? fun i => ?_
  rw [List.getElem?_map, List.getElem?_map]
  cases hs : specs[i]? with
  | none =>
    have hlen := List.getElem?_eq_none_iff.1 hs
    simp [List.getElem?_eq_none_iff.2 (h.length_results ▸ hlen)]
  | some spec =>
    obtain ⟨job, entry, -, hr, ha⟩ := h.answers ho hs
    rw [hr]
    rcases ha with ⟨-, hy⟩ | ⟨-, rfl⟩
    · simp [hy.name]
    · rfl

theorem Task.names_of_yields {xs : List Scene} {specs : List EnvSpec} {rs : List EnvResult}
    (h : List.Forall₂ (Task.Yields xs) specs rs) :
    rs.map EnvResult.name = specs.map EnvSpec.name := by
  induction h with
  | nil => rfl
  | cons hy _ ih => rw [List.map_cons, List.map_cons, hy.name, ih]

namespace Run

/-- The environments of a run, set out one after the other or side by side. -/
def Sets (permits : Nat) (specs : List EnvSpec) (crew : Crew) : Prop :=
  crew = .serial specs ∨ crew = .parallel permits specs

theorem Sets.names {permits : Nat} {specs : List EnvSpec} {crew : Crew}
    (h : Sets permits specs crew) (w : World) (moves : List Move)
    (ho : (crew.after w moves).1.isOver = true) :
    (crew.after w moves).1.results.map EnvResult.name = specs.map EnvSpec.name := by
  rcases h with rfl | rfl
  · obtain ⟨r, hr, ha⟩ := Crew.row_accounted specs w moves
    rw [hr] at ho ⊢
    exact Task.names_of_yields ((ha.allFinish ho).yields (Crew.course_sublist · _ w moves))
  · obtain ⟨p, hp, ha⟩ := Crew.pool_accounted permits specs w moves
    rw [hp] at ho ⊢
    exact ha.names ho

/-! ### The beginning -/

/-- The options or the selection are turned down. -/
def Refuses (c : Config) (s : Selection) (o : RunOptions) : Prop :=
  parallelism c o = 0 ∨ s.IsUnknown c

/-- More permits are asked for than can be made, and they are needed. -/
def Overflows (c : Config) (s : Selection) (o : RunOptions) : Prop :=
  Pool.maxPermits < parallelism c o ∧ ∃ found, s.resolve c = .ok found ∧ 2 ≤ found.length

/-- What a run does first. -/
inductive Begins (c : Config) (s : Selection) (o : RunOptions) (w : World) : Stand × World → Prop
  | refuse (cause : RunError) (h : Refuses c s o) : Begins c s o w (.ended (.refused cause), w)
  | overflow (w' : World) (h : ¬ Refuses c s o) (hover : Overflows c s o) :
      Begins c s o w (.ended .broken, w')
  | go (found specs : List EnvSpec) (crew : Crew) (w' : World) (h : ¬ Refuses c s o)
      (hover : ¬ Overflows c s o) (hfound : s.resolve c = .ok found)
      (hspecs : Run.specs c s o = .ok specs)
      (hnames : specs.map EnvSpec.name = found.map EnvSpec.name)
      (hcrew : Sets (parallelism c o) specs crew) (hpermits : 0 < parallelism c o)
      (hset : crew = if isSerial (parallelism c o) specs then .serial specs
        else .parallel (parallelism c o) specs)
      (hstarted : w' = w.emit (.runStarted (found.map EnvSpec.name) (parallelism c o))) :
      Begins c s o w (.going crew, w')

theorem begin_begins (c : Config) (s : Selection) (o : RunOptions) (w : World) :
    Begins c s o w (begin c s o w) := by
  unfold begin
  dsimp only
  split
  next hzero => exact .refuse _ (.inl hzero)
  next hzero =>
    cases hr : s.resolve c with
    | error name =>
      have hs : specs c s o = .error name := by simp [specs, hr, Except.map]
      rw [hs]
      exact .refuse _ (.inr (Selection.resolve_error_iff.1 ⟨name, hr⟩))
    | ok found =>
      have hrefuse : ¬ Refuses c s o := by
        rintro (h | h)
        · exact hzero h
        · obtain ⟨name, h⟩ := Selection.resolve_error_iff.2 h
          rw [hr] at h
          cases h
      generalize hov : found.map (fun spec => { spec with
        continueOnError := o.continueOnError.getD spec.continueOnError }) = overridden
      have hs : specs c s o = .ok overridden := by simp [specs, hr, Except.map, hov]
      have hlen : overridden.length = found.length := by simp [← hov]
      have hnames : overridden.map EnvSpec.name = found.map EnvSpec.name := by
        rw [← hov, List.map_map]
        rfl
      rw [hs]
      by_cases hserial : isSerial (parallelism c o) overridden = true
      · simp only [gather, hserial, if_true]
        refine .go found overridden _ _ hrefuse ?_ hr hs hnames (.inl rfl)
          (Nat.pos_of_ne_zero hzero) (if_pos hserial).symm (by rw [hnames])
        rintro ⟨hmax, found', hf, htwo⟩
        rw [hr] at hf
        cases hf
        have hone : parallelism c o = 1 := by
          have : parallelism c o = 1 ∨ overridden.length ≤ 1 := by simpa [isSerial] using hserial
          omega
        rw [hone] at hmax
        exact absurd hmax (by decide)
      · have htwo : 2 ≤ found.length := by
          have : parallelism c o ≠ 1 ∧ 1 < overridden.length := by simpa [isSerial] using hserial
          omega
        by_cases hle : parallelism c o ≤ Pool.maxPermits
        · simp only [gather, hserial, hle, if_true, if_false, Bool.false_eq_true]
          refine .go found overridden _ _ hrefuse ?_ hr hs hnames (.inr rfl)
            (Nat.pos_of_ne_zero hzero) (if_neg hserial).symm (by rw [hnames])
          rintro ⟨hmax, -⟩
          omega
        · simp only [gather, hserial, hle, if_false, Bool.false_eq_true]
          exact .overflow _ hrefuse ⟨by omega, found, hr, htwo⟩

/-! ### The course -/

variable {permits : Nat} {specs : List EnvSpec} {crew : Crew}

/-- A report with one entry for each of some environments, in their order. -/
structure Reports (found : List EnvSpec) (r : Report) : Prop where
  names : r.names = found.map EnvSpec.name
  exit : r.exitCode = 0 ↔ ∀ e ∈ r.environments, e.status = .succeeded

theorem ofResults_exit (runId : Uuid) (startedAt : Timestamp) (durationMs : Nat)
    (results : List EnvResult) :
    (Report.ofResults runId startedAt durationMs results).exitCode = 0 ↔
      ∀ e ∈ results, e.status = .succeeded := by
  simp [Report.ofResults, EnvResult.succeeded]

/-- A report has the results of the environments, and comes when all of them are over. -/
theorem conclude_reported {runId : Uuid} {origin w : World} {c : Crew} {rep : Report}
    (h : (conclude runId origin c w).1 = .ended (.reported rep)) :
    c.isOver = true ∧ rep.environments = c.results := by
  unfold conclude at h
  split at h
  · cases h
  · split at h
    next ho =>
      cases h
      exact ⟨ho, rfl⟩
    · cases h

/-- Where nobody dies a run goes on until everything is over, and then reports. -/
theorem Sets.conclude_eq (h : Sets permits specs crew) (runId : Uuid) (origin w : World)
    {moves : List Move} (hm : ∀ m ∈ moves, m.Steady) :
    ((crew.after w moves).1.isOver = true ∧ ∃ r w',
      conclude runId origin (crew.after w moves).1 (crew.after w moves).2 =
        (.ended (.reported r), w') ∧ Reports specs r) ∨
    (crew.after w moves).1.isOver = false ∧
      conclude runId origin (crew.after w moves).1 (crew.after w moves).2 =
        (.going (crew.after w moves).1, (crew.after w moves).2) := by
  have hb : crew.isBroken = false := by rcases h with rfl | rfl <;> rfl
  have hb' := Crew.after_isBroken hb w hm
  cases ho : (crew.after w moves).1.isOver with
  | true =>
    simp only [conclude, hb', ho, if_true, if_false, Bool.false_eq_true]
    exact .inl ⟨trivial, _, _, rfl, h.names w moves ho, ofResults_exit ..⟩
  | false =>
    refine .inr ⟨rfl, ?_⟩
    simp only [conclude, hb', ho, if_false, Bool.false_eq_true]

theorem Sets.sound (h : Sets permits specs crew) (hp : 0 < permits) : crew.Sound := by
  rcases h with rfl | rfl
  · trivial
  · exact ⟨by simp [Pool.start], hp⟩

/-- Without environments there is nothing to be done. -/
theorem Sets.isOver_or_width_le (h : Sets permits specs crew) :
    crew.isOver = true ∨ crew.width ≤ specs.length := by
  rcases h with rfl | rfl
  · cases specs with
    | nil => exact .inl rfl
    | cons spec specs => exact .inr (by simp [Crew.width])
  · exact .inr (by simp [Crew.width, Pool.start])

theorem left_start_pool (permits : Nat) (specs : List EnvSpec) :
    (Crew.parallel permits specs).left =
      specs.foldr (fun spec n => Phase.left spec .fresh + 3 + n) 0 := by
  have hjobs : (specs.map fun _ => Job.queued).mapIdx (fun i job => job.left specs[i]?) =
      specs.map (fun spec => Phase.left spec .fresh + 3) := by
    refine List.ext_getElem (by simp) fun i hi _ => ?_
    have hlt : i < specs.length := by simpa using hi
    simp [Job.left, hlt]
  simp only [Crew.left, Pool.left, Pool.start, hjobs, List.foldr_map]

theorem two_mul_left_le (specs : List EnvSpec) {k : Nat} (hk : k ≤ 3) :
    2 * specs.foldr (fun spec n => Phase.left spec .fresh + k + n) 0 + 8 ≤ Crew.bound specs := by
  rw [Crew.bound]
  induction specs with
  | nil => simp
  | cons spec specs ih =>
    have := Dependency.length_resolve_le spec.deps
    simp only [List.foldr_cons, Task.bound, Phase.left] at *
    omega

/-- The rounds of a run are enough for what is left at its start. -/
theorem Sets.left_le (h : Sets permits specs crew) : 2 * crew.left + 2 ≤ Crew.bound specs := by
  rcases h with rfl | rfl
  · have := two_mul_left_le specs (k := 2) (by omega)
    simp only [Crew.left, Row.left, Row.start, Option.elim_none]
    omega
  · have := two_mul_left_le specs (k := 3) (by omega)
    rw [left_start_pool]
    omega

/-! ### The end -/

/-- What a stand of a run may be. -/
structure Answers (c : Config) (s : Selection) (o : RunOptions) (w : World) (x : Stand × World) :
    Prop where
  refused : (∃ cause, x.1 = .ended (.refused cause)) ↔ Refuses c s o
  untouched : Refuses c s o → x.2 = w
  broken : x.1 = .ended .broken ↔ ¬ Refuses c s o ∧ Overflows c s o
  reported : ∀ r, x.1 = .ended (.reported r) → ∃ found, s.resolve c = .ok found ∧
    found.Sublist c.environments ∧ Reports found r

theorem after_answers (c : Config) (s : Selection) (o : RunOptions) (runId : Uuid) (w : World)
    {moves : List Move} (hm : ∀ m ∈ moves, m.Steady) :
    Answers c s o w (after c s o runId w moves) := by
  have hb := begin_begins c s o w
  rw [after]
  generalize begin c s o w = x at hb
  cases hb with
  | refuse cause h =>
    exact ⟨iff_of_true ⟨cause, rfl⟩ h, fun _ => rfl, by simp [h], nofun⟩
  | overflow w' h hover =>
    exact ⟨by simp [h], fun h' => absurd h' h, by simp [h, hover], nofun⟩
  | go found specs crew w' h hover hfound _ hnames hcrew _ =>
    rcases hcrew.conclude_eq runId w w' hm with ⟨-, r, w'', heq, hr⟩ | ⟨-, heq⟩
    · simp only [heq]
      refine ⟨by simp [h], fun h' => absurd h' h, by simp [hover], ?_⟩
      rintro r' ⟨⟩
      exact ⟨found, hfound, Selection.resolve_sublist hfound, hnames ▸ hr.names, hr.exit⟩
    · simp only [heq]
      exact ⟨by simp [h], fun h' => absurd h' h, by simp [hover], nofun⟩

/-- Under a fair schedule a run that begins comes to its report, or hangs for good. -/
theorem after_ends {c : Config} {s : Selection} {o : RunOptions} (hr : ¬ Refuses c s o)
    (ho : ¬ Overflows c s o) (runId : Uuid) (w : World) {σ : Schedule} (hm : ∀ n, (σ n).Steady)
    (hσ : σ.Fair c.environments.length) :
    (∃ n r, (after c s o runId w (σ.before n)).1 = .ended (.reported r)) ∨
      ∃ n, ∀ m ≥ n, ∃ crew w', after c s o runId w (σ.before m) = (.going crew, w') ∧
        crew.Hangs w' := by
  have hsteady (n : Nat) : ∀ m ∈ σ.before n, m.Steady := by
    intro m hmem
    obtain ⟨k, -, rfl⟩ := List.mem_map.1 hmem
    exact hm k
  have hb := begin_begins c s o w
  simp only [after]
  generalize begin c s o w = x at hb
  cases hb with
  | refuse cause h => exact absurd h hr
  | overflow w' h hover => exact absurd hover ho
  | go found specs crew w' h hover hfound hspecs hnames hcrew hpermits =>
    dsimp only
    -- a run that is not over goes on, so the two ends of its environments are its own
    have hreport (n : Nat) (hover : (crew.after w' (σ.before n)).1.isOver = true) :
        ∃ n r, (conclude runId w (crew.after w' (σ.before n)).1 (crew.after w' (σ.before n)).2).1 =
          .ended (.reported r) := by
      rcases hcrew.conclude_eq runId w w' (hsteady n) with ⟨-, r, w'', heq, -⟩ | ⟨hno, -⟩
      · exact ⟨n, r, by rw [heq]⟩
      · rw [hover] at hno
        cases hno
    have hlen : specs.length ≤ c.environments.length := by
      have hfl := congrArg List.length hnames
      have := (Selection.resolve_sublist hfound).length_le
      simp only [List.length_map] at hfl
      omega
    rcases hcrew.isOver_or_width_le with hstart | hwidth
    · exact .inl (hreport 0 hstart)
    · rcases Crew.ends_or_hangs (hcrew.sound hpermits) w' (hσ.mono (Nat.le_trans hwidth hlen)) with
        ⟨n, hn | hn⟩ | ⟨n, hn⟩
      · exact .inl (hreport n hn)
      · have hnot : crew.isBroken = false := by rcases hcrew with rfl | rfl <;> rfl
        rw [Crew.after_isBroken hnot w' (hsteady n)] at hn
        cases hn
      · by_cases hany : ∃ m, (crew.after w' (σ.before m)).1.isOver = true
        · obtain ⟨m, hm⟩ := hany
          exact .inl (hreport m hm)
        · refine .inr ⟨n, fun m hm => ?_⟩
          rcases hcrew.conclude_eq runId w w' (hsteady m) with ⟨hov, -⟩ | ⟨-, heq⟩
          · exact absurd ⟨m, hov⟩ hany
          · exact ⟨_, _, heq, hn m hm⟩

/-- A run on its own is a run under one of the schedules, and stops short of its report only where
it hangs. -/
theorem run_eq_after {f : Facilities} (hf : f.Steady) (c : Config) (s : Selection) (o : RunOptions)
    (runId : Uuid) (w : World) :
    ∃ moves, (∀ m ∈ moves, m.IsQuiet f) ∧ run f c s o runId w = after c s o runId w moves ∧
      ∀ crew w', run f c s o runId w = (.going crew, w') → crew.Hangs w' := by
  have hb := begin_begins c s o w
  simp only [after, run]
  generalize begin c s o w = x at hb
  cases hb with
  | refuse cause h => exact ⟨[], by simp, rfl, by simp⟩
  | overflow w' h hover => exact ⟨[], by simp, rfl, by simp⟩
  | go found specs crew w' h hover hfound hspecs hnames hcrew hpermits =>
    dsimp only
    have hbound : bound c s o = Crew.bound specs := by rw [bound, hspecs]
    have hfuel : 2 * crew.left + 2 ≤ bound c s o := by
      rw [hbound]
      exact hcrew.left_le
    obtain ⟨moves, hquiet, heq⟩ := crew.drive_eq_after f (bound c s o) w'
    have hends := Crew.drive_ends (w := w') f (hcrew.sound hpermits) hfuel
    refine ⟨moves, hquiet, by rw [heq], fun crew' w'' hgo => ?_⟩
    rw [heq] at hends hgo
    have hsteady : ∀ m ∈ moves, m.Steady := fun m hm => (hquiet m hm).steady hf
    rcases hcrew.conclude_eq runId w w' hsteady with ⟨-, r, w₁, hc, -⟩ | ⟨hno, hc⟩
    · rw [hc] at hgo
      cases hgo
    · rw [hc] at hgo
      cases hgo
      have hnot : crew.isBroken = false := by rcases hcrew with rfl | rfl <;> rfl
      have hb' := Crew.after_isBroken hnot w' hsteady
      simpa [hno, hb'] using hends

/-- A run of a configuration that was accepted is refused just when its options or its selection are
bad, and then nothing was done; otherwise, and unless too many permits are asked for, it comes to a
report on the selected environments, or hangs. -/
theorem ends_in_report {root : Path} {text : String} {c : Config}
    (hc : Config.parse root text = .ok c) (s : Selection) (o : RunOptions) (runId : Uuid)
    (w : World) :
    (∀ moves : List Move, (∀ m ∈ moves, m.Steady) →
      Answers c s o w (after c s o runId w moves) ∧
        ∀ r, (after c s o runId w moves).1 = .ended (.reported r) → r.names.Nodup) ∧
    (∀ σ : Schedule, (∀ n, (σ n).Steady) → σ.Fair c.environments.length →
      ¬ Refuses c s o → ¬ Overflows c s o →
      (∃ n r, (after c s o runId w (σ.before n)).1 = .ended (.reported r)) ∨
        ∃ n, ∀ m ≥ n, ∃ crew w', after c s o runId w (σ.before m) = (.going crew, w') ∧
          crew.Hangs w') ∧
    ∀ f : Facilities, f.Steady → ∃ moves : List Move, (∀ m ∈ moves, m.Steady) ∧
      run f c s o runId w = after c s o runId w moves ∧
      ∀ crew w', run f c s o runId w = (.going crew, w') → crew.Hangs w' := by
  refine ⟨fun moves hm => ?_, fun σ hm hσ hr ho => after_ends hr ho runId w hm hσ, fun f hf => ?_⟩
  · have ha := after_answers c s o runId w hm
    refine ⟨ha, fun r hr => ?_⟩
    obtain ⟨found, -, hsub, hrep⟩ := ha.reported r hr
    rw [hrep.names]
    exact (Config.parse_names hc).1.sublist (hsub.map EnvSpec.name)
  · obtain ⟨moves, hquiet, heq, hhangs⟩ := run_eq_after hf c s o runId w
    exact ⟨moves, fun m hm => (hquiet m hm).steady hf, heq, hhangs⟩

/-- A configuration with one environment and no commands. -/
def lone : Config :=
  ⟨⟨"/"⟩, ⟨⟨"/.envrun"⟩, none, 1, false, InstallCommand.default, [0]⟩,
    [⟨"a", none, [], [], [], [], none, false, 0⟩]⟩

theorem parse_lone : Config.parse ⟨"/"⟩ "[[env]]\nname=\"a\"" = .ok lone := by cbv

theorem willing_steady : Facilities.willing.Steady := by
  intro external h i cutAt
  cases external <;> exact nofun

theorem ends_in_report_lone :
    let o : RunOptions := ⟨none, none, none, []⟩
    let w := World.start default
    let moves := List.replicate 3 (.turn .willing 0)
    let σ := Schedule.roundRobin .willing 1
    Config.parse ⟨"/"⟩ "[[env]]\nname=\"a\"" = .ok lone ∧
      Answers lone .all o w (after lone .all o .nil w moves) ∧
      (∃ r, (after lone .all o .nil w moves).1 = .ended (.reported r) ∧ r.names.Nodup ∧
        r.exitCode = 0) ∧
      ((∃ n r, (after lone .all o .nil w (σ.before n)).1 = .ended (.reported r)) ∨
        ∃ n, ∀ m ≥ n, ∃ crew w', after lone .all o .nil w (σ.before m) = (.going crew, w') ∧
          crew.Hangs w') ∧
      ∃ moves : List Move, run .willing lone .all o .nil w = after lone .all o .nil w moves := by
  intro o w moves σ
  obtain ⟨hafter, hends, hrun⟩ := ends_in_report parse_lone .all o .nil w
  have hsteady : ∀ m ∈ moves, m.Steady := fun m hm => by
    rw [List.eq_of_mem_replicate hm]
    exact willing_steady
  have hσ (n : Nat) : (σ n).Steady := by
    simp only [σ, Schedule.roundRobin]
    split
    · exact willing_steady
    · trivial
  have hr : ¬ Refuses lone .all o := by
    rintro (h | ⟨names, h, -⟩)
    · cases h
    · cases h
  have ho : ¬ Overflows lone .all o := fun h => absurd h.1 (by decide)
  obtain ⟨moves', -, heq, -⟩ := hrun .willing willing_steady
  exact ⟨parse_lone, (hafter moves hsteady).1, ⟨_, rfl, (hafter moves hsteady).2 _ rfl, rfl⟩,
    hends σ hσ (Schedule.roundRobin_fair _ _) hr ho, moves', heq⟩

end Run

end Testbed
