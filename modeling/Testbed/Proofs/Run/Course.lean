import Mathlib.Data.List.Forall2
import Mathlib.Data.List.Induction
import Testbed.Proofs.Run.Turn

/-! The result of an environment is that of its own task, whatever happens around it. The course of
a task is the task with the scenes in which it started and moved, and each environment of a row or a
pool has one of its own. Side by side, results travel as messages with an index, in the order in
which they come about; an account of every job ties what was sent, who holds a permit and which slot
is filled to the courses of the tasks. -/
namespace Testbed

namespace Crew

/-- The scenes of some moves, in which a job was looked at. -/
def scenes : Crew → World → List Move → List Scene
  | _, _, [] => []
  | c, w, m :: moves => (m.scene? w).toList ++ scenes (c.make w m).1 (c.make w m).2 moves

/-- The job that a move gives a turn, and what it sees then. -/
def seen? (c : Crew) (w : World) : Move → Option (Nat × Scene)
  | .turn f i => some (i, ⟨f, w⟩)
  | .race f i => if (c.task? i).any Task.races then some (i, ⟨f, w.unaware⟩) else none
  | .wait _ | .cancel | .meddle _ | .kill .. | .land _ => none

/-- The place that the environment of a job has among all. -/
def place : Crew → Nat → Nat
  | .row r, _ => r.results.length
  | .pool _, i => i

/-- Whether the task of a job starts or makes a step when it has its turn: then it is under way. -/
def stirs (c : Crew) (i : Nat) (x : Scene) : Bool :=
  match c.turn x.facilities x.world i with
  | .moved c' _ => (c'.task? i).isSome
  | .blocked _ => false

/-- The scene of a move if the task of the environment at a place starts or makes a step in it. -/
def scene? (c : Crew) (k : Nat) (w : World) (m : Move) : Option Scene :=
  match c.seen? w m with
  | some (i, x) => if c.place i = k ∧ c.stirs i x = true then some x else none
  | none => none

/-- The scenes in which the task of the environment at a place started and made its steps. -/
def course (k : Nat) : Crew → World → List Move → List Scene
  | _, _, [] => []
  | c, w, m :: moves => (c.scene? k w m).toList ++ course k (c.make w m).1 (c.make w m).2 moves

end Crew

namespace Task

/-- A task that started in the first of the scenes and made a step in each of the others. -/
inductive Course (spec : EnvSpec) : List Scene → Task → Prop
  | start (x : Scene) : Course spec [x] (Task.start spec x.world)
  | step {xs : List Scene} {t t' : Task} {w' : World} (x : Scene) (h : Course spec xs t)
      (hs : t.step x.facilities x.world = .moved t' w') : Course spec (xs ++ [x]) t'

/-- The environment run in these scenes, and in no others, has that result. -/
def Finishes (xs : List Scene) (spec : EnvSpec) (r : EnvResult) : Prop :=
  ∃ t, Course spec xs t ∧ t.phase = .finished r

/-- A task has got so far in some of the scenes. -/
def Reaches (xs : List Scene) (spec : EnvSpec) (t : Task) : Prop :=
  ∃ ys, ys.Sublist xs ∧ Course spec ys t

/-- The environment run in some of the scenes has that result. -/
def Yields (xs : List Scene) (spec : EnvSpec) (r : EnvResult) : Prop :=
  ∃ t, Reaches xs spec t ∧ t.phase = .finished r

variable {xs ys : List Scene} {spec : EnvSpec} {t t' : Task} {r r' : EnvResult}

theorem Reaches.mono (h : Reaches xs spec t) (hs : xs.Sublist ys) : Reaches ys spec t := by
  obtain ⟨zs, hzs, hc⟩ := h
  exact ⟨zs, hzs.trans hs, hc⟩

theorem Course.ne_nil (h : Course spec xs t) : xs ≠ [] := by
  cases h <;> simp

/-- What becomes of a task is up to what it goes through. -/
theorem Course.unique (h : Course spec xs t) (h' : Course spec xs t') : t = t' := by
  induction h generalizing t' with
  | start x =>
    generalize hxs : [x] = xs at h'
    cases h' with
    | start y => rw [List.singleton_inj.1 hxs]
    | step y hc _ =>
      rw [← List.nil_append [x]] at hxs
      exact absurd (List.append_inj_left' hxs rfl).symm hc.ne_nil
  | @step zs _ _ _ x hc hs ih =>
    generalize hxs : zs ++ [x] = xs at h'
    cases h' with
    | start y =>
      rw [← List.nil_append [y]] at hxs
      exact absurd (List.append_inj_left' hxs rfl) hc.ne_nil
    | step y hc' hs' =>
      obtain ⟨rfl, heq⟩ := List.append_inj' hxs rfl
      obtain rfl := List.singleton_inj.1 heq
      obtain rfl := ih hc'
      rw [hs] at hs'
      cases hs'
      rfl

theorem Finishes.unique (h : Finishes xs spec r) (h' : Finishes xs spec r') : r = r' := by
  obtain ⟨t, hc, hr⟩ := h
  obtain ⟨t', hc', hr'⟩ := h'
  obtain rfl := hc.unique hc'
  rw [hr] at hr'
  exact Phase.finished.inj hr'

/-- A task stays with its environment, and so does its result. -/
theorem Course.names (h : Course spec xs t) :
    t.spec = spec ∧ ∀ r, t.phase = .finished r → r.name = spec.name := by
  induction h with
  | start x => exact ⟨rfl, fun r hr => by cases hr⟩
  | step x _ hs ih =>
    have hspec := (Task.step_follows hs).spec.trans ih.1
    exact ⟨hspec, fun r hr => (Task.step_result_name hs hr).trans (congrArg EnvSpec.name hspec)⟩

theorem Finishes.name (h : Finishes xs spec r) : r.name = spec.name := by
  obtain ⟨t, hc, hr⟩ := h
  exact hc.names.2 r hr

theorem Finishes.yields (h : Finishes ys spec r) (hs : ys.Sublist xs) : Yields xs spec r := by
  obtain ⟨t, hc, hr⟩ := h
  exact ⟨t, ⟨ys, hs, hc⟩, hr⟩

theorem Yields.name (h : Yields xs spec r) : r.name = spec.name := by
  obtain ⟨t, ⟨_, _, hc⟩, hr⟩ := h
  exact hc.names.2 r hr

end Task

/-! ### Environments and their results -/

namespace Task

/-- Each result is that of the environment at its place, in the course at that place. -/
structure AllFinish (cs : Nat → List Scene) (specs : List EnvSpec) (results : List EnvResult) :
    Prop where
  length : results.length = specs.length
  entry : ∀ (i : Nat) (spec : EnvSpec) (e : EnvResult), specs[i]? = some spec →
    results[i]? = some e → Finishes (cs i) spec e

variable {cs cs' : Nat → List Scene} {done : List EnvSpec} {results results' : List EnvResult}

theorem AllFinish.congr (h : AllFinish cs done results) (hc : ∀ k, k < done.length → cs' k = cs k) :
    AllFinish cs' done results where
  length := h.length
  entry i spec e hs he := by
    rw [hc i (List.getElem?_eq_some_iff.1 hs).1]
    exact h.entry i spec e hs he

theorem AllFinish.concat {spec : EnvSpec} {e : EnvResult} (h : AllFinish cs done results)
    (he : Finishes (cs done.length) spec e) :
    AllFinish cs (done ++ [spec]) (results ++ [e]) where
  length := by simp [h.length]
  entry i spec' e' hs he' := by
    rw [List.getElem?_append] at hs he'
    by_cases hi : i < done.length
    · rw [if_pos hi] at hs
      rw [if_pos (h.length ▸ hi)] at he'
      exact h.entry i spec' e' hs he'
    · rw [if_neg hi, List.getElem?_singleton] at hs
      rw [if_neg (h.length ▸ hi), List.getElem?_singleton, h.length] at he'
      split at hs
      next hzero =>
        rw [if_pos hzero] at he'
        obtain rfl : i = done.length := by omega
        cases hs
        cases he'
        exact he
      next => cases hs

/-- The results are those of the environments, in their order. -/
theorem AllFinish.yields {xs : List Scene} (h : AllFinish cs done results)
    (hsub : ∀ k, (cs k).Sublist xs) : List.Forall₂ (Yields xs) done results := by
  rw [List.forall₂_iff_get]
  refine ⟨h.length.symm, fun i hi hi' => ?_⟩
  exact (h.entry i _ _ (List.getElem?_eq_getElem hi) (List.getElem?_eq_getElem hi')).yields (hsub i)

end Task

/-! ### The contexts of a task -/

/-- A task that is building a context, or has one, does so for its own environment. -/
def Task.IsHome (p : Provisioner) (t : Task) : Prop :=
  match t.phase with
  | .provisioning s => s.name = t.spec.name
  | .commands c _ | .awaiting c _ _ | .closing c _ =>
    c.name = t.spec.name ∧ c.dir = p.envDir t.spec.name
  | .fresh | .finished _ | .aborted => True

theorem Task.Follows.isHome {f : Facilities} {cancelled : Bool} {t t' : Task}
    (h : Task.Follows f cancelled t t') (ht : t.IsHome f.provisioner) :
    t'.IsHome f.provisioner := by
  obtain ⟨hspec, -, he⟩ := h
  unfold IsHome at ht ⊢
  rw [hspec]
  generalize t.phase = a at ht he
  generalize t'.phase = b at he
  cases he with
  | provision s hn => exact hn
  | build hs => exact hs.name.trans ht
  | enter s => exact ⟨ht, congrArg f.provisioner.envDir ht⟩
  | skip | halt | outcome | launch | collect | leave => exact ht
  | pass | fail | abort | abortWaiting | close => trivial

theorem Task.Course.isHome {p : Provisioner} {spec : EnvSpec} {xs : List Scene} {t : Task}
    (h : Task.Course spec xs t) (hx : ∀ x ∈ xs, x.facilities.provisioner = p) : t.IsHome p := by
  induction h with
  | start x => trivial
  | step x _ hs ih =>
    have hlast : x.facilities.provisioner = p := hx x (by simp)
    subst hlast
    exact (Task.step_follows hs).isHome (ih fun y hy => hx y (by simp [hy]))

/-! ### Moves at the end -/

namespace Crew

theorem after_concat (c : Crew) (w : World) (moves : List Move) (m : Move) :
    c.after w (moves ++ [m]) = (c.after w moves).1.make (c.after w moves).2 m := by
  simp [after]

theorem scenes_concat (c : Crew) (w : World) (moves : List Move) (m : Move) :
    c.scenes w (moves ++ [m]) = c.scenes w moves ++ (m.scene? (c.after w moves).2).toList := by
  induction moves generalizing c w with
  | nil => simp [scenes, after]
  | cons m' moves ih =>
    simp only [List.cons_append, scenes, ih, List.append_assoc]
    rfl

theorem course_concat (k : Nat) (c : Crew) (w : World) (moves : List Move) (m : Move) :
    c.course k w (moves ++ [m]) =
      c.course k w moves ++ ((c.after w moves).1.scene? k (c.after w moves).2 m).toList := by
  induction moves generalizing c w with
  | nil => simp [course, after]
  | cons m' moves ih =>
    simp only [List.cons_append, course, ih, List.append_assoc]
    rfl

variable {c : Crew} {w : World} {m : Move} {i : Nat} {x : Scene}

theorem scene?_of_seen (h : c.seen? w m = some (i, x)) : m.scene? w = some x := by
  cases m with
  | turn f j =>
    cases h
    rfl
  | race f j =>
    simp only [seen?] at h
    split at h
    · cases h
      rfl
    · cases h
  | _ => cases h

theorem scene?_le (k : Nat) (c : Crew) (w : World) (m : Move) :
    (c.scene? k w m).toList.Sublist (m.scene? w).toList := by
  unfold scene?
  split
  next i x h =>
    rw [scene?_of_seen h]
    split
    · exact List.Sublist.refl _
    · exact List.nil_sublist _
  next => exact List.nil_sublist _

/-- A task that starts or moves was looked at. -/
theorem course_sublist (k : Nat) (c : Crew) (w : World) (moves : List Move) :
    (c.course k w moves).Sublist (c.scenes w moves) := by
  induction moves generalizing c w with
  | nil => exact List.Sublist.refl _
  | cons m moves ih => exact (scene?_le k c w m).append (ih ..)

/-- The courses of all environments after one more move. -/
def goOn (c : Crew) (cs : Nat → List Scene) (w : World) (m : Move) (k : Nat) : List Scene :=
  cs k ++ (c.scene? k w m).toList

theorem goOn_of_unseen (h : c.seen? w m = none) (cs : Nat → List Scene) : c.goOn cs w m = cs := by
  funext k
  simp [goOn, scene?, h]

theorem goOn_of_seen (h : c.seen? w m = some (i, x)) (cs : Nat → List Scene) :
    c.goOn cs w m =
      if c.stirs i x then Function.update cs (c.place i) (cs (c.place i) ++ [x]) else cs := by
  funext k
  cases hs : c.stirs i x with
  | false => simp [goOn, scene?, h, hs]
  | true =>
    by_cases hk : c.place i = k
    · subst hk
      simp [goOn, scene?, h, hs]
    · simp [goOn, scene?, h, hk, Function.update_of_ne (Ne.symm hk)]

/-- A move leaves all jobs as they are, kills one, or gives one a turn. If its task is under way after
the turn, then that belongs to the course of its environment. -/
inductive Goes (c : Crew) (cs : Nat → List Scene) (w : World) : Crew → (Nat → List Scene) → Prop
  | same : Goes c cs w c cs
  | kill (f : Facilities) (i : Nat) : Goes c cs w (c.kill f w i).1 cs
  | turn {i : Nat} {x : Scene} {c' : Crew} {w' : World}
      (h : c.turn x.facilities x.world i = .moved c' w') :
      Goes c cs w c' (if (c'.task? i).isSome then
        Function.update cs (c.place i) (cs (c.place i) ++ [x]) else cs)

theorem go_goes (h : c.seen? w m = some (i, x)) (cs : Nat → List Scene) :
    c.Goes cs w (c.go x.facilities x.world i).1 (c.goOn cs w m) := by
  rw [goOn_of_seen h, go]
  cases hturn : c.turn x.facilities x.world i with
  | blocked =>
    have hstill : c.stirs i x = false := by simp only [stirs, hturn]
    rw [hstill]
    exact .same
  | moved c' w' =>
    have hstirs : c.stirs i x = (c'.task? i).isSome := by simp only [stirs, hturn]
    rw [hstirs]
    exact .turn hturn

theorem make_goes (c : Crew) (cs : Nat → List Scene) (w : World) (m : Move) :
    c.Goes cs w (c.make w m).1 (c.goOn cs w m) := by
  cases m with
  | turn f i => exact go_goes (m := .turn f i) rfl cs
  | race f i =>
    cases hr : (c.task? i).any Task.races with
    | true =>
      have hseen : c.seen? w (.race f i) = some (i, ⟨f, w.unaware⟩) := by simp [seen?, hr]
      simpa only [make, hr, if_true] using go_goes hseen cs
    | false =>
      rw [goOn_of_unseen (by simp [seen?, hr])]
      simpa [make, hr] using Goes.same
  | kill f i =>
    rw [goOn_of_unseen rfl]
    exact .kill f i
  | wait | cancel | meddle | land =>
    rw [goOn_of_unseen rfl]
    exact .same

end Crew

/-! ### One after the other -/

/-- The environments of a row are those that are done, with their results, the one under way and
those to come, which have not been looked at. -/
inductive Row.Accounted (specs : List EnvSpec) (cs : Nat → List Scene) (r : Row) : Prop
  | between (done : List EnvSpec) (hs : specs = done ++ r.rest) (hc : r.current = none)
      (hd : Task.AllFinish cs done r.results) (hl : ∀ k, done.length ≤ k → cs k = [])
  | amid (done : List EnvSpec) (spec : EnvSpec) (t : Task) (hs : specs = done ++ spec :: r.rest)
      (hc : r.current = some t) (hd : Task.AllFinish cs done r.results)
      (ht : t.phase = .aborted ∨ Task.Course spec (cs done.length) t)
      (hl : ∀ k, done.length < k → cs k = [])

namespace Row

variable {specs : List EnvSpec} {cs cs' : Nat → List Scene} {r r' : Row} {w w' : World}

theorem start_accounted (specs : List EnvSpec) : Accounted specs (fun _ => []) (.start specs) :=
  .between [] rfl rfl ⟨rfl, nofun⟩ fun _ _ => rfl

/-- The task under way makes a move in its own course. -/
theorem Next.accounted {x : Scene} (h : Next x.facilities x.world r r' w')
    (hr : Accounted specs cs r) :
    Accounted specs (if r'.current.isSome then
      Function.update cs r.results.length (cs r.results.length ++ [x]) else cs) r' := by
  cases h with
  | begin hc hrest =>
    cases hr with
    | between done he _ hd hl =>
      rw [hd.length, hl _ (Nat.le_refl _)]
      refine .amid done _ _ (by rw [he, hrest]) rfl (hd.congr fun k hk => ?_) (.inr ?_) fun k hk => ?_
      · exact Function.update_of_ne (Nat.ne_of_lt hk) _ _
      · rw [Option.isSome_some, if_pos rfl, Function.update_self]
        exact .start x
      · exact (Function.update_of_ne (Nat.ne_of_gt hk) _ _).trans (hl k (Nat.le_of_lt hk))
    | amid done spec t he hc' => simp [hc] at hc'
  | work hc hstep =>
    cases hr with
    | between done he hc' => simp [hc] at hc'
    | amid done spec t he hc' hd ht hl =>
      obtain rfl := Option.some.inj (hc.symm.trans hc')
      have hlive := ht.resolve_left fun ha => Task.not_isOver_of_step hstep (.inr ha)
      rw [hd.length]
      refine .amid done spec _ he rfl (hd.congr fun k hk => ?_) (.inr ?_) fun k hk => ?_
      · exact Function.update_of_ne (Nat.ne_of_lt hk) _ _
      · rw [Option.isSome_some, if_pos rfl, Function.update_self]
        exact .step x hlive hstep
      · exact (Function.update_of_ne (Nat.ne_of_gt hk) _ _).trans (hl k hk)
  | take hc hfin =>
    cases hr with
    | between done he hc' => simp [hc] at hc'
    | amid done spec t he hc' hd ht hl =>
      obtain rfl := Option.some.inj (hc.symm.trans hc')
      have hcourse := ht.resolve_left fun ha => by simp [ha] at hfin
      refine .between (done ++ [spec]) (by simp [he]) rfl (hd.concat ⟨_, hcourse, hfin⟩) fun k hk => ?_
      rw [List.length_append, List.length_singleton] at hk
      exact hl k hk

theorem Accounted.kill (f : Facilities) (w : World) (hr : Accounted specs cs r) :
    Accounted specs cs (r.kill f w).1 := by
  unfold Row.kill
  split
  next t hc =>
    split
    · exact hr
    · exact hr
    · cases hr with
      | between done he hc' => simp [hc] at hc'
      | amid done spec t' he hc' hd _ hl => exact .amid done spec _ he rfl hd (.inl rfl) hl
  next => exact hr

theorem Accounted.goes {c : Crew} (hr : Accounted specs cs r)
    (h : (Crew.row r).Goes cs w c cs') : ∃ r', c = .row r' ∧ Accounted specs cs' r' := by
  cases h with
  | same => exact ⟨r, rfl, hr⟩
  | kill f => exact ⟨_, rfl, hr.kill f w⟩
  | turn hturn =>
    obtain ⟨r', hr', rfl⟩ := Turn.map_moved hturn
    exact ⟨r', rfl, (turn_next hr').accounted hr⟩

end Row

/-- A row of environments has been brought on by any moves. -/
theorem Crew.row_accounted (specs : List EnvSpec) (w : World) (moves : List Move) :
    ∃ r, ((Crew.row (.start specs)).after w moves).1 = .row r ∧
      Row.Accounted specs (fun k => (Crew.row (.start specs)).course k w moves) r := by
  induction moves using List.reverseRecOn with
  | nil => exact ⟨_, rfl, Row.start_accounted specs⟩
  | append_singleton moves m ih =>
    obtain ⟨r, hr, ha⟩ := ih
    obtain ⟨r', hr', ha'⟩ :=
      ha.goes (Crew.make_goes _ _ ((Crew.row (.start specs)).after w moves).2 m)
    refine ⟨r', by rw [Crew.after_concat, hr, hr'], ?_⟩
    simp only [Crew.course_concat, hr]
    exact ha'

/-! ### Side by side -/

namespace Pool

variable {specs : List EnvSpec} {cs cs' : Nat → List Scene} {xs : List Scene} {p p' : Pool}
  {i j : Nat} {w w' : World}

/-- How a job stands to what was sent. -/
def Accounts (xs : List Scene) (p : Pool) (i : Nat) (spec : EnvSpec) : Job → Prop
  | .queued => p.slot? i = none ∧ xs = []
  | .active t => p.slot? i = none ∧ Task.Course spec xs t
  | .reporting r => p.slot? i = none ∧ Task.Finishes xs spec r
  | .closed => ∃ r, p.slot? i = some r ∧ Task.Finishes xs spec r
  | .dead => p.slot? i = none

/-- A pool in which there is a job for every environment, no more jobs are under way than there are
permits, and every job is accounted for. -/
structure Accounted (permits : Nat) (specs : List EnvSpec) (cs : Nat → List Scene) (p : Pool) :
    Prop where
  limit : p.permits = permits
  envs : p.specs = specs
  width : p.jobs.length = specs.length
  inFlight : p.inFlight ≤ permits
  jobs : ∀ i spec job, specs[i]? = some spec → p.jobs[i]? = some job → Accounts (cs i) p i spec job

theorem Accounts.slot {spec : EnvSpec} {job : Job} (h : Accounts xs p i spec job)
    (ho : job.isOver = false) : p.slot? i = none := by
  cases job with
  | queued | active | reporting => exact h.1
  | closed | dead => cases ho

theorem Accounts.congr {spec : EnvSpec} {job : Job} (h : Accounts xs p i spec job)
    (hs : p'.slot? i = p.slot? i) : Accounts xs p' i spec job := by
  cases job <;> simp only [Accounts, hs] <;> exact h

/-- A message fills the slot of its index. -/
theorem slot?_send (p : Pool) (i j : Nat) (job : Job) (r : EnvResult) :
    slot? { p.setJob i job with sent := p.sent ++ [(i, r)] } j =
      if i = j then some r else p.slot? j := by
  simp only [slot?, List.reverse_append, List.reverse_singleton, List.singleton_append,
    List.find?_cons]
  split
  next h =>
    obtain rfl : i = j := by simpa using h
    simp
  next h =>
    have hne : i ≠ j := by simpa using h
    simp [hne]

theorem start_accounted (permits : Nat) (specs : List EnvSpec) :
    Accounted permits specs (fun _ => []) (.start permits specs) where
  limit := rfl
  envs := rfl
  width := by simp [start]
  inFlight := by simp [start, inFlight, List.countP_replicate, Job.inFlight]
  jobs := by
    intro i spec job hs hj
    simp only [start, List.getElem?_map, hs, Option.map_some, Option.some.injEq] at hj
    subst hj
    exact ⟨rfl, rfl⟩

theorem inFlight_setJob {job : Job} (job' : Job) (hj : p.jobs[i]? = some job) :
    (p.setJob i job').inFlight =
      p.inFlight - (if job.inFlight then 1 else 0) + if job'.inFlight then 1 else 0 := by
  obtain ⟨hi, rfl⟩ := List.getElem?_eq_some_iff.1 hj
  exact List.countP_set hi

theorem inFlight_pos {job : Job} (hj : p.jobs[i]? = some job) (hf : job.inFlight = true) :
    0 < p.inFlight :=
  List.countP_pos_iff.2 ⟨job, List.mem_of_getElem? hj, hf⟩

/-- Another state of one job, that is accounted for, is as good. -/
theorem Accounted.setJob {permits : Nat} {job job' : Job} (h : Accounted permits specs cs p)
    (hc : ∀ k, k ≠ i → cs' k = cs k) (hj : p.jobs[i]? = some job)
    (hf : job'.inFlight = true → job.inFlight = true ∨ p.inFlight < permits)
    (ha : ∀ spec, specs[i]? = some spec → Accounts (cs' i) p i spec job') :
    Accounted permits specs cs' (p.setJob i job') where
  limit := h.limit
  envs := h.envs
  width := by simpa [Pool.setJob] using h.width
  inFlight := by
    have hle := h.inFlight
    rw [inFlight_setJob job' hj]
    cases hn : job'.inFlight with
    | false => simpa using Nat.le_add_right_of_le hle
    | true =>
      rcases hf hn with ho | hlt
      · have := inFlight_pos hj ho
        simp only [ho, if_true]
        omega
      · simp only [if_true]
        omega
  jobs := by
    intro k spec job'' hk hj''
    simp only [Pool.setJob] at hj''
    by_cases hik : i = k
    · subst hik
      have hi : i < p.jobs.length := (List.getElem?_eq_some_iff.1 hj).1
      obtain rfl : job' = job'' := by simpa [hi] using hj''
      exact ha spec hk
    · rw [List.getElem?_set_ne hik] at hj''
      rw [hc k (Ne.symm hik)]
      exact h.jobs k spec job'' hk hj''

/-- The message fills the slot of the job that sent it, which is closed. -/
theorem Accounted.send {permits : Nat} {r : EnvResult} (hp : Accounted permits specs cs p)
    (hj : p.jobs[i]? = some (.reporting r)) :
    Accounted permits specs cs { p.setJob i .closed with sent := p.sent ++ [(i, r)] } := by
  have hq : Accounted permits specs cs (p.setJob i .dead) :=
    hp.setJob (fun _ _ => rfl) hj nofun fun spec hspec => (hp.jobs i spec _ hspec hj).1
  have hi : i < p.jobs.length := (List.getElem?_eq_some_iff.1 hj).1
  have hflight : (p.setJob i .closed).inFlight ≤ permits := by
    have hle := hq.inFlight
    rw [inFlight_setJob _ hj] at hle
    rw [inFlight_setJob _ hj]
    exact hle
  refine ⟨hq.limit, hq.envs, by simpa [Pool.setJob] using hp.width, hflight, fun k spec job hk hjob => ?_⟩
  have hslot := slot?_send p i k .closed r
  by_cases hik : i = k
  · subst hik
    obtain rfl : .closed = job := by simpa [Pool.setJob, hi] using hjob
    exact ⟨r, by rw [hslot, if_pos rfl], (hp.jobs i spec _ hk hj).2⟩
  · have hjob' : p.jobs[k]? = some job := by simpa [Pool.setJob, hik] using hjob
    rw [if_neg hik] at hslot
    exact (hp.jobs k spec job hk hjob').congr hslot

/-- The task of a job makes a move in its own course. -/
theorem Next.accounted {x : Scene} {permits : Nat} (h : Next x.facilities x.world i p p' w')
    (hp : Accounted permits specs cs p) :
    Accounted permits specs (if ((Crew.pool p').task? i).isSome then
      Function.update cs i (cs i ++ [x]) else cs) p' := by
  have hother {k : Nat} (hk : k ≠ i) : Function.update cs i (cs i ++ [x]) k = cs k :=
    Function.update_of_ne hk _ _
  have hactive {job : Job} (t : Task) (hj : p.jobs[i]? = some job) :
      (Crew.pool (p.setJob i (.active t))).task? i = some t :=
    Crew.task?_pool.2 (getElem?_setJob_self hj)
  have hidle {p' : Pool} {job : Job} (hj : p'.jobs[i]? = some job) (hi : ∀ t, job ≠ .active t) :
      (Crew.pool p').task? i = none :=
    Option.eq_none_iff_forall_ne_some.2 fun t ht =>
      hi t (Option.some.inj (hj.symm.trans (Crew.task?_pool.1 ht)))
  cases h with
  | enter hj hs hlt =>
    rw [hactive _ hj, Option.isSome_some, if_pos rfl]
    refine hp.setJob (fun k => hother) hj (fun _ => .inr (hp.limit ▸ hlt)) fun spec hspec => ?_
    rw [hp.envs, hspec] at hs
    cases hs
    obtain ⟨hslot, hnil⟩ := hp.jobs i _ _ hspec hj
    rw [Function.update_self, hnil]
    exact ⟨hslot, .start x⟩
  | work hj hstep =>
    rw [hactive _ hj, Option.isSome_some, if_pos rfl]
    refine hp.setJob (fun k => hother) hj (fun _ => .inl rfl) fun spec hspec => ?_
    obtain ⟨hslot, hcourse⟩ := hp.jobs i spec _ hspec hj
    rw [Function.update_self]
    exact ⟨hslot, .step x hcourse hstep⟩
  | finish hj ht =>
    rw [hidle (getElem?_setJob_self hj) (by simp)]
    refine hp.setJob (fun _ _ => rfl) hj (fun _ => .inl rfl) fun spec hspec => ?_
    obtain ⟨hslot, hcourse⟩ := hp.jobs i spec _ hspec hj
    exact ⟨hslot, _, hcourse, ht⟩
  | lose hj ht =>
    rw [hidle (getElem?_setJob_self hj) (by simp)]
    exact hp.setJob (fun _ _ => rfl) hj nofun fun spec hspec => (hp.jobs i spec _ hspec hj).1
  | @send r hj =>
    have hclosed : { p.setJob i .closed with sent := p.sent ++ [(i, r)] }.jobs[i]? =
        some .closed := getElem?_setJob_self hj
    rw [hidle hclosed (by simp)]
    exact hp.send hj

theorem Accounted.kill {permits : Nat} (f : Facilities) (w : World) (i : Nat)
    (hp : Accounted permits specs cs p) : Accounted permits specs cs (p.kill f w i).1 := by
  have hdead {job : Job} (hj : p.jobs[i]? = some job) (ho : job.isOver = false) :
      Accounted permits specs cs (p.setJob i .dead) :=
    hp.setJob (fun _ _ => rfl) hj nofun fun spec hspec => (hp.jobs i spec _ hspec hj).slot ho
  unfold Pool.kill
  split
  next hj => exact hdead hj rfl
  next hj => exact hdead hj rfl
  next hj => exact hdead hj rfl
  all_goals exact hp

theorem Accounted.goes {permits : Nat} {c : Crew} (hp : Accounted permits specs cs p)
    (h : (Crew.pool p).Goes cs w c cs') :
    ∃ p', c = .pool p' ∧ Accounted permits specs cs' p' := by
  cases h with
  | same => exact ⟨p, rfl, hp⟩
  | kill f i => exact ⟨_, rfl, hp.kill f w i⟩
  | turn hturn =>
    obtain ⟨p', hp', rfl⟩ := Turn.map_moved hturn
    exact ⟨p', rfl, (turn_next hp').accounted hp⟩

end Pool

/-- A pool of environments has been brought on by any moves. -/
theorem Crew.pool_accounted (permits : Nat) (specs : List EnvSpec) (w : World) (moves : List Move) :
    ∃ p, ((Crew.pool (.start permits specs)).after w moves).1 = .pool p ∧
      Pool.Accounted permits specs
        (fun i => (Crew.pool (.start permits specs)).course i w moves) p := by
  induction moves using List.reverseRecOn with
  | nil => exact ⟨_, rfl, Pool.start_accounted permits specs⟩
  | append_singleton moves m ih =>
    obtain ⟨p, hp, ha⟩ := ih
    obtain ⟨p', hp', ha'⟩ :=
      ha.goes (Crew.make_goes _ _ ((Crew.pool (.start permits specs)).after w moves).2 m)
    refine ⟨p', by rw [Crew.after_concat, hp, hp'], ?_⟩
    simp only [Crew.course_concat, hp]
    exact ha'

end Testbed
