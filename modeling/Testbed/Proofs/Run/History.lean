import Mathlib.Order.WellFounded
import Testbed.Proofs.Run.Turn

/-! What a run comes to under a schedule that lets every job have its turn and time pass. A move
either brings the environments nearer to their end or changes nothing but the time, the host and the
cancellation, so in the end either nothing is left to do, or a task waits for good for something
that never comes. -/
namespace Testbed

/-! ### What is left -/

/-- The turns that are left to a job, one of them for its permit and one for its result. -/
def Job.left (spec? : Option EnvSpec) : Job → Nat
  | .queued => spec?.elim 0 (fun spec => Phase.left spec .fresh) + 3
  | .active t => t.left + 2
  | .reporting _ => 1
  | .closed | .dead => 0

def Pool.left (p : Pool) : Nat :=
  (p.jobs.mapIdx (fun i job => job.left p.specs[i]?)).foldr (· + ·) 0

def Row.left (r : Row) : Nat :=
  r.current.elim 0 (fun t => t.left + 1) +
    r.rest.foldr (fun spec n => Phase.left spec .fresh + 2 + n) 0

def Crew.left : Crew → Nat
  | .row r => r.left
  | .pool p => p.left

theorem foldr_mapIdx_set_lt {α : Type} (g : Nat → α → Nat) (l : List α) {i : Nat} {a b : α}
    (ha : l[i]? = some a) (hlt : g i b < g i a) :
    ((l.set i b).mapIdx g).foldr (· + ·) 0 < (l.mapIdx g).foldr (· + ·) 0 := by
  induction l generalizing i g with
  | nil => simp at ha
  | cons x xs ih =>
    cases i with
    | zero =>
      obtain rfl : x = a := by simpa using ha
      simp only [List.set_cons_zero, List.mapIdx_cons, List.foldr_cons]
      omega
    | succ i =>
      have := ih (fun j => g (j + 1)) (by simpa using ha) hlt
      simp only [List.set_cons_succ, List.mapIdx_cons, List.foldr_cons]
      omega

theorem Pool.left_setJob_lt {p : Pool} {i : Nat} {job job' : Job} (hi : p.jobs[i]? = some job)
    (h : job'.left p.specs[i]? < job.left p.specs[i]?) : (p.setJob i job').left < p.left :=
  foldr_mapIdx_set_lt (fun i (job : Job) => job.left p.specs[i]?) p.jobs hi h

/-! ### A turn -/

variable {f : Facilities} {w w' : World}

theorem Row.Next.left_lt {r r' : Row} (h : Row.Next f w r r' w') : r'.left < r.left := by
  cases h with
  | begin hc hr =>
    simp only [left, hc, hr, Task.start, Task.left, Option.elim_some, Option.elim_none,
      List.foldr_cons]
    omega
  | work hc h =>
    have := Task.step_left_lt h
    simp only [left, hc, Option.elim_some]
    omega
  | take hc =>
    simp only [left, hc, Option.elim_some, Option.elim_none]
    omega

theorem Pool.Next.left_lt {p p' : Pool} {i : Nat} (h : Pool.Next f w i p p' w') :
    p'.left < p.left := by
  cases h with
  | enter hj hs => exact left_setJob_lt hj (by simp [hs, Job.left, Task.left, Task.start])
  | work hj h =>
    have := Task.step_left_lt h
    exact left_setJob_lt hj (by simpa [Job.left] using this)
  | finish hj => exact left_setJob_lt hj (by simp [Job.left])
  | lose hj => exact left_setJob_lt hj (by simp [Job.left])
  | send hj => exact left_setJob_lt hj (by simp [Job.left])

theorem Crew.turn_left_lt {c c' : Crew} {i : Nat} (h : c.turn f w i = .moved c' w') :
    c'.left < c.left := by
  cases c with
  | row r =>
    obtain ⟨r', hr, rfl⟩ := Turn.map_moved h
    exact (Row.turn_next hr).left_lt
  | pool p =>
    obtain ⟨p', hp, rfl⟩ := Turn.map_moved h
    exact (Pool.turn_next hp).left_lt

/-! ### A move -/

/-- A task that has neither its result nor died has something left to do. -/
theorem Task.left_pos {t : Task} (h : ¬ t.isOver) : 0 < t.left := by
  unfold Task.isOver at h
  unfold Task.left Phase.left
  split <;> simp_all

/-- Nothing happened but that time passed, the run was cancelled or others changed the host. -/
structure World.Idles (w w' : World) : Prop where
  locks : w'.locks = w.locks
  clock : w.clock ≤ w'.clock
  cancelled : w.cancelled = true → w'.cancelled = true

theorem World.Idles.refl (w : World) : w.Idles w := ⟨rfl, Nat.le_refl _, id⟩

theorem World.Idles.trans {w₁ w₂ w₃ : World} (h : w₁.Idles w₂) (h' : w₂.Idles w₃) : w₁.Idles w₃ :=
  ⟨h'.locks.trans h.locks, Nat.le_trans h.clock h'.clock, h'.cancelled ∘ h.cancelled⟩

theorem World.land_idles (w : World) (k : Nat) : w.Idles (w.land k) := by
  unfold land
  split <;> exact ⟨rfl, Nat.le_refl _, id⟩

theorem Row.kill_left (f : Facilities) (r : Row) (w : World) :
    r.kill f w = (r, w) ∨ (r.kill f w).1.left < r.left := by
  unfold kill
  split
  next t ht =>
    split
    · exact .inl rfl
    · exact .inl rfl
    next hf ha =>
      have := Task.left_pos (t := t) (by rintro (⟨x, h⟩ | h); exacts [hf x h, ha h])
      refine .inr ?_
      simp only [left, ht, Option.elim_some]
      simp only [Task.left, Phase.left] at this ⊢
      omega
  next => exact .inl rfl

theorem Pool.kill_left (f : Facilities) (p : Pool) (w : World) (i : Nat) :
    p.kill f w i = (p, w) ∨ (p.kill f w i).1.left < p.left := by
  unfold kill
  split
  next hj => exact .inr (left_setJob_lt hj (by simp [Job.left]))
  next hj => exact .inr (left_setJob_lt hj (by simp [Job.left]))
  next hj => exact .inr (left_setJob_lt hj (by simp [Job.left]))
  all_goals exact .inl rfl

namespace Crew

theorem go_left (f : Facilities) (c : Crew) (w : World) (i : Nat) :
    c.go f w i = (c, w) ∨ (c.go f w i).1.left < c.left := by
  unfold go
  split
  next h => exact .inr (turn_left_lt h)
  next => exact .inl rfl

theorem kill_left (f : Facilities) (c : Crew) (w : World) (i : Nat) :
    c.kill f w i = (c, w) ∨ (c.kill f w i).1.left < c.left := by
  cases c with
  | row r =>
    rcases r.kill_left f w with h | h
    · exact .inl (by simp [kill, h])
    · exact .inr h
  | pool p =>
    rcases p.kill_left f w i with h | h
    · exact .inl (by simp [kill, h])
    · exact .inr h

/-- A move that brings nothing nearer to its end leaves the environments alone. -/
theorem make_cases (c : Crew) (w : World) (m : Move) :
    (c.make w m).1 = c ∧ w.Idles (c.make w m).2 ∨ (c.make w m).1.left < c.left := by
  have hself : c = c ∧ w.Idles w := ⟨rfl, .refl w⟩
  cases m with
  | turn f i =>
    rcases c.go_left f w i with h | h
    · exact .inl (by simpa only [make, h] using hself)
    · exact .inr h
  | race f i =>
    simp only [make]
    split
    · rcases c.go_left f w.unaware i with h | h
      · rw [h]
        exact .inl ⟨rfl, rfl, Nat.le_refl _, fun hc => by simp [World.cancelIf, hc]⟩
      · exact .inr h
    · exact .inl hself
  | wait ms => exact .inl ⟨rfl, rfl, Nat.le_add_right .., id⟩
  | cancel => exact .inl ⟨rfl, rfl, Nat.le_refl _, fun _ => rfl⟩
  | meddle host => exact .inl ⟨rfl, rfl, Nat.le_refl _, id⟩
  | land k => exact .inl ⟨rfl, w.land_idles k⟩
  | kill f i =>
    rcases c.kill_left f w i with h | h
    · exact .inl (by simpa only [make, h] using hself)
    · exact .inr h

end Crew

/-! ### Who can go on -/

/-- A pool with a job for every environment and permits to give. -/
structure Pool.Sound (p : Pool) : Prop where
  jobs : p.jobs.length = p.specs.length
  permits : 0 < p.permits

theorem Pool.Next.sound {p p' : Pool} {i : Nat} (h : Pool.Next f w i p p' w') (hp : p.Sound) :
    p'.Sound := by
  cases h <;> exact ⟨by simpa [setJob] using hp.jobs, hp.permits⟩

theorem Pool.After.sound {p p' : Pool} {m : Move} (h : Pool.After w m p p' w') (hp : p.Sound) :
    p'.Sound := by
  cases h with
  | same => exact hp
  | turn _ h => exact h.sound hp
  | kill => exact ⟨by simpa [setJob] using hp.jobs, hp.permits⟩

/-- A job that does not just wait for its task can go on, where one can at all. -/
theorem Pool.exists_job {p : Pool} (hp : p.Sound) (ho : p.isOver = false) :
    ∃ i < p.jobs.length, (∀ f w, ∃ p' w', p.turn f w i = .moved p' w') ∨
      ∃ t, p.jobs[i]? = some (.active t) ∧ ¬ t.isOver := by
  by_cases hf : p.inFlight = 0
  · -- nobody holds a permit, so whoever is queued gets one
    obtain ⟨job, hmem, hjob⟩ : ∃ job ∈ p.jobs, job.isOver = false := by
      simpa [isOver] using ho
    obtain ⟨i, hi, hget⟩ := List.getElem_of_mem hmem
    have hnot : job.inFlight = false := by simpa using List.countP_eq_zero.1 hf job hmem
    have hq : p.jobs[i]? = some .queued := by
      rw [List.getElem?_eq_getElem hi, hget]
      cases job <;> simp_all [Job.isOver, Job.inFlight]
    refine ⟨i, hi, .inl fun f w => ?_⟩
    have hs : p.specs[i]? = some (p.specs.get ⟨i, hp.jobs ▸ hi⟩) := List.getElem?_eq_getElem _
    have hlt : p.inFlight < p.permits := hf ▸ hp.permits
    simp [turn, hq, hs, hlt]
  · obtain ⟨job, hmem, hjob⟩ := List.countP_pos_iff.1 (Nat.pos_of_ne_zero hf)
    obtain ⟨i, hi, hget⟩ := List.getElem_of_mem hmem
    have hj : p.jobs[i]? = some job := by rw [List.getElem?_eq_getElem hi, hget]
    refine ⟨i, hi, ?_⟩
    cases job with
    | reporting r => exact .inl fun f w => by simp [turn, hj]
    | active t =>
      by_cases ht : t.isOver
      · refine .inl fun f w => ?_
        rcases ht with ⟨r, h⟩ | h
        · simp [turn, hj, turnActive, h]
        · simp [turn, hj, turnActive, h]
      · exact .inr ⟨t, hj, ht⟩
    | _ => simp [Job.inFlight] at hjob

namespace Crew

def Sound : Crew → Prop
  | .row _ => True
  | .pool p => p.Sound

/-- The number of jobs. -/
def width : Crew → Nat
  | .row _ => 1
  | .pool p => p.jobs.length

theorem make_sound {c : Crew} (hc : c.Sound) (w : World) (m : Move) : (c.make w m).1.Sound := by
  cases c with
  | row r =>
    obtain ⟨r', w', h, -⟩ := make_row r w m
    rw [h]
    trivial
  | pool p =>
    obtain ⟨p', w', h, hn⟩ := make_pool p w m
    rw [h]
    exact hn.sound hc

theorem exists_job {c : Crew} (hc : c.Sound) (ho : c.isOver = false) (hb : c.isBroken = false) :
    ∃ i < c.width, (∀ f w, ∃ c' w', c.turn f w i = .moved c' w') ∨
      ∃ t, c.task? i = some t ∧ ¬ t.isOver := by
  cases c with
  | row r =>
    refine ⟨0, Nat.one_pos, ?_⟩
    cases hcur : r.current with
    | none =>
      cases hr : r.rest with
      | nil => simp [isOver, Row.isOver, hcur, hr] at ho
      | cons spec rest => exact .inl fun f w => by simp [turn, Row.turn, hcur, hr, Turn.map]
    | some t =>
      by_cases ht : t.isOver
      · rcases ht with ⟨x, h⟩ | h
        · exact .inl fun f w => by simp [turn, Row.turn, hcur, Row.turnCurrent, h, Turn.map]
        · simp [isBroken, Row.isBroken, hcur, h] at hb
      · exact .inr ⟨t, hcur, ht⟩
  | pool p =>
    obtain ⟨i, hi, h | ⟨t, hj, ht⟩⟩ := Pool.exists_job hc ho
    · refine ⟨i, hi, .inl fun f w => ?_⟩
      obtain ⟨p', w', hp⟩ := h f w
      exact ⟨.pool p', w', by simp [turn, hp, Turn.map]⟩
    · exact ⟨i, hi, .inr ⟨t, by simp [task?, hj], ht⟩⟩

/-- The turn of a task that is not over is a step of the task. -/
theorem turn_of_task {c : Crew} {i : Nat} {t : Task} (ht : c.task? i = some t) (ho : ¬ t.isOver) :
    ∃ g, ∀ f w, c.turn f w i = (t.step f w).map g := by
  have hf (r : EnvResult) : t.phase ≠ .finished r := fun h => ho (.inl ⟨r, h⟩)
  have ha : t.phase ≠ .aborted := fun h => ho (.inr h)
  cases c with
  | row r =>
    refine ⟨fun t' => .row { r with current := some t' }, fun f w => ?_⟩
    have hcur : r.current = some t := ht
    simp only [turn, Row.turn, hcur, Row.turnCurrent]
    cases t.step f w <;> rfl
  | pool p =>
    refine ⟨fun t' => .pool (p.setJob i (.active t')), fun f w => ?_⟩
    have hj : p.jobs[i]? = some (.active t) := by
      simp only [task?] at ht
      split at ht
      next t₁ h₁ => simpa [h₁] using ht
      next => cases ht
    simp only [turn, Pool.turn, hj, Pool.turnActive]
    cases t.step f w <;> rfl

theorem turn_of_step {c : Crew} {i : Nat} {t t' : Task} (ht : c.task? i = some t)
    (ho : ¬ t.isOver) (h : t.step f w = .moved t' w') : ∃ c', c.turn f w i = .moved c' w' := by
  obtain ⟨g, hg⟩ := turn_of_task ht ho
  exact ⟨g t', by rw [hg, h, Turn.map]⟩

/-! ### In the end -/

/-- A task waits for what does not come by itself, and no cancellation ends that. -/
def Hangs (c : Crew) (w : World) : Prop :=
  w.cancelled = false ∧ ∃ i t, c.task? i = some t ∧ t.Hangs w.locks

theorem after_cons (c : Crew) (w : World) (m : Move) (moves : List Move) :
    c.after w (m :: moves) = (c.make w m).1.after (c.make w m).2 moves := rfl

theorem after_succ (c : Crew) (w : World) (σ : Schedule) (n : Nat) :
    c.after w (σ.before (n + 1)) =
      (c.after w (σ.before n)).1.make (c.after w (σ.before n)).2 (σ n) := by
  simp [after, Schedule.before, List.range_succ]

theorem after_sound {c : Crew} (hc : c.Sound) (w : World) (moves : List Move) :
    (c.after w moves).1.Sound := by
  induction moves generalizing c w with
  | nil => exact hc
  | cons m moves ih => exact ih (make_sound hc w m) _

/-- Under any schedule a moment comes from which on the environments stay as they are. -/
theorem settles (c : Crew) (w : World) (σ : Schedule) :
    ∃ n, ∀ m ≥ n, (c.after w (σ.before m)).1 = (c.after w (σ.before n)).1 ∧
      (c.after w (σ.before m)).2.Idles (c.after w (σ.before (m + 1))).2 := by
  -- what is left cannot become less than the least that it ever is
  let left (n : Nat) : Nat := (c.after w (σ.before n)).1.left
  obtain ⟨n, hn⟩ : ∃ n, ∀ m, left n ≤ left m :=
    ⟨Function.argmin left, fun m => Function.argmin_le left m⟩
  have hstep (m : Nat) (hm : left m = left n) :
      (c.after w (σ.before (m + 1))).1 = (c.after w (σ.before m)).1 ∧
        (c.after w (σ.before m)).2.Idles (c.after w (σ.before (m + 1))).2 := by
    have hle : left n ≤ left (m + 1) := hn (m + 1)
    rw [after_succ]
    refine (make_cases _ _ (σ m)).resolve_right fun hlt => ?_
    simp only [left, after_succ] at hm hle
    omega
  have hsame (m : Nat) (hm : n ≤ m) : (c.after w (σ.before m)).1 = (c.after w (σ.before n)).1 := by
    induction m, hm using Nat.le_induction with
    | base => rfl
    | succ m _ ih => rw [(hstep m (congrArg Crew.left ih)).1, ih]
  exact ⟨n, fun m hm => ⟨hsame m hm, (hstep m (congrArg Crew.left (hsame m hm))).2⟩⟩

theorem make_width (c : Crew) (w : World) (m : Move) : (c.make w m).1.width = c.width := by
  cases c with
  | row r =>
    obtain ⟨r', w', h, -⟩ := make_row r w m
    rw [h]
    rfl
  | pool p =>
    obtain ⟨p', w', h, hn⟩ := make_pool p w m
    rw [h]
    cases hn with
    | same => rfl
    | turn _ hn => cases hn <;> simp [width, Pool.setJob]
    | kill => simp [width, Pool.setJob]

theorem after_width (c : Crew) (w : World) (moves : List Move) :
    (c.after w moves).1.width = c.width := by
  induction moves generalizing c w with
  | nil => rfl
  | cons m moves ih => exact (ih ..).trans (make_width c w m)

end Crew

/-- Every job has its turn again and again, and again and again time passes. -/
structure Schedule.Fair (σ : Schedule) (jobs : Nat) : Prop where
  turn : ∀ i < jobs, ∀ n, ∃ m ≥ n, ∃ f, σ m = .turn f i
  wait : ∀ n, ∃ m ≥ n, ∃ ms > 0, σ m = .wait ms

theorem Schedule.Fair.mono {σ : Schedule} {jobs jobs' : Nat} (h : σ.Fair jobs) (hle : jobs' ≤ jobs) :
    σ.Fair jobs' :=
  ⟨fun i hi => h.turn i (Nat.lt_of_lt_of_le hi hle), h.wait⟩

/-- The jobs in turn, and a millisecond after the last of them. -/
def Schedule.roundRobin (f : Facilities) (jobs : Nat) : Schedule := fun n =>
  if n % (jobs + 1) < jobs then .turn f (n % (jobs + 1)) else .wait 1

theorem Schedule.roundRobin_fair (f : Facilities) (jobs : Nat) : (roundRobin f jobs).Fair jobs := by
  have hmod (n i : Nat) (hi : i ≤ jobs) : (n * (jobs + 1) + i) % (jobs + 1) = i := by
    rw [Nat.mul_comm, Nat.mul_add_mod, Nat.mod_eq_of_lt (by omega)]
  have hle (n i : Nat) : n ≤ n * (jobs + 1) + i := by
    have : n ≤ n * (jobs + 1) := Nat.le_mul_of_pos_right n (by omega)
    omega
  constructor
  · intro i hi n
    exact ⟨n * (jobs + 1) + i, hle n i, f, by simp [roundRobin, hmod n i (by omega), hi]⟩
  · intro n
    exact ⟨n * (jobs + 1) + jobs, hle n jobs, 1, Nat.one_pos,
      by simp [roundRobin, hmod n jobs (by omega)]⟩

namespace Crew

variable {c : Crew} {σ : Schedule} {n : Nat}

theorem idles_of_le (h : ∀ m ≥ n, (c.after w (σ.before m)).2.Idles (c.after w (σ.before (m + 1))).2)
    {m k : Nat} (hm : n ≤ m) (hk : m ≤ k) :
    (c.after w (σ.before m)).2.Idles (c.after w (σ.before k)).2 := by
  induction k, hk using Nat.le_induction with
  | base => exact .refl _
  | succ k hk ih => exact ih.trans (h k (Nat.le_trans hm hk))

/-- Every moment comes. -/
theorem exists_clock_ge
    (h : ∀ m ≥ n, (c.after w (σ.before m)).2.Idles (c.after w (σ.before (m + 1))).2)
    {jobs : Nat} (hσ : σ.Fair jobs) (moment : Nat) :
    ∃ m ≥ n, moment ≤ (c.after w (σ.before m)).2.clock := by
  induction moment with
  | zero => exact ⟨n, Nat.le_refl n, Nat.zero_le _⟩
  | succ moment ih =>
    obtain ⟨m, hm, hle⟩ := ih
    obtain ⟨k, hk, ms, hms, hw⟩ := hσ.wait m
    have hclock := (idles_of_le h hm hk).clock
    refine ⟨k + 1, by omega, ?_⟩
    rw [after_succ, hw]
    simp only [make, World.wait]
    omega

/-- A fair schedule brings the environments to their end, or a task hangs for good. -/
theorem ends_or_hangs (hc : c.Sound) (w : World) (hσ : σ.Fair c.width) :
    (∃ n, (c.after w (σ.before n)).1.isOver = true ∨ (c.after w (σ.before n)).1.isBroken = true) ∨
      ∃ n, ∀ m ≥ n, (c.after w (σ.before m)).1.Hangs (c.after w (σ.before m)).2 := by
  obtain ⟨n, hn⟩ := settles c w σ
  have hidle (m : Nat) (hm : n ≤ m) := (hn m hm).2
  have hsame (m : Nat) (hm : n ≤ m) := (hn m hm).1
  -- nothing moves from here on
  have hstuck (m : Nat) (hm : n ≤ m) (f : Facilities) (i : Nat) (hi : σ m = .turn f i) (c' : Crew)
      (w' : World) :
      (c.after w (σ.before n)).1.turn f (c.after w (σ.before m)).2 i ≠ .moved c' w' := by
    intro h
    have hlt := turn_left_lt h
    have heq := hsame (m + 1) (by omega)
    rw [after_succ, hi, hsame m hm] at heq
    simp only [make, go, h] at heq
    rw [heq] at hlt
    exact Nat.lt_irrefl _ hlt
  cases ho : (c.after w (σ.before n)).1.isOver with
  | true => exact .inl ⟨n, .inl ho⟩
  | false =>
    cases hb : (c.after w (σ.before n)).1.isBroken with
    | true => exact .inl ⟨n, .inr hb⟩
    | false =>
      obtain ⟨i, hi, hmove | ⟨t, ht, hnot⟩⟩ := exists_job (after_sound hc w _) ho hb
      · obtain ⟨m, hm, f, hf⟩ := hσ.turn i (by rwa [after_width] at hi) n
        obtain ⟨c', w', h⟩ := hmove f (c.after w (σ.before m)).2
        exact absurd h (hstuck m hm f i hf c' w')
      · refine .inr ⟨n, fun m hm => ?_⟩
        by_contra hh
        -- the job's turn comes after the moment that its task waits for
        obtain ⟨k, hk, hle⟩ := exists_clock_ge (n := m)
          (fun k hk => hidle k (Nat.le_trans hm hk)) hσ t.moment
        obtain ⟨l, hl, f, hf⟩ := hσ.turn i (by rwa [after_width] at hi) k
        have hml := idles_of_le hidle hm (Nat.le_trans hk hl)
        have hkl := idles_of_le hidle (Nat.le_trans hm hk) hl
        have hgo : (c.after w (σ.before l)).2.cancelled = true ∨
            ¬ t.Hangs (c.after w (σ.before l)).2.locks := by
          by_cases hcan : (c.after w (σ.before m)).2.cancelled = true
          · exact .inl (hml.cancelled hcan)
          · refine .inr fun ht' => hh ⟨by simpa using hcan, i, t, ?_, ?_⟩
            · rw [hsame m hm, ht]
            · rwa [hml.locks] at ht'
        obtain ⟨t', w', hstep⟩ := Task.exists_step f hnot hgo (Nat.le_trans hle hkl.clock)
        obtain ⟨c', h⟩ := turn_of_step ht hnot hstep
        exact hstuck l (by omega) f i hf c' w' h

end Crew

end Testbed
