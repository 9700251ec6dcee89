import Testbed.Proofs.Run.Frame

/-! All that a turn can do to environments one after the other or side by side. -/
namespace Testbed

theorem Turn.map_moved {α β : Type} {g : α → β} {x : Turn α} {b : β} {w : World}
    (h : x.map g = .moved b w) : ∃ a, x = .moved a w ∧ b = g a := by
  cases x with
  | moved a w' =>
    cases h
    exact ⟨a, rfl, rfl⟩
  | blocked => cases h

theorem Crew.task?_pool {p : Pool} {i : Nat} {t : Task} :
    (Crew.pool p).task? i = some t ↔ p.jobs[i]? = some (.active t) := by
  rw [task?]
  split
  next h => simp [h]
  next h => exact iff_of_false (by simp) (h t)

theorem Pool.getElem?_setJob_self {p : Pool} {i : Nat} {job job' : Job}
    (hj : p.jobs[i]? = some job) : (p.setJob i job').jobs[i]? = some job' := by
  obtain ⟨hi, -⟩ := List.getElem?_eq_some_iff.1 hj
  simp [setJob, hi]

/-- A row after a turn: another environment begins, the task under way makes a step, or its result
is taken over. -/
inductive Row.Next (f : Facilities) (w : World) (r : Row) : Row → World → Prop
  | begin {spec : EnvSpec} {rest : List EnvSpec} (hc : r.current = none) (hr : r.rest = spec :: rest) :
      Next f w r { r with current := some (Task.start spec w), rest := rest } w
  | work {t t' : Task} {w' : World} (hc : r.current = some t) (h : t.step f w = .moved t' w') :
      Next f w r { r with current := some t' } w'
  | take {t : Task} {result : EnvResult} (hc : r.current = some t) (ht : t.phase = .finished result) :
      Next f w r { r with results := r.results ++ [result], current := none } w

/-- A pool after a job's turn: the job gets a permit, makes a step, has its result or none, or sends
the result it has. -/
inductive Pool.Next (f : Facilities) (w : World) (i : Nat) (p : Pool) : Pool → World → Prop
  | enter {spec : EnvSpec} (hj : p.jobs[i]? = some .queued) (hs : p.specs[i]? = some spec)
      (hp : p.inFlight < p.permits) : Next f w i p (p.setJob i (.active (Task.start spec w))) w
  | work {t t' : Task} {w' : World} (hj : p.jobs[i]? = some (.active t))
      (h : t.step f w = .moved t' w') : Next f w i p (p.setJob i (.active t')) w'
  | finish {t : Task} {r : EnvResult} (hj : p.jobs[i]? = some (.active t))
      (ht : t.phase = .finished r) : Next f w i p (p.setJob i (.reporting r)) w
  | lose {t : Task} (hj : p.jobs[i]? = some (.active t)) (ht : t.phase = .aborted) :
      Next f w i p (p.setJob i .dead) w
  | send {r : EnvResult} (hj : p.jobs[i]? = some (.reporting r)) :
      Next f w i p { p.setJob i .closed with sent := p.sent ++ [(i, r)] } w

variable {f : Facilities} {w w' : World}

theorem Row.turn_next {r r' : Row} (h : r.turn f w = .moved r' w') : Next f w r r' w' := by
  unfold turn at h
  split at h
  next t hc =>
    unfold turnCurrent at h
    split at h
    next result ht =>
      cases h
      exact .take hc ht
    next => cases h
    next =>
      obtain ⟨t', hstep, rfl⟩ := Turn.map_moved h
      exact .work hc hstep
  next spec rest hc hr =>
    cases h
    exact .begin hc hr
  next => cases h

theorem Pool.turn_next {p p' : Pool} {i : Nat} (h : p.turn f w i = .moved p' w') :
    Next f w i p p' w' := by
  unfold turn at h
  split at h
  next spec hj hs =>
    split at h
    next hp =>
      cases h
      exact .enter hj hs hp
    next => cases h
  next t hj =>
    unfold turnActive at h
    split at h
    next r ht =>
      cases h
      exact .finish hj ht
    next ht =>
      cases h
      exact .lose hj ht
    next =>
      obtain ⟨t', hstep, rfl⟩ := Turn.map_moved h
      exact .work hj hstep
  next r hj =>
    cases h
    exact .send hj
  next => cases h

namespace Crew

variable {c c' : Crew} {i : Nat}

/-- A turn changes the world by the step of a task alone. -/
theorem turn_steps (h : c.turn f w i = .moved c' w') :
    w' = w ∨ ∃ t t', c.task? i = some t ∧ t.step f w = .moved t' w' := by
  cases c with
  | row r =>
    obtain ⟨r', hr, rfl⟩ := Turn.map_moved h
    cases Row.turn_next hr with
    | begin | take => exact .inl rfl
    | work hc hstep => exact .inr ⟨_, _, hc, hstep⟩
  | pool p =>
    obtain ⟨p', hp, rfl⟩ := Turn.map_moved h
    cases Pool.turn_next hp with
    | work hj hstep => exact .inr ⟨_, _, task?_pool.2 hj, hstep⟩
    | enter | finish | lose | send => exact .inl rfl

theorem go_steps (f : Facilities) (c : Crew) (w : World) (i : Nat) :
    (c.go f w i).2 = w ∨ ∃ t t', c.task? i = some t ∧ t.step f w = .moved t' (c.go f w i).2 := by
  unfold go
  split
  next h => exact turn_steps h
  next => exact .inl rfl

theorem kill_drops (f : Facilities) (c : Crew) (w : World) (i : Nat) :
    (c.kill f w i).2 = w ∨ ∃ t, c.task? i = some t ∧ (c.kill f w i).2 = t.drop f w := by
  cases c with
  | row r =>
    simp only [kill, Row.kill]
    split
    next t hc =>
      split
      · exact .inl rfl
      · exact .inl rfl
      · exact .inr ⟨t, hc, rfl⟩
    next => exact .inl rfl
  | pool p =>
    simp only [kill, Pool.kill]
    split
    next => exact .inl rfl
    next => exact .inl rfl
    next t hj => exact .inr ⟨t, task?_pool.2 hj, rfl⟩
    all_goals exact .inl rfl

end Crew

/-! ### Moves -/

/-- Where a job is looked at: with which facilities, in which world. -/
structure Scene where
  facilities : Facilities
  world : World

/-- What a job that is looked at sees. -/
def Move.scene? (w : World) : Move → Option Scene
  | .turn f _ => some ⟨f, w⟩
  | .race f _ => some ⟨f, w.unaware⟩
  | .wait _ | .cancel | .meddle _ | .kill .. | .land _ => none

/-- What is recorded of a run does not depend on what is seen of its cancellation. -/
theorem Move.scene?_sameRecord {m : Move} {x : Scene} (h : m.scene? w = some x) :
    w.SameRecord x.world := by
  cases m with
  | turn f i | race f i =>
    cases h
    exact ⟨rfl, rfl, rfl⟩
  | _ => cases h

/-- A row and the world after a move. -/
inductive Row.After (w : World) (m : Move) (r : Row) : Row → World → Prop
  | same {w' : World} (hw : w.SameRecord w') : After w m r r w'
  | turn {x : Scene} {r' : Row} {w₁ w' : World} (hx : m.scene? w = some x)
      (h : Next x.facilities x.world r r' w₁) (hw : w₁.SameRecord w') : After w m r r' w'
  | kill {f : Facilities} {i : Nat} {t : Task} {w' : World} (hm : m = .kill f i)
      (hc : r.current = some t) (ht : ¬ t.isOver) (hw : w.SameRecord w') :
      After w m r { r with current := some { t with phase := .aborted } } w'

/-- A pool and the world after a move. -/
inductive Pool.After (w : World) (m : Move) (p : Pool) : Pool → World → Prop
  | same {w' : World} (hw : w.SameRecord w') : After w m p p w'
  | turn {x : Scene} {i : Nat} {p' : Pool} {w₁ w' : World} (hx : m.scene? w = some x)
      (h : Next x.facilities x.world i p p' w₁) (hw : w₁.SameRecord w') : After w m p p' w'
  | kill {f : Facilities} {i : Nat} {job : Job} {w' : World} (hm : m = .kill f i)
      (hj : p.jobs[i]? = some job) (ho : job.isOver = false) (hw : w.SameRecord w') :
      After w m p (p.setJob i .dead) w'

namespace Crew

/-- A turn that is not blocked is made, and a turn that is blocked changes nothing. -/
theorem go_row (f : Facilities) (r : Row) (w : World) (i : Nat) :
    go f (.row r) w i = (.row r, w) ∨
      ∃ r' w', go f (.row r) w i = (.row r', w') ∧ Row.Next f w r r' w' := by
  cases h : r.turn f w with
  | moved r' w' => exact .inr ⟨r', w', by simp only [go, turn, h, Turn.map], Row.turn_next h⟩
  | blocked => exact .inl (by simp only [go, turn, h, Turn.map])

theorem go_pool (f : Facilities) (p : Pool) (w : World) (i : Nat) :
    go f (.pool p) w i = (.pool p, w) ∨
      ∃ p' w', go f (.pool p) w i = (.pool p', w') ∧ Pool.Next f w i p p' w' := by
  cases h : p.turn f w i with
  | moved p' w' => exact .inr ⟨p', w', by simp only [go, turn, h, Turn.map], Pool.turn_next h⟩
  | blocked => exact .inl (by simp only [go, turn, h, Turn.map])

theorem make_row (r : Row) (w : World) (m : Move) :
    ∃ r' w', make (.row r) w m = (.row r', w') ∧ Row.After w m r r' w' := by
  cases m with
  | turn f i =>
    rcases go_row f r w i with h | ⟨r', w', h, hn⟩
    · exact ⟨r, w, h, .same (.refl w)⟩
    · exact ⟨r', w', h, .turn rfl hn (.refl w')⟩
  | race f i =>
    simp only [make]
    split
    · rcases go_row f r w.unaware i with h | ⟨r', w', h, hn⟩
      · rw [h]
        exact ⟨r, _, rfl, .same ⟨rfl, rfl, rfl⟩⟩
      · rw [h]
        exact ⟨r', _, rfl, .turn rfl hn ⟨rfl, rfl, rfl⟩⟩
    · exact ⟨r, w, rfl, .same (.refl w)⟩
  | kill f i =>
    refine ⟨_, _, rfl, ?_⟩
    unfold Row.kill
    split
    next t hc =>
      split
      · exact .same (.refl w)
      · exact .same (.refl w)
      next hf ha =>
        refine .kill rfl hc ?_ (t.drop_quiet f w).sameRecord
        rintro (⟨x, h⟩ | h)
        · exact hf x h
        · exact ha h
    next => exact .same (.refl w)
  | wait | cancel | meddle => exact ⟨r, _, rfl, .same ⟨rfl, rfl, rfl⟩⟩
  | land k => exact ⟨r, _, rfl, .same (w.land_sameRecord k)⟩

theorem make_pool (p : Pool) (w : World) (m : Move) :
    ∃ p' w', make (.pool p) w m = (.pool p', w') ∧ Pool.After w m p p' w' := by
  cases m with
  | turn f i =>
    rcases go_pool f p w i with h | ⟨p', w', h, hn⟩
    · exact ⟨p, w, h, .same (.refl w)⟩
    · exact ⟨p', w', h, .turn rfl hn (.refl w')⟩
  | race f i =>
    simp only [make]
    split
    · rcases go_pool f p w.unaware i with h | ⟨p', w', h, hn⟩
      · rw [h]
        exact ⟨p, _, rfl, .same ⟨rfl, rfl, rfl⟩⟩
      · rw [h]
        exact ⟨p', _, rfl, .turn rfl hn ⟨rfl, rfl, rfl⟩⟩
    · exact ⟨p, w, rfl, .same (.refl w)⟩
  | kill f i =>
    refine ⟨_, _, rfl, ?_⟩
    unfold Pool.kill
    split
    next hj => exact .kill rfl hj rfl (.refl w)
    next hj => exact .kill rfl hj rfl (.refl w)
    next t hj => exact .kill rfl hj rfl (t.drop_quiet f w).sameRecord
    all_goals exact .same (.refl w)
  | wait | cancel | meddle => exact ⟨p, _, rfl, .same ⟨rfl, rfl, rfl⟩⟩
  | land k => exact ⟨p, _, rfl, .same (w.land_sameRecord k)⟩

end Crew

end Testbed
