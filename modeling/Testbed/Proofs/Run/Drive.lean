import Testbed.Proofs.Run.History

/-! Going on alone is one schedule among many: rounds of turns, and a jump of the clock where every
job waits. The rounds that it is given are enough, so it stops only where nothing goes on any
more. -/
namespace Testbed

/-- A turn with certain facilities, or the passing of time. -/
def Move.IsQuiet (f : Facilities) (m : Move) : Prop := (∃ i, m = .turn f i) ∨ ∃ ms, m = .wait ms

namespace Crew

variable {f : Facilities} {c c' : Crew} {w w' : World} {i : Nat}

/-! ### A round -/

theorem follow_snd (f : Facilities) (c : Crew) (w : World) (jobs : List Nat) :
    (c.follow f w jobs).2 = c.after w (jobs.map (.turn f)) := by
  induction jobs generalizing c w with
  | nil => rfl
  | cons i jobs ih =>
    rw [follow, List.map_cons, after_cons, make, go]
    cases c.turn f w i with
    | moved c' w' => exact ih c' w'
    | blocked => exact ih c w

/-- A round in which nothing moves finds every job blocked. -/
theorem blocked_of_follow {jobs : List Nat} (h : (c.follow f w jobs).1 = false) (hi : i ∈ jobs) :
    ∃ until?, c.turn f w i = .blocked until? := by
  induction jobs with
  | nil => cases hi
  | cons j jobs ih =>
    rw [follow] at h
    split at h
    next => cases h
    next until? hj =>
      rcases List.mem_cons.1 hi with rfl | hi
      · exact ⟨until?, hj⟩
      · exact ih h hi

theorem follow_eq {jobs : List Nat} (h : (c.follow f w jobs).1 = false) :
    c.follow f w jobs = (false, c, w) := by
  induction jobs with
  | nil => rfl
  | cons j jobs ih =>
    rw [follow] at h ⊢
    cases hj : c.turn f w j with
    | moved c' w' => simp [hj] at h
    | blocked =>
      simp only [hj] at h ⊢
      exact ih h

theorem after_left_le (c : Crew) (w : World) (moves : List Move) :
    (c.after w moves).1.left ≤ c.left := by
  induction moves generalizing c w with
  | nil => exact Nat.le_refl _
  | cons m moves ih =>
    rw [after_cons]
    refine Nat.le_trans (ih ..) ?_
    rcases make_cases c w m with ⟨h, -⟩ | h
    · rw [h]
    · exact Nat.le_of_lt h

theorem follow_left_lt {jobs : List Nat} (h : (c.follow f w jobs).1 = true) :
    (c.follow f w jobs).2.1.left < c.left := by
  induction jobs with
  | nil => cases h
  | cons j jobs ih =>
    rw [follow] at h ⊢
    cases hj : c.turn f w j with
    | moved c' w' =>
      simp only [follow_snd]
      exact Nat.lt_of_le_of_lt (after_left_le ..) (turn_left_lt hj)
    | blocked =>
      simp only [hj] at h
      exact ih h

/-! ### A jump -/

/-- Whoever waits for a moment is a task. -/
theorem task_of_blocked {moment : Nat} (h : c.turn f w i = .blocked (some moment)) :
    ∃ t, c.task? i = some t ∧ t.step f w = .blocked (some moment) := by
  have hmap {α β : Type} {g : α → β} {x : Turn α} (hx : x.map g = .blocked (some moment)) :
      x = .blocked (some moment) := by
    cases x with
    | moved => cases hx
    | blocked =>
      cases hx
      rfl
  cases c with
  | row r =>
    have hr := hmap h
    unfold Row.turn at hr
    split at hr
    next t ht =>
      unfold Row.turnCurrent at hr
      split at hr
      next => cases hr
      next => cases hr
      next => exact ⟨t, ht, hmap hr⟩
    next => cases hr
    next => cases hr
  | pool p =>
    have hp := hmap h
    unfold Pool.turn at hp
    split at hp
    next =>
      split at hp
      · cases hp
      · cases hp
    next t ht =>
      unfold Pool.turnActive at hp
      split at hp
      next => cases hp
      next => cases hp
      next => exact ⟨t, by simp only [task?, ht], hmap hp⟩
    next => cases hp
    next => cases hp

theorem mem_round : i ∈ c.round ↔ i < c.width := by
  cases c <;> simp [round, width]

/-- The first moment that is waited for is still to come, and then somebody goes on. -/
theorem of_nextMoment? {moment : Nat} (h : c.nextMoment? f w = some moment) :
    w.clock < moment ∧ (c.follow f { w with clock := moment } c.round).1 = true := by
  obtain ⟨i, hi, hb⟩ : ∃ i ∈ c.round, c.turn f w i = .blocked (some moment) := by
    have hmem := List.min?_mem h
    obtain ⟨i, hi, hb⟩ := List.mem_filterMap.1 hmem
    refine ⟨i, hi, ?_⟩
    split at hb
    next hu => rw [hu, hb]
    next => cases hb
  obtain ⟨t, ht, hstep⟩ := task_of_blocked hb
  rcases Task.step_blocked hstep with ⟨-, h⟩ | ⟨ho, -, ⟨-, h⟩ | ⟨hn, hlt, hm⟩⟩
  · cases h
  · cases h
  · cases hm
    refine ⟨hlt, ?_⟩
    obtain ⟨t', w', hmoved⟩ := @Task.exists_step t { w with clock := t.moment } f ho (.inr hn)
      (Nat.le_refl _)
    obtain ⟨c', hturn⟩ := turn_of_step ht ho hmoved
    by_contra hfollow
    obtain ⟨until?, hblocked⟩ := blocked_of_follow (by simpa using hfollow) hi
    rw [hturn] at hblocked
    cases hblocked

/-- Where nothing moves and no moment is waited for, nothing more comes. -/
theorem hangs_of_stuck (hc : c.Sound) (hf : (c.follow f w c.round).1 = false)
    (hn : c.nextMoment? f w = none) : c.isOver = true ∨ c.isBroken = true ∨ c.Hangs w := by
  by_cases ho : c.isOver = true
  · exact .inl ho
  by_cases hb : c.isBroken = true
  · exact .inr (.inl hb)
  obtain ⟨i, hi, h⟩ := exists_job hc (by simpa using ho) (by simpa using hb)
  obtain ⟨until?, hblocked⟩ := blocked_of_follow hf (mem_round.2 hi)
  rcases h with h | ⟨t, ht, hnot⟩
  · obtain ⟨c', w', hmoved⟩ := h f w
    rw [hblocked] at hmoved
    cases hmoved
  · have hu : until? = none := by
      have hnil := List.min?_eq_none_iff.1 hn
      rw [List.filterMap_eq_nil_iff] at hnil
      simpa [hblocked] using hnil i (mem_round.2 hi)
    obtain ⟨g, hg⟩ := turn_of_task ht hnot
    have hstep : t.step f w = .blocked none := by
      rw [hg, hu] at hblocked
      cases hs : t.step f w with
      | moved => simp [hs, Turn.map] at hblocked
      | blocked => simpa [hs, Turn.map] using hblocked
    rcases Task.step_blocked hstep with ⟨h, -⟩ | ⟨-, hw, ⟨h, -⟩ | ⟨-, -, h⟩⟩
    · exact absurd h hnot
    · exact .inr (.inr ⟨hw, i, t, ht, h⟩)
    · cases h

/-! ### All rounds -/

theorem after_append (c : Crew) (w : World) (ms ms' : List Move) :
    c.after w (ms ++ ms') = (c.after w ms).1.after (c.after w ms).2 ms' := by
  simp [after]

/-- Going on alone makes moves like any other. -/
theorem drive_eq_after (f : Facilities) (fuel : Nat) (c : Crew) (w : World) :
    ∃ moves, (∀ m ∈ moves, m.IsQuiet f) ∧ c.drive f fuel w = c.after w moves := by
  induction fuel generalizing c w with
  | zero => exact ⟨[], by simp, rfl⟩
  | succ fuel ih =>
    rw [drive]
    split
    next c' w' h =>
      obtain ⟨moves, hq, he⟩ := ih c' w'
      refine ⟨c.round.map (.turn f) ++ moves, ?_, ?_⟩
      · intro m hm
        rcases List.mem_append.1 hm with hm | hm
        · obtain ⟨i, -, rfl⟩ := List.mem_map.1 hm
          exact .inl ⟨i, rfl⟩
        · exact hq m hm
      · rw [after_append, ← follow_snd, h, he]
    next h =>
      split
      next moment hm =>
        obtain ⟨moves, hq, he⟩ := ih c { w with clock := moment }
        refine ⟨.wait (moment - w.clock) :: moves, ?_, ?_⟩
        · intro m hmem
          rcases List.mem_cons.1 hmem with rfl | hmem
          · exact .inr ⟨_, rfl⟩
          · exact hq m hmem
        · have hlt := (of_nextMoment? hm).1
          have hclock : w.clock + (moment - w.clock) = moment := by omega
          rw [after_cons, make, World.wait, hclock]
          exact he
      next => exact ⟨[], by simp, rfl⟩

/-- Twice as many rounds as there are turns left are enough: after a jump somebody moves. -/
theorem drive_ends (f : Facilities) {fuel : Nat} (hc : c.Sound) (hfuel : 2 * c.left + 2 ≤ fuel) :
    (c.drive f fuel w).1.isOver = true ∨ (c.drive f fuel w).1.isBroken = true ∨
      (c.drive f fuel w).1.Hangs (c.drive f fuel w).2 := by
  induction fuel using Nat.strongRecOn generalizing c w with
  | ind fuel ih =>
    obtain ⟨n, rfl⟩ : ∃ n, fuel = n + 2 := ⟨fuel - 2, by omega⟩
    have hround (w : World) (k : Nat) (hk : k < n + 2) (hle : 2 * c.left ≤ k)
        (hgo : (c.follow f w c.round).1 = true) :
        (c.drive f (k + 1) w).1.isOver = true ∨ (c.drive f (k + 1) w).1.isBroken = true ∨
          (c.drive f (k + 1) w).1.Hangs (c.drive f (k + 1) w).2 := by
      have hlt := follow_left_lt hgo
      have hsound : (c.follow f w c.round).2.1.Sound := by
        rw [follow_snd]
        exact after_sound hc ..
      rw [drive]
      split
      next c' w' h =>
        simp only [h] at hlt hsound
        exact ih k hk hsound (by omega)
      next h => simp [h] at hgo
    by_cases hgo : (c.follow f w c.round).1 = true
    · exact hround w (n + 1) (by omega) (by omega) hgo
    · have hstuck : (c.follow f w c.round).1 = false := by simpa using hgo
      cases hm : c.nextMoment? f w with
      | none =>
        rw [drive]
        simp only [follow_eq hstuck, hm]
        exact hangs_of_stuck hc hstuck hm
      | some moment =>
        rw [drive]
        simp only [follow_eq hstuck, hm]
        exact hround _ n (by omega) (by omega) (of_nextMoment? hm).2

end Crew

end Testbed
