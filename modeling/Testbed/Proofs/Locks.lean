import Testbed.Locks.Basic

/-! Whose line a ticket enters and leaves. A lock that nobody holds or waits for belongs at once to
whoever asks, and what happens in one line leaves all others alone. -/
namespace Testbed.Locks

namespace Registry

variable (r : Registry) (name other : String)

theorem line_setLine (tickets : List Ticket) :
    (r.setLine name tickets).line other = if other = name then tickets else r.line other := by
  unfold setLine line
  by_cases h : other = name
  · simp [h]
  · have hne : (name == other) = false := by simpa using Ne.symm h
    rw [List.find?_cons_of_neg (by simp [hne]), List.find?_filter, if_neg h]
    congr 3
    funext l
    by_cases hl : l.1 = other
    · simp [hl, h]
    · simp [hl]

theorem line_enter :
    (r.enter name).2.line other = if other = name then r.line name ++ [r.next] else r.line other :=
  line_setLine r name other _

theorem mem_line_enter {t : Ticket} : t ∈ (r.enter name).2.line other ↔
    t ∈ r.line other ∨ other = name ∧ t = r.next := by
  rw [line_enter]
  split
  next h => rw [h, List.mem_append, List.mem_singleton, and_iff_right rfl]
  next h => simp [h]

/-- Whoever gets in line takes no lock from its owner. -/
theorem owner?_enter {t : Ticket} (h : r.owner? other = some t) :
    (r.enter name).2.owner? other = some t := by
  rw [owner?] at h ⊢
  rw [line_enter]
  split
  next hother =>
    rw [hother] at h
    rw [List.head?_append, h, Option.some_or]
  next => exact h

theorem line_leave (t : Ticket) : (r.leave name t).line other =
    if other = name then (r.line name).filter (· != t) else r.line other :=
  line_setLine r name other _

theorem mem_line_leave {t u : Ticket} : u ∈ (r.leave name t).line other ↔
    u ∈ r.line other ∧ ¬ (other = name ∧ u = t) := by
  rw [line_leave]
  split
  next h => rw [h, List.mem_filter, bne_iff_ne, and_iff_right rfl]
  next h => simp [h]

theorem line_leave_sublist (t : Ticket) :
    ((r.leave name t).line other).Sublist (r.line other) := by
  rw [line_leave]
  split
  next h => exact h ▸ List.filter_sublist
  next => exact List.Sublist.refl _

/-- A ticket that is given back takes no lock from another. -/
theorem owner?_leave {t u : Ticket} (h : r.owner? other = some u) (hne : other = name → u ≠ t) :
    (r.leave name t).owner? other = some u := by
  rw [owner?] at h ⊢
  rw [line_leave]
  split
  next hother =>
    subst hother
    obtain ⟨rest, hrest⟩ := List.head?_eq_some_iff.1 h
    rw [hrest, List.filter_cons, if_pos (bne_iff_ne.2 (hne rfl)), List.head?_cons]
  next => exact h

theorem setLine_setLine (tickets tickets' : List Ticket) :
    (r.setLine name tickets).setLine name tickets' = r.setLine name tickets' := by
  simp [setLine, List.filter_filter]

theorem probe_free (h : r.line name = []) : r.probe name = (true, r.setLine name []) := by
  simp [probe, tryTake, h, leave, line_setLine, setLine_setLine]

theorem probe_taken (h : r.line name ≠ []) : r.probe name = (false, r) := by
  simp [probe, tryTake, h]

/-- The probe finds the lock free just when nobody stands in line. -/
theorem probe_fst : (r.probe name).1 = true ↔ r.line name = [] := by
  by_cases h : r.line name = []
  · simp [probe_free r name h, h]
  · simp [probe_taken r name h, h]

/-- The probe changes no line. -/
theorem line_probe : (r.probe name).2.line other = r.line other := by
  by_cases h : r.line name = []
  · rw [probe_free r name h, line_setLine]
    split
    next hother => rw [hother, h]
    next => rfl
  · rw [probe_taken r name h]

/-- Whoever gets in line after a probe stands there as without it. -/
theorem enter_probe : (r.probe name).2.enter name = r.enter name := by
  by_cases h : r.line name = []
  · rw [probe_free r name h, enter, enter, line_setLine, if_pos rfl, setLine_setLine, h]
    rfl
  · rw [probe_taken r name h]

end Registry

variable {r : Registry} {name : String}

theorem acquire_eq (r : Registry) (name : String) :
    acquire r name = ((Client.mk name r.next false).poll (r.enter name).2, (r.enter name).2) := by
  rw [acquire, Registry.enter_probe]
  rfl

theorem acquire_free (h : r.line name = []) :
    acquire r name = (⟨name, r.next, true⟩, (r.enter name).2) := by
  have howner : (r.enter name).2.owner? name = some r.next := by
    rw [Registry.owner?, Registry.line_enter, if_pos rfl, h]
    rfl
  rw [acquire_eq, Client.poll, if_pos howner]

end Testbed.Locks
