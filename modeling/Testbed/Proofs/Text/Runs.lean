/-! Runs: the letters of one kind at the front of a text, and what stands behind them. A run ends where
it cannot go on, so it comes off a text in one way only. -/
namespace Testbed.Text

variable {α : Type} {p : α → Bool} {l l' r r' : List α}

theorem head?_dropWhile {a : α} (h : (r.dropWhile p).head? = some a) : p a = false := by
  have := List.head?_dropWhile_not p r
  rw [h] at this
  simpa using this

theorem dropWhile_of_head (hr : ∀ a, r.head? = some a → p a = false) : r.dropWhile p = r := by
  cases r with
  | nil => rfl
  | cons a r => exact List.dropWhile_cons_of_neg (by simp [hr a rfl])

theorem dropWhile_run (hl : ∀ a ∈ l, p a = true) (hr : ∀ a, r.head? = some a → p a = false) :
    (l ++ r).dropWhile p = r := by
  rw [List.dropWhile_append_of_pos hl, dropWhile_of_head hr]

theorem takeWhile_run (hl : ∀ a ∈ l, p a = true) (hr : ∀ a, r.head? = some a → p a = false) :
    (l ++ r).takeWhile p = l := by
  apply (List.append_left_inj ((l ++ r).dropWhile p)).1
  rw [List.takeWhile_append_dropWhile, dropWhile_run hl hr]

theorem run_inj (hl : ∀ a ∈ l, p a = true) (hl' : ∀ a ∈ l', p a = true)
    (hr : ∀ a, r.head? = some a → p a = false) (hr' : ∀ a, r'.head? = some a → p a = false)
    (h : l ++ r = l' ++ r') : l = l' ∧ r = r' := by
  have hrun : l = l' := by rw [← takeWhile_run hl hr, h, takeWhile_run hl' hr']
  subst hrun
  exact ⟨rfl, List.append_cancel_left h⟩

end Testbed.Text
