import Testbed.Text.Blank

/-! Cutting a text at a character and joining what was cut. -/
namespace Testbed.Text

variable {cut : Char → Bool}

theorem pieces_cons (c : Char) (s : List Char) :
    pieces cut (c :: s) = if cut c then [] :: pieces cut s
      else match pieces cut s with
        | [] => [[c]]
        | p :: rest => (c :: p) :: rest := rfl

theorem pieces_ne_nil (s : List Char) : pieces cut s ≠ [] := by
  cases s with
  | nil => simp [pieces]
  | cons c s =>
    rw [pieces_cons]
    split
    · simp
    · split <;> simp

theorem pieces_of_uncut {s : List Char} (h : ∀ c ∈ s, cut c = false) : pieces cut s = [s] := by
  induction s with
  | nil => rfl
  | cons c s ih =>
    rw [pieces_cons, ih fun d hd => h d (List.mem_cons_of_mem c hd), h c List.mem_cons_self]
    rfl

theorem pieces_of_not_mem {c : Char} {s : List Char} (h : c ∉ s) : pieces (· == c) s = [s] :=
  pieces_of_uncut fun _ hd => beq_eq_false_iff_ne.2 fun heq => h (heq ▸ hd)

theorem pieces_append_cut {c : Char} (hc : cut c = true) (s s' : List Char) :
    pieces cut (s ++ c :: s') = pieces cut s ++ pieces cut s' := by
  induction s with
  | nil => simp [hc, pieces]
  | cons d s ih =>
    rw [List.cons_append, pieces_cons, pieces_cons, ih]
    split
    · rfl
    · cases h : pieces cut s with
      | nil => exact absurd h (pieces_ne_nil s)
      | cons p rest => rfl

/-- No piece holds what the text is cut at. -/
theorem uncut_of_mem_pieces {s p : List Char} (h : p ∈ pieces cut s) : ∀ c ∈ p, cut c = false := by
  induction s generalizing p with
  | nil =>
    rw [List.mem_singleton.1 h]
    exact fun c hc => absurd hc List.not_mem_nil
  | cons d s ih =>
    rw [pieces_cons] at h
    split at h
    · rcases List.mem_cons.1 h with rfl | h
      · exact fun c hc => absurd hc List.not_mem_nil
      · exact ih h
    next hd =>
      split at h
      next hnil => exact absurd hnil (pieces_ne_nil s)
      next q rest hq =>
        rcases List.mem_cons.1 h with rfl | h
        · refine List.forall_mem_cons.2 ⟨by simpa using hd, ?_⟩
          exact ih (hq ▸ List.mem_cons_self)
        · exact ih (hq ▸ List.mem_cons_of_mem q h)

theorem joinWith_cons (sep w : List Char) {rest : List (List Char)} (h : rest ≠ []) :
    joinWith sep (w :: rest) = w ++ sep ++ joinWith sep rest := by
  cases rest with
  | nil => exact absurd rfl h
  | cons => rfl

/-- What was cut at one character is joined by it again. -/
theorem joinWith_pieces (mark : Char) (s : List Char) :
    joinWith [mark] (pieces (· == mark) s) = s := by
  induction s with
  | nil => rfl
  | cons c s ih =>
    rw [pieces_cons]
    split
    next h =>
      obtain rfl : c = mark := by simpa using h
      rw [joinWith_cons _ _ (pieces_ne_nil s), ih]
      rfl
    next =>
      split
      next h => exact absurd h (pieces_ne_nil s)
      next p rest h =>
        rw [h] at ih
        cases rest with
        | nil =>
          rw [← ih]
          rfl
        | cons next rest =>
          rw [joinWith_cons _ _ (List.cons_ne_nil _ _)] at ih ⊢
          rw [← ih]
          rfl

theorem pieces_inj {mark : Char} {s t : List Char} :
    pieces (· == mark) s = pieces (· == mark) t ↔ s = t := by
  refine ⟨fun h => ?_, fun h => h ▸ rfl⟩
  rw [← joinWith_pieces mark s, h, joinWith_pieces]

end Testbed.Text
