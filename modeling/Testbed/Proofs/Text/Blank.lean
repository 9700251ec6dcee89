import Mathlib.Data.List.DropRight
import Testbed.Proofs.Text.Pieces
import Testbed.Proofs.Text.Runs

/-! Blanks at the ends of a text, its words, and the ends of its lines. Trimming takes blanks away and
nothing else, and a text that is cut and then trimmed piece by piece does not show them either. The
words of a text are what blanks leave of it. The lines of a text are those of its parts where each
part ends its last line. -/
namespace Testbed.Text

theorem trim_append_left {l : List Char} (hl : ∀ c ∈ l, isBlank c = true) (s : List Char) :
    trim (l ++ s) = trim s := by
  rw [trim, trimStart, List.dropWhile_append_of_pos hl]
  rfl

theorem trimEnd_append_right {r : List Char} (hr : ∀ c ∈ r, isBlank c = true) (s : List Char) :
    trimEnd (s ++ r) = trimEnd s := by
  have hrev : ∀ c ∈ r.reverse, isBlank c = true := fun c hc => hr c (List.mem_reverse.1 hc)
  rw [trimEnd, List.reverse_append, List.dropWhile_append_of_pos hrev]
  rfl

theorem trim_append_right {r : List Char} (hr : ∀ c ∈ r, isBlank c = true) (s : List Char) :
    trim (s ++ r) = trim s := by
  have hnil : r.dropWhile isBlank = [] := by
    rw [← List.append_nil r, List.dropWhile_append_of_pos hr]
    rfl
  rw [trim, trim, trimStart, trimStart, List.dropWhile_append]
  split
  next h => rw [hnil, List.isEmpty_iff.1 h]
  next => exact trimEnd_append_right hr _

/-- A text and what is left of it without the blanks around it. -/
structure Trims (s t : List Char) : Prop where
  blanks : ∃ l r, s = l ++ t ++ r ∧ ∀ c ∈ l ++ r, isBlank c = true
  head : ∀ c, t.head? = some c → isBlank c = false
  last : ∀ c, t.getLast? = some c → isBlank c = false

theorem Trims.self {s t : List Char} (h : Trims s t) : Trims t t :=
  ⟨⟨[], [], by simp, by simp⟩, h.head, h.last⟩

theorem Trims.subset {s t : List Char} (h : Trims s t) : t ⊆ s := by
  obtain ⟨⟨l, r, rfl, -⟩, -, -⟩ := h
  intro c hc
  simp [hc]

theorem trims_trim (s : List Char) : Trims s (trim s) := by
  have hstart : s.takeWhile isBlank ++ trimStart s = s := List.takeWhile_append_dropWhile
  have hend : trim s ++ (trimStart s).rtakeWhile isBlank = trimStart s :=
    List.rdropWhile_append_rtakeWhile
  refine ⟨⟨s.takeWhile isBlank, (trimStart s).rtakeWhile isBlank, ?_, ?_⟩, ?_, ?_⟩
  · rw [List.append_assoc, hend, hstart]
  · intro c hc
    rcases List.mem_append.1 hc with hc | hc
    · exact List.mem_takeWhile_imp hc
    · exact List.mem_rtakeWhile_imp hc
  · intro c hc
    have hfirst : (trimStart s).head? = some c := by
      rw [← hend, List.head?_append, hc, Option.some_or]
    exact head?_dropWhile hfirst
  · intro c hc
    have hfirst : ((trimStart s).reverse.dropWhile isBlank).head? = some c := by
      rwa [← List.getLast?_reverse]
    exact head?_dropWhile hfirst

theorem trim_eq_iff {s t : List Char} : trim s = t ↔ Trims s t := by
  constructor
  · rintro rfl
    exact trims_trim s
  · rintro ⟨⟨l, r, rfl, hblank⟩, hhead, hlast⟩
    have hl : ∀ c ∈ l, isBlank c = true := fun c hc => hblank c (List.mem_append_left r hc)
    have hr : ∀ c ∈ r, isBlank c = true := fun c hc => hblank c (List.mem_append_right l hc)
    have hrev : t.reverse.dropWhile isBlank = t.reverse := dropWhile_of_head (by simpa using hlast)
    rw [trim_append_right hr, trim_append_left hl, trim, trimStart, dropWhile_of_head hhead,
      trimEnd, hrev, List.reverse_reverse]

theorem trimStart_run {l r : List Char} (hl : ∀ c ∈ l, isBlank c = true)
    (hr : ∀ c, r.head? = some c → isBlank c = false) : trimStart (l ++ r) = r :=
  dropWhile_run hl hr

/-- What is put behind a text without a cut belongs to its last piece. -/
theorem pieces_append_uncut {cut : Char → Bool} {r : List Char} (hr : ∀ c ∈ r, cut c = false)
    (s : List Char) :
    ∃ front last, pieces cut s = front ++ [last] ∧ pieces cut (s ++ r) = front ++ [last ++ r] := by
  induction s with
  | nil => exact ⟨[], [], rfl, pieces_of_uncut hr⟩
  | cons c s ih =>
    obtain ⟨front, last, hs, hsr⟩ := ih
    rw [List.cons_append, pieces_cons, pieces_cons, hs, hsr]
    split
    · exact ⟨[] :: front, last, rfl, rfl⟩
    · cases front with
      | nil => exact ⟨[], c :: last, rfl, rfl⟩
      | cons p front => exact ⟨(c :: p) :: front, last, rfl, rfl⟩

section Mark

variable {mark : Char} (hmark : isBlank mark = false)
include hmark

theorem map_trim_pieces_left {l : List Char} (hl : ∀ c ∈ l, isBlank c = true) (s : List Char) :
    (pieces (· == mark) (l ++ s)).map trim = (pieces (· == mark) s).map trim := by
  induction l with
  | nil => rfl
  | cons c l ih =>
    have hc := hl c List.mem_cons_self
    rw [← ih fun d hd => hl d (List.mem_cons_of_mem c hd), List.cons_append, pieces_cons]
    split
    next h =>
      obtain rfl : c = mark := by simpa using h
      rw [hmark] at hc
      cases hc
    next =>
      split
      next h => exact absurd h (pieces_ne_nil _)
      next p rest h =>
        have htrim : trim ([c] ++ p) = trim p := trim_append_left (by simpa using hc) p
        rw [h, List.map_cons, List.map_cons, ← htrim]
        rfl

theorem map_trim_pieces_right {r : List Char} (hr : ∀ c ∈ r, isBlank c = true) (s : List Char) :
    (pieces (· == mark) (s ++ r)).map trim = (pieces (· == mark) s).map trim := by
  have huncut : ∀ c ∈ r, (c == mark) = false := fun c hc => by
    rw [beq_eq_false_iff_ne]
    rintro rfl
    rw [hr c hc] at hmark
    cases hmark
  obtain ⟨front, last, hs, hsr⟩ := pieces_append_uncut huncut s
  simp only [hs, hsr, List.map_append, List.map_cons, List.map_nil, trim_append_right hr]

end Mark

/-! ### Words -/

/-- A text and its words: blanks go, and a word goes on until the next blank or the end. -/
inductive Words : List Char → List (List Char) → Prop
  | nil : Words [] []
  | blank {c : Char} {s : List Char} {ws : List (List Char)} (hc : isBlank c = true)
      (h : Words s ws) : Words (c :: s) ws
  | word {w s : List Char} {ws : List (List Char)} (hw : w ≠ []) (hfull : ∀ c ∈ w, isBlank c = false)
      (hend : ∀ c, s.head? = some c → isBlank c = true) (h : Words s ws) : Words (w ++ s) (w :: ws)

theorem words_blank {c : Char} (hc : isBlank c = true) (s : List Char) :
    words (c :: s) = words s := by
  rw [words, pieces_cons, if_pos hc]
  rfl

theorem words_word {w s : List Char} (hw : w ≠ []) (hfull : ∀ c ∈ w, isBlank c = false)
    (hend : ∀ c, s.head? = some c → isBlank c = true) : words (w ++ s) = w :: words s := by
  have hone : [w].filter (fun w => !w.isEmpty) = [w] := by simpa using hw
  cases s with
  | nil =>
    rw [words, List.append_nil, pieces_of_uncut hfull, hone]
    rfl
  | cons c s =>
    have hc : isBlank c = true := hend c rfl
    rw [words, pieces_append_cut hc, pieces_of_uncut hfull, List.filter_append, hone,
      words_blank hc]
    rfl

theorem words_words (s : List Char) : Words s (words s) := by
  induction hn : s.length using Nat.strongRecOn generalizing s with
  | _ n ih =>
    cases s with
    | nil => exact .nil
    | cons c s =>
      by_cases hc : isBlank c = true
      · rw [words_blank hc]
        exact .blank hc (ih s.length (by simp [← hn]) s rfl)
      · let full (d : Char) : Bool := !isBlank d
        have hc' : full c = true := by simpa [full] using hc
        have hsplit : (c :: s.takeWhile full) ++ s.dropWhile full = c :: s := by
          rw [List.cons_append, List.takeWhile_append_dropWhile]
        have hfull : ∀ d ∈ c :: s.takeWhile full, isBlank d = false := by
          rintro d (_ | ⟨_, hd⟩)
          · simpa using hc
          · simpa [full] using List.all_eq_true.1 List.all_takeWhile d hd
        have hend : ∀ d, (s.dropWhile full).head? = some d → isBlank d = true := by
          intro d hd
          simpa [full] using head?_dropWhile hd
        have hlen : (s.dropWhile full).length < n := by
          have := (List.dropWhile_sublist full (l := s)).length_le
          simp only [List.length_cons] at hn
          omega
        rw [← hsplit, words_word (List.cons_ne_nil _ _) hfull hend]
        exact .word (List.cons_ne_nil _ _) hfull hend (ih _ hlen _ rfl)

theorem words_eq_iff {s : List Char} {ws : List (List Char)} : words s = ws ↔ Words s ws := by
  refine ⟨fun h => h ▸ words_words s, fun h => ?_⟩
  induction h with
  | nil => rfl
  | blank hc h ih => rw [words_blank hc, ih]
  | word hw hfull hend h ih => rw [words_word hw hfull hend, ih]

/-! ### Lines -/

theorem lines_append_newline (s t : List Char) :
    lines (s ++ '\n' :: t) = (pieces (· == '\n') s).map dropReturn ++ lines t := by
  have hcut : pieces (· == '\n') (s ++ '\n' :: t) =
      pieces (· == '\n') s ++ pieces (· == '\n') t := pieces_append_cut rfl s t
  have hne : pieces (· == '\n') t ≠ [] := pieces_ne_nil t
  unfold lines
  dsimp only
  rw [hcut, List.dropLast_append_of_ne_nil hne, List.getLast?_append,
    List.getLast?_eq_some_getLast hne, Option.some_or, List.map_append, List.append_assoc]

theorem lines_finished (s : List Char) :
    lines (s ++ ['\n']) = (pieces (· == '\n') s).map dropReturn := by
  rw [lines_append_newline]
  exact List.append_nil _

/-- A text whose last line is ended keeps its lines, whatever comes behind it. -/
theorem lines_append_finished (s t : List Char) :
    lines (s ++ ['\n'] ++ t) = lines (s ++ ['\n']) ++ lines t := by
  rw [lines_finished, List.append_assoc, List.singleton_append, lines_append_newline]

theorem lines_of_line {s : List Char} (h : '\n' ∉ s) : lines (s ++ ['\n']) = [dropReturn s] := by
  rw [lines_finished, pieces_of_not_mem h]
  rfl

/-- The carriage return that a line may lose does not count for how the line begins. -/
theorem isPrefixOf_dropReturn {p : List Char} (hp : '\r' ∉ p) (line : List Char) :
    p.isPrefixOf (dropReturn line) = p.isPrefixOf line := by
  unfold dropReturn
  split
  next h =>
    obtain ⟨front, rfl⟩ := List.getLast?_eq_some_iff.1 h
    rw [List.dropLast_concat, Bool.eq_iff_iff, List.isPrefixOf_iff_prefix,
      List.isPrefixOf_iff_prefix, List.prefix_concat_iff]
    refine ⟨.inr, fun hor => hor.resolve_left ?_⟩
    rintro rfl
    exact hp (List.mem_append_right _ (List.mem_singleton_self _))
  next => rfl

end Testbed.Text
