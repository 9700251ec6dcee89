import Mathlib.Algebra.Order.BigOperators.Group.List
import Mathlib.Data.List.Forall2
import Mathlib.Data.List.Nodup
import Mathlib.Tactic.Linarith
import Mathlib.Tactic.Ring
import Testbed.Proofs.Text.Runs
import Testbed.Text.Replace

/-! Replacing the words of a table one after the other, against replacing all of them at once from
the left. The words are names in braces, so no two of them overlap and one that stands in the text is
still there when its turn comes. The two ways agree where no word has come up in between that did not
stand in the text from the start, out of what was put in or around it; and under a mild condition on
what is put in they agree only there. -/
namespace Testbed.Text

/-! ### Definitions -/

/-- A name in braces. -/
def IsMark (w : List Char) : Prop :=
  ∃ name, w = '\x7b' :: (name ++ ['\x7d']) ∧ ∀ c ∈ name, c.isAlpha = true

/-- Different marks, each with what is put in for it. -/
structure IsTable (table : List (List Char × List Char)) : Prop where
  marks : ∀ e ∈ table, IsMark e.1
  distinct : (table.map Prod.fst).Nodup

/-- The words of a table replaced in a text, all at once from the left: where one stands its
replacement is put in and the text goes on behind the word, and every other character stays. -/
inductive Substituted (table : List (List Char × List Char)) : List Char → List Char → Prop
  | nil : Substituted table [] []
  | word {e : List Char × List Char} {s t : List Char} (he : e ∈ table)
      (h : Substituted table s t) : Substituted table (e.1 ++ s) (e.2 ++ t)
  | char {c : Char} {s t : List Char} (hc : ∀ e ∈ table, ¬ e.1 <+: c :: s)
      (h : Substituted table s t) : Substituted table (c :: s) (c :: t)

/-- How often a word stands in a text. -/
def occurrences (w s : List Char) : Nat := s.tails.countP w.isPrefixOf

/-- Whether the words of a table stand as often in the text when their turn comes as in `s`, the text
at the start; `now` is what has become of it so far. -/
def Undisturbed : List (List Char × List Char) → List Char → List Char → Prop
  | [], _, _ => True
  | e :: rest, s, now =>
    occurrences e.1 now = occurrences e.1 s ∧ Undisturbed rest s (replaceAll e.1 e.2 now)

instance Undisturbed.decide : (table : List (List Char × List Char)) → (s now : List Char) →
    Decidable (Undisturbed table s now)
  | [], _, _ => isTrue trivial
  | _ :: rest, s, _ => @instDecidableAnd _ _ _ (Undisturbed.decide rest s _)

/-! ### Marks -/

variable {w u v s t x : List Char} {c : Char} {e : List Char × List Char}
  {table : List (List Char × List Char)}

theorem isMark_of_isAlpha (name : String) (h : name.toList.all Char.isAlpha = true) :
    IsMark ('\x7b' :: (name.toList ++ ['\x7d'])) :=
  ⟨name.toList, rfl, List.all_eq_true.1 h⟩

theorem IsMark.ne_nil (hw : IsMark w) : w ≠ [] := by
  obtain ⟨name, rfl, -⟩ := hw
  simp

/-- A mark stands only where a brace opens. -/
theorem IsMark.not_starts (hw : IsMark w) (hc : c ≠ '\x7b') : ¬ w <+: c :: s := by
  obtain ⟨name, rfl, -⟩ := hw
  rw [List.cons_prefix_cons]
  exact fun h => hc h.1.symm

/-- Where one mark stands there is no other. -/
theorem IsMark.eq_of_starts (hw : IsMark w) (hu : IsMark u) (h : w <+: u ++ s) : w = u := by
  obtain ⟨name, rfl, hname⟩ := hw
  obtain ⟨name', rfl, hname'⟩ := hu
  have hopen {n : List Char} (hn : ∀ c ∈ n, c.isAlpha = true) :
      ∀ c ∈ n, decide (c ≠ '\x7d') = true := by
    intro c hc
    apply decide_eq_true
    rintro rfl
    exact absurd (hn _ hc) (by decide)
  obtain ⟨rest, h⟩ := h
  simp only [List.cons_append, List.append_assoc, List.cons.injEq, true_and, List.nil_append] at h
  rw [(Text.run_inj (hopen hname) (hopen hname') (by simp) (by simp) h).1]

/-! ### Occurrences -/

theorem occurrences_nil (hw : w ≠ []) : occurrences w [] = 0 := by
  simp [occurrences, hw]

theorem occurrences_cons (w : List Char) (c : Char) (s : List Char) :
    occurrences w (c :: s) = occurrences w s + if w <+: c :: s then 1 else 0 := by
  simp [occurrences, List.countP_cons, List.isPrefixOf_iff_prefix]

theorem occurrences_cons_of_not (h : ¬ w <+: c :: s) :
    occurrences w (c :: s) = occurrences w s := by
  rw [occurrences_cons, if_neg h, Nat.add_zero]

theorem le_occurrences_append (w x s : List Char) : occurrences w s ≤ occurrences w (x ++ s) := by
  induction x with
  | nil => exact le_rfl
  | cons c x ih =>
    rw [List.cons_append, occurrences_cons]
    omega

theorem occurrences_append_of_shut (hw : IsMark w) (hx : ∀ c ∈ x, c ≠ '\x7b') :
    occurrences w (x ++ s) = occurrences w s := by
  induction x with
  | nil => rfl
  | cons c x ih =>
    rw [List.cons_append, occurrences_cons_of_not (hw.not_starts (hx c List.mem_cons_self)),
      ih fun d hd => hx d (List.mem_cons_of_mem c hd)]

/-- What follows the brace that opens a mark. -/
theorem IsMark.exists_tail (hu : IsMark u) :
    ∃ x, u = '\x7b' :: x ∧ ∀ c ∈ x, c ≠ '\x7b' := by
  obtain ⟨name, rfl, hname⟩ := hu
  refine ⟨_, rfl, fun c hc => ?_⟩
  rcases List.mem_append.1 hc with hc | hc
  · rintro rfl
    exact absurd (hname _ hc) (by decide)
  · rw [List.mem_singleton.1 hc]
    decide

theorem occurrences_mark_append (hw : IsMark w) (hu : IsMark u) (s : List Char) :
    occurrences w (u ++ s) = occurrences w s + if w = u then 1 else 0 := by
  have hiff : w <+: u ++ s ↔ w = u :=
    ⟨hw.eq_of_starts hu, fun h => h ▸ List.prefix_append w s⟩
  obtain ⟨x, rfl, hx⟩ := hu.exists_tail
  rw [List.cons_append] at hiff ⊢
  rw [occurrences_cons, occurrences_append_of_shut hw hx]
  simp only [hiff]

/-! ### One word -/

theorem replaceFrom_eq (w v : List Char) (n : Nat) (s : List Char) :
    replaceFrom w v n s = replaceAll w v (s.drop n) := by
  induction n generalizing s with
  | zero => rfl
  | succ n ih =>
    cases s with
    | nil => simp [replaceFrom, replaceAll]
    | cons c s => exact ih s

theorem replaceAll_cons_of_not (h : ¬ w <+: c :: s) :
    replaceAll w v (c :: s) = c :: replaceAll w v s := by
  have hb : ¬ w.isPrefixOf (c :: s) = true := mt List.isPrefixOf_iff_prefix.1 h
  rw [replaceAll, replaceFrom, if_neg hb]
  rfl

theorem replaceAll_word (hw : w ≠ []) : replaceAll w v (w ++ s) = v ++ replaceAll w v s := by
  obtain ⟨c, w, rfl⟩ := List.exists_cons_of_ne_nil hw
  have hb : (c :: w).isPrefixOf (c :: (w ++ s)) = true :=
    List.isPrefixOf_iff_prefix.2 (List.prefix_append (c :: w) s)
  rw [List.cons_append, replaceAll, replaceFrom, if_pos hb, replaceFrom_eq]
  simp

theorem replaceAll_append_of_shut (hw : IsMark w) (hx : ∀ c ∈ x, c ≠ '\x7b') :
    replaceAll w v (x ++ s) = x ++ replaceAll w v s := by
  induction x with
  | nil => rfl
  | cons c x ih =>
    rw [List.cons_append, replaceAll_cons_of_not (hw.not_starts (hx c List.mem_cons_self)),
      ih fun d hd => hx d (List.mem_cons_of_mem c hd), List.cons_append]

/-- Another mark stays. -/
theorem replaceAll_mark (hw : IsMark w) (hu : IsMark u) (hne : w ≠ u) :
    replaceAll w v (u ++ s) = u ++ replaceAll w v s := by
  have hnot : ¬ w <+: u ++ s := fun h => hne (hw.eq_of_starts hu h)
  obtain ⟨x, rfl, hx⟩ := hu.exists_tail
  rw [List.cons_append] at hnot ⊢
  rw [replaceAll_cons_of_not hnot, replaceAll_append_of_shut hw hx, List.cons_append]

/-! ### All at once -/

namespace IsTable

theorem tail {rest : List (List Char × List Char)} (h : IsTable (e :: rest)) : IsTable rest :=
  ⟨fun e' he => h.marks e' (List.mem_cons_of_mem e he), (List.nodup_cons.1 h.distinct).2⟩

theorem ne_of_mem {rest : List (List Char × List Char)} {e' : List Char × List Char}
    (h : IsTable (e :: rest)) (he : e' ∈ rest) : e.1 ≠ e'.1 := by
  intro heq
  exact (List.nodup_cons.1 h.distinct).1 (heq ▸ List.mem_map_of_mem he)

theorem eq_of_fst {e' : List Char × List Char} (h : IsTable table) (he : e ∈ table)
    (he' : e' ∈ table) (heq : e.1 = e'.1) : e = e' :=
  List.inj_on_of_nodup_map h.distinct he he' heq

end IsTable

/-- Every text can be substituted in. -/
theorem Substituted.exists_of_isTable (ht : IsTable table) (s : List Char) :
    ∃ t, Substituted table s t := by
  induction hn : s.length using Nat.strong_induction_on generalizing s with
  | _ n ih =>
    cases s with
    | nil => exact ⟨[], .nil⟩
    | cons c s =>
      by_cases hword : ∃ e ∈ table, e.1 <+: c :: s
      · obtain ⟨e, he, rest, hrest⟩ := hword
        have hpos : e.1.length ≠ 0 := mt List.length_eq_zero_iff.1 (ht.marks e he).ne_nil
        have hlen : e.1.length + rest.length = n := by rw [← hn, ← hrest, List.length_append]
        obtain ⟨t, h⟩ := ih rest.length (by omega) rest rfl
        exact ⟨e.2 ++ t, hrest ▸ .word he h⟩
      · obtain ⟨t, h⟩ := ih s.length (by simp [← hn]) s rfl
        exact ⟨c :: t, .char (fun e he hp => hword ⟨e, he, hp⟩) h⟩

/-- There is one way to substitute. -/
theorem Substituted.unique {t' : List Char} (ht : IsTable table) (h : Substituted table s t)
    (h' : Substituted table s t') : t = t' := by
  induction h generalizing t' with
  | nil =>
    generalize hs : ([] : List Char) = s at h'
    cases h' with
    | nil => rfl
    | word he => exact absurd (List.append_eq_nil_iff.1 hs.symm).1 (ht.marks _ he).ne_nil
    | char => cases hs
  | @word e s t he h ih =>
    generalize hs : e.1 ++ s = s' at h'
    cases h' with
    | nil => exact absurd (List.append_eq_nil_iff.1 hs).1 (ht.marks e he).ne_nil
    | @word e' s' t' he' h' =>
      have hp : e.1 <+: e'.1 ++ s' := ⟨s, hs⟩
      obtain rfl := ht.eq_of_fst he he' ((ht.marks e he).eq_of_starts (ht.marks e' he') hp)
      obtain rfl := List.append_cancel_left hs
      rw [ih h']
    | char hc => exact absurd ⟨s, hs⟩ (hc e he)
  | @char c s t hc h ih =>
    generalize hs : c :: s = s' at h'
    cases h' with
    | nil => cases hs
    | @word e' s' t' he' h' => exact absurd ⟨s', hs.symm⟩ (hc e' he')
    | char _ h' =>
      cases hs
      rw [ih h']

/-- Text in which no word begins stays. -/
theorem Substituted.append_left (h : Substituted table s t)
    (hx : ∀ e ∈ table, occurrences e.1 (x ++ s) = occurrences e.1 s) :
    Substituted table (x ++ s) (x ++ t) := by
  induction x with
  | nil => exact h
  | cons c x ih =>
    have hle (e : List Char × List Char) := le_occurrences_append e.1 x s
    have hnone : ∀ e ∈ table, ¬ e.1 <+: c :: (x ++ s) ∧
        occurrences e.1 (x ++ s) = occurrences e.1 s := by
      intro e he
      have hall := hx e he
      rw [List.cons_append, occurrences_cons] at hall
      have := hle e
      split at hall
      · omega
      · exact ⟨‹_›, by omega⟩
    exact .char (fun e he => (hnone e he).1) (ih fun e he => (hnone e he).2)

/-! ### One word first -/

section First

variable {rest : List (List Char × List Char)} (ht : IsTable (e :: rest))
include ht

/-- The other words that stand in a text are not lost. -/
theorem occurrences_le_replaceAll (he : IsMark e.1) {e' : List Char × List Char} (he' : e' ∈ rest)
    (s : List Char) : occurrences e'.1 s ≤ occurrences e'.1 (replaceAll e.1 e.2 s) := by
  have hmark := ht.tail.marks e' he'
  obtain ⟨t, h⟩ := Substituted.exists_of_isTable ht s
  induction h with
  | nil => exact le_rfl
  | @word e'' s t he'' h ih =>
    rcases List.mem_cons.1 he'' with rfl | hrest
    · rw [replaceAll_word he.ne_nil, occurrences_mark_append hmark he,
        if_neg (ht.ne_of_mem he').symm]
      exact ih.trans (le_occurrences_append ..)
    · have hmark' := ht.tail.marks e'' hrest
      rw [replaceAll_mark he hmark' (ht.ne_of_mem hrest), occurrences_mark_append hmark hmark',
        occurrences_mark_append hmark hmark']
      omega
  | char hc h ih =>
    rw [replaceAll_cons_of_not (hc e List.mem_cons_self),
      occurrences_cons_of_not (hc e' (List.mem_cons_of_mem e he'))]
    exact ih.trans (le_occurrences_append _ [_] _)

/-- When the first word is replaced and no other comes up by that, the others may be substituted
afterwards. -/
theorem Substituted.replaceAll_first (h : Substituted (e :: rest) s t)
    (heq : ∀ e' ∈ rest, occurrences e'.1 (replaceAll e.1 e.2 s) = occurrences e'.1 s) :
    Substituted rest (replaceAll e.1 e.2 s) t := by
  have he : IsMark e.1 := ht.marks e List.mem_cons_self
  induction h with
  | nil => exact .nil
  | @word e'' s t he'' h ih =>
    rcases List.mem_cons.1 he'' with rfl | hrest
    · rw [replaceAll_word he.ne_nil] at heq ⊢
      have hsame : ∀ e' ∈ rest, occurrences e'.1 (replaceAll e''.1 e''.2 s) = occurrences e'.1 s ∧
          occurrences e'.1 (e''.2 ++ replaceAll e''.1 e''.2 s) =
            occurrences e'.1 (replaceAll e''.1 e''.2 s) := by
        intro e' he'
        have hall := heq e' he'
        rw [occurrences_mark_append (ht.tail.marks e' he') he, if_neg (ht.ne_of_mem he').symm]
          at hall
        have := occurrences_le_replaceAll ht he he' s
        have := le_occurrences_append e'.1 e''.2 (replaceAll e''.1 e''.2 s)
        omega
      exact (ih fun e' he' => (hsame e' he').1).append_left fun e' he' => (hsame e' he').2
    · have hmark' := ht.tail.marks e'' hrest
      rw [replaceAll_mark he hmark' (ht.ne_of_mem hrest)] at heq ⊢
      refine .word hrest (ih fun e' he' => ?_)
      have := heq e' he'
      rw [occurrences_mark_append (ht.tail.marks e' he') hmark',
        occurrences_mark_append (ht.tail.marks e' he') hmark'] at this
      omega
  | @char c s t hc h ih =>
    rw [replaceAll_cons_of_not (hc e List.mem_cons_self)] at heq ⊢
    have hsame : ∀ e' ∈ rest, ¬ e'.1 <+: c :: replaceAll e.1 e.2 s ∧
        occurrences e'.1 (replaceAll e.1 e.2 s) = occurrences e'.1 s := by
      intro e' he'
      have hall := heq e' he'
      rw [occurrences_cons_of_not (hc e' (List.mem_cons_of_mem e he')), occurrences_cons] at hall
      have := occurrences_le_replaceAll ht he he' s
      split at hall
      · omega
      · exact ⟨‹_›, by omega⟩
    exact .char (fun e' he' => (hsame e' he').1) (ih fun e' he' => (hsame e' he').2)

end First

/-! ### One after the other -/

/-- What stands as often in the end as at the start did so in between. -/
theorem Undisturbed.occurrences_eq (ht : IsTable table) {start now : List Char}
    (hle : ∀ e ∈ table, occurrences e.1 start ≤ occurrences e.1 now)
    (h : Undisturbed table start now) :
    ∀ e ∈ table, occurrences e.1 now = occurrences e.1 start := by
  induction table generalizing now with
  | nil => simp
  | cons e rest ih =>
    obtain ⟨hfirst, hrest⟩ := h
    have hgrows (e' : List Char × List Char) (he' : e' ∈ rest) :=
      occurrences_le_replaceAll ht (ht.marks e List.mem_cons_self) he' now
    have hbefore (e' : List Char × List Char) (he' : e' ∈ rest) :=
      hle e' (List.mem_cons_of_mem e he')
    have hafter := ih ht.tail (fun e' he' => (hbefore e' he').trans (hgrows e' he')) hrest
    intro e' he'
    rcases List.mem_cons.1 he' with rfl | he'
    · exact hfirst
    · exact le_antisymm ((hgrows e' he').trans_eq (hafter e' he')) (hbefore e' he')

theorem Undisturbed.congr {start start' now : List Char} (h : Undisturbed table start now)
    (heq : ∀ e ∈ table, occurrences e.1 start = occurrences e.1 start') :
    Undisturbed table start' now := by
  induction table generalizing now with
  | nil => trivial
  | cons e rest ih =>
    exact ⟨h.1.trans (heq e List.mem_cons_self),
      ih h.2 fun e' he' => heq e' (List.mem_cons_of_mem e he')⟩

/-- Where no word comes up in between, replacing one word after the other comes to the same as
replacing all of them at once. -/
theorem substituted_replaceEach (ht : IsTable table) (h : Undisturbed table s s) :
    Substituted table s (replaceEach table s) := by
  induction table generalizing s with
  | nil => simpa [replaceEach] using Substituted.append_left .nil (x := s) (by simp)
  | cons e rest ih =>
    have hle : ∀ e' ∈ rest, occurrences e'.1 s ≤ occurrences e'.1 (replaceAll e.1 e.2 s) :=
      fun e' he' => occurrences_le_replaceAll ht (ht.marks e List.mem_cons_self) he' s
    have heq := h.2.occurrences_eq ht.tail hle
    have hrest := ih ht.tail (h.2.congr fun e' he' => (heq e' he').symm)
    obtain ⟨t, hall⟩ := Substituted.exists_of_isTable ht s
    rw [(hall.replaceAll_first ht heq).unique ht.tail hrest] at hall
    exact hall

/-! ### Weights -/

/-- What is put in for a word weighs more than the word, whose own weight is less than nothing. -/
def weight (k : Nat) (s : List Char) : Int := k * s.count '/' - s.count '\x7b'

theorem weight_append (k : Nat) (s t : List Char) : weight k (s ++ t) = weight k s + weight k t := by
  simp only [weight, List.count_append]
  push_cast
  ring

theorem weight_mark (k : Nat) (hw : IsMark w) : weight k w = -1 := by
  obtain ⟨name, rfl, hname⟩ := hw
  have hcount (c : Char) (hc : c.isAlpha = false) : name.count c = 0 :=
    List.count_eq_zero.2 fun hmem => by simp [hname c hmem] at hc
  simp [weight, hcount '/' rfl, hcount '\x7b' rfl]

/-- By how much a text gets heavier when all words that stand in it are replaced. -/
def gain (k : Nat) (table : List (List Char × List Char)) (s : List Char) : Int :=
  (table.map fun e => occurrences e.1 s * (weight k e.2 + 1)).sum

theorem gain_congr (k : Nat) {s' : List Char}
    (h : ∀ e ∈ table, occurrences e.1 s = occurrences e.1 s') : gain k table s = gain k table s' := by
  rw [gain, gain, List.map_congr_left fun e he => by rw [h e he]]

theorem gain_cons (k : Nat) (e : List Char × List Char) (rest : List (List Char × List Char))
    (s : List Char) :
    gain k (e :: rest) s = occurrences e.1 s * (weight k e.2 + 1) + gain k rest s := by
  simp [gain]

theorem gain_mark (k : Nat) (ht : IsTable table) (he : e ∈ table) (s : List Char) :
    gain k table (e.1 ++ s) = gain k table s + (weight k e.2 + 1) := by
  induction table with
  | nil => cases he
  | cons e' rest ih =>
    have he' : IsMark e'.1 := ht.marks e' List.mem_cons_self
    rw [gain_cons, gain_cons, occurrences_mark_append he' (ht.marks e he)]
    rcases List.mem_cons.1 he with rfl | hrest
    · have hsame : gain k rest (e.1 ++ s) = gain k rest s := gain_congr k fun e' hmem => by
        rw [occurrences_mark_append (ht.tail.marks e' hmem) he', if_neg (ht.ne_of_mem hmem).symm,
          Nat.add_zero]
      rw [hsame, if_pos rfl]
      push_cast
      ring
    · rw [ih ht.tail hrest, if_neg (ht.ne_of_mem hrest)]
      push_cast
      ring

theorem Substituted.weight_eq (k : Nat) (ht : IsTable table) (h : Substituted table s t) :
    weight k t = weight k s + gain k table s := by
  induction h with
  | nil =>
    have hgain : gain k table [] = 0 := List.sum_eq_zero fun x hx => by
      obtain ⟨e, he, rfl⟩ := List.mem_map.1 hx
      simp [occurrences_nil (ht.marks e he).ne_nil]
    rw [hgain, add_zero]
  | @word e s t he h ih =>
    rw [weight_append, weight_append, ih, weight_mark k (ht.marks e he), gain_mark k ht he]
    ring
  | @char c s t hc h ih =>
    have hgain : gain k table (c :: s) = gain k table s :=
      gain_congr k fun e he => occurrences_cons_of_not (hc e he)
    rw [← List.singleton_append, weight_append, ih, ← List.singleton_append (l := s), weight_append,
      List.singleton_append, hgain]
    ring

theorem weight_replaceAll (k : Nat) (he : IsMark e.1) (s : List Char) :
    weight k (replaceAll e.1 e.2 s) = weight k s + occurrences e.1 s * (weight k e.2 + 1) := by
  have ht : IsTable [e] := ⟨by simpa using he, by simp⟩
  have h := (substituted_replaceEach ht ⟨rfl, trivial⟩ (s := s)).weight_eq k ht
  rwa [gain_cons, gain, List.map_nil, List.sum_nil, add_zero] at h

section Heavy

variable {k : Nat} (ht : IsTable table) (hk : ∀ e ∈ table, 0 < weight k e.2 + 1)
  {start now : List Char}
include ht hk

/-- Words that come up in between make the text heavier. -/
theorem weight_le_replaceEach
    (hle : ∀ e ∈ table, occurrences e.1 start ≤ occurrences e.1 now) :
    weight k now + gain k table start ≤ weight k (replaceEach table now) := by
  induction table generalizing now with
  | nil => simp [gain, replaceEach]
  | cons e rest ih =>
    have he : IsMark e.1 := ht.marks e List.mem_cons_self
    have hmore : ∀ e' ∈ rest, occurrences e'.1 start ≤ occurrences e'.1 (replaceAll e.1 e.2 now) :=
      fun e' he' => (hle e' (List.mem_cons_of_mem e he')).trans
        (occurrences_le_replaceAll ht he he' now)
    have hrest := ih ht.tail (fun e' he' => hk e' (List.mem_cons_of_mem e he')) hmore
    rw [weight_replaceAll k he] at hrest
    rw [gain_cons]
    have hfirst : (occurrences e.1 start : Int) * (weight k e.2 + 1) ≤
        occurrences e.1 now * (weight k e.2 + 1) :=
      mul_le_mul_of_nonneg_right (by exact_mod_cast hle e List.mem_cons_self)
        (hk e List.mem_cons_self).le
    exact le_trans (by linarith) hrest

/-- A text that is not heavier than it would be if all words were replaced at once was not
disturbed. -/
theorem undisturbed_of_weight_le
    (hle : ∀ e ∈ table, occurrences e.1 start ≤ occurrences e.1 now)
    (h : weight k (replaceEach table now) ≤ weight k now + gain k table start) :
    Undisturbed table start now := by
  induction table generalizing now with
  | nil => trivial
  | cons e rest ih =>
    have he : IsMark e.1 := ht.marks e List.mem_cons_self
    have hpos := hk e List.mem_cons_self
    have hk' := fun e' he' => hk e' (List.mem_cons_of_mem e he')
    have hle' : ∀ e' ∈ rest, occurrences e'.1 start ≤
        occurrences e'.1 (replaceAll e.1 e.2 now) := fun e' he' =>
      (hle e' (List.mem_cons_of_mem e he')).trans (occurrences_le_replaceAll ht he he' now)
    have hrest := weight_le_replaceEach ht.tail hk' hle'
    rw [weight_replaceAll k he] at hrest
    rw [gain_cons] at h
    change weight k (replaceEach rest (replaceAll e.1 e.2 now)) ≤ _ at h
    have hfirst : occurrences e.1 now = occurrences e.1 start := by
      refine le_antisymm ?_ (hle e List.mem_cons_self)
      have : (occurrences e.1 now : Int) * (weight k e.2 + 1) ≤
          occurrences e.1 start * (weight k e.2 + 1) := by linarith
      exact_mod_cast le_of_mul_le_mul_right this hpos
    refine ⟨hfirst, ih ht.tail hk' hle' ?_⟩
    rw [weight_replaceAll k he, hfirst]
    linarith

end Heavy

/-- Where each replacement holds a separator or opens no brace, replacing one word after the other
comes to the same as replacing all at once only where no word comes up in between. -/
theorem undisturbed_of_substituted (ht : IsTable table)
    (hv : ∀ e ∈ table, '/' ∈ e.2 ∨ '\x7b' ∉ e.2) (h : Substituted table s (replaceEach table s)) :
    Undisturbed table s s := by
  let k := (table.map fun e => e.2.count '\x7b').sum
  have hk : ∀ e ∈ table, 0 < weight k e.2 + 1 := by
    intro e he
    have hle : e.2.count '\x7b' ≤ k := List.le_sum_of_mem (List.mem_map_of_mem he)
    have hbraces : (e.2.count '\x7b' : Int) ≤ k * e.2.count '/' := by
      rcases hv e he with hslash | hnone
      · have hpos : 1 ≤ e.2.count '/' := List.count_pos_iff.2 hslash
        exact_mod_cast hle.trans (Nat.le_mul_of_pos_right k hpos)
      · rw [List.count_eq_zero.2 hnone]
        positivity
    rw [weight]
    linarith
  exact undisturbed_of_weight_le ht hk (fun e _ => le_rfl) (h.weight_eq k ht).le

/-! ### Lists -/

/-- Each part of a list stands for some things; here all of them are, in their order. -/
def Spliced {α β : Type} (r : α → List β → Prop) (xs : List α) (ys : List β) : Prop :=
  ∃ parts, List.Forall₂ r xs parts ∧ ys = parts.flatten

theorem spliced_flatMap_iff {α β : Type} {r : α → List β → Prop} {f : α → List β} {xs : List α}
    (hlen : ∀ x ∈ xs, ∀ part, r x part → part.length = (f x).length) :
    Spliced r xs (xs.flatMap f) ↔ ∀ x ∈ xs, r x (f x) := by
  constructor
  · rintro ⟨parts, hparts, heq⟩
    induction hparts with
    | nil => simp
    | @cons x part xs parts hr hparts ih =>
      rw [List.flatMap_cons, List.flatten_cons] at heq
      obtain ⟨hfirst, hrest⟩ := List.append_inj heq (hlen x List.mem_cons_self part hr).symm
      refine List.forall_mem_cons.2 ⟨hfirst ▸ hr, ?_⟩
      exact ih (fun y hy => hlen y (List.mem_cons_of_mem x hy)) hrest
  · intro h
    refine ⟨xs.map f, ?_, List.flatMap_def⟩
    exact List.forall₂_map_right_iff.2 (List.forall₂_same.2 h)

end Testbed.Text
