import Mathlib.Algebra.Group.Nat.Defs
import Mathlib.Data.List.TakeWhile
import Testbed.Proofs.Json.RoundTrip
import Testbed.Proofs.Text.Blank
import Testbed.Timestamp

/-! A moment on the calendar is read back from the text it is written as, whether its year has four
digits or carries a sign. -/
namespace Testbed.Timestamp

/-! ### Digits -/

theorem valueOf_append (a b : List Char) :
    valueOf (a ++ b) = b.foldl (fun n c => n * 10 + (c.toNat - 48)) (valueOf a) :=
  List.foldl_append

theorem length_digits (width n : Nat) : (digits width n).length = width := by
  induction width generalizing n with
  | zero => rfl
  | succ width ih => rw [digits, List.length_append, ih, List.length_singleton]

theorem digit_toNat {n : Nat} (h : n < 10) : (Char.ofNat (48 + n)).toNat = 48 + n := by
  have hall : ∀ n < 10, (Char.ofNat (48 + n)).toNat = 48 + n := by decide
  exact hall n h

theorem isDigit_digit {n : Nat} (h : n < 10) : isDigit (Char.ofNat (48 + n)) = true := by
  have hall : ∀ n < 10, isDigit (Char.ofNat (48 + n)) = true := by decide
  exact hall n h

theorem isDigit_digits (width n : Nat) : ∀ c ∈ digits width n, isDigit c = true := by
  induction width generalizing n with
  | zero => simp [digits]
  | succ width ih =>
    intro c hc
    rw [digits, List.mem_append, List.mem_singleton] at hc
    rcases hc with hc | rfl
    · exact ih (n / 10) c hc
    · exact isDigit_digit (Nat.mod_lt n (by decide))

/-- Digits write the number they were taken from, as far as they reach. -/
theorem valueOf_digits (width n : Nat) : valueOf (digits width n) = n % 10 ^ width := by
  induction width generalizing n with
  | zero => rw [Nat.pow_zero, Nat.mod_one]; rfl
  | succ width ih =>
    have hlast := digit_toNat (Nat.mod_lt n (by decide : 0 < 10))
    have hstep : n / 10 % 10 ^ width * 10 + n % 10 = n % 10 ^ (width + 1) := by
      rw [Nat.pow_succ', Nat.mod_mul]
      omega
    rw [digits, valueOf_append, List.foldl_cons, List.foldl_nil, ih, hlast, Nat.add_sub_cancel_left,
      hstep]

theorem valueOf_zeros (ds : List Char) (k : Nat) :
    valueOf (ds ++ List.replicate k '0') = valueOf ds * 10 ^ k := by
  induction k with
  | zero => simp
  | succ k ih =>
    rw [List.replicate_succ', ← List.append_assoc, valueOf_append, ih, Nat.pow_succ, ← Nat.mul_assoc]
    rfl

theorem isBlank_of_isDigit {c : Char} (h : isDigit c = true) : Text.isBlank c = false := by
  simp only [isDigit, Bool.and_eq_true, decide_eq_true_eq, Char.le_def, UInt32.le_iff_toNat_le] at h
  have hlow : 48 ≤ c.toNat := h.1
  have hhigh : c.toNat ≤ 57 := h.2
  simp [Text.isBlank]
  omega

theorem trimStart_of_head {c : Char} (h : Text.isBlank c = false) (r : List Char) :
    Text.trimStart (c :: r) = c :: r :=
  List.dropWhile_cons_of_neg (by simp [h])

theorem digits_cons {width : Nat} (hwidth : 0 < width) (n : Nat) (r : List Char) :
    ∃ c t, digits width n ++ r = c :: t ∧ isDigit c = true := by
  cases hds : digits width n with
  | nil =>
    have hlength := length_digits width n
    rw [hds, List.length_nil] at hlength
    omega
  | cons c t => exact ⟨c, t ++ r, rfl, isDigit_digits width n c (by simp [hds])⟩

theorem trimStart_digits {width : Nat} (hwidth : 0 < width) (n : Nat) (r : List Char) :
    Text.trimStart (digits width n ++ r) = digits width n ++ r := by
  obtain ⟨c, t, hc, hdigit⟩ := digits_cons hwidth n r
  rw [hc, trimStart_of_head (isBlank_of_isDigit hdigit)]

/-! ### Fields -/

/-- A number is read when it fills its field. -/
theorem number?_digits {width n : Nat} (hwidth : 0 < width) (hn : n < 10 ^ width) (r : List Char) :
    number? width (digits width n ++ r) = some (n, r) := by
  have hlength := length_digits width n
  have htake : (digits width n ++ r).take width = digits width n := List.take_left' hlength
  have hall : (digits width n).takeWhile isDigit = digits width n :=
    List.takeWhile_eq_self_iff.2 (isDigit_digits width n)
  have hne : (digits width n).isEmpty = false := by
    rw [List.isEmpty_eq_false_iff, ne_eq, ← List.length_eq_zero_iff]
    omega
  rw [number?, htake, hall]
  simp only [hne, Bool.false_eq_true, if_false, valueOf_digits, Nat.mod_eq_of_lt hn]
  rw [List.drop_left]

theorem field?_digits {low high n : Nat} (hlow : low ≤ n) (hhigh : n ≤ high) (hn : n < 100)
    (r : List Char) : field? low high (digits 2 n ++ r) = some (n, r) := by
  rw [field?, trimStart_digits (by decide), number?_digits (by decide) hn]
  exact if_pos ⟨hlow, hhigh⟩

/-- A number that is read as far as its digits go. -/
theorem number?_run {ds r : List Char} (hds : ∀ c ∈ ds, isDigit c = true) (hne : ds ≠ [])
    (hr : ∀ c ∈ r.head?, isDigit c = false) :
    number? (ds ++ r).length (ds ++ r) = some (valueOf ds, r) := by
  have hall : (ds ++ r).takeWhile isDigit = ds := Text.takeWhile_run hds hr
  rw [number?, List.take_length, hall]
  simp only [List.isEmpty_iff, hne, if_false, List.drop_left]

/-- The digits of a year that carries a sign: four of them, or as many as it takes. -/
def yearDigits (n : Nat) : List Char := if n < 10000 then digits 4 n else (toString n).toList

theorem isDigit_yearDigits (n : Nat) : ∀ c ∈ yearDigits n, isDigit c = true := by
  unfold yearDigits
  split
  · exact isDigit_digits 4 n
  · rw [Nat.toString_eq_repr, Nat.toList_repr]
    exact Json.all_isDigit_toDigits n

theorem valueOf_yearDigits (n : Nat) : valueOf (yearDigits n) = n := by
  unfold yearDigits
  split
  next h =>
    rw [valueOf_digits]
    exact Nat.mod_eq_of_lt h
  next =>
    rw [Nat.toString_eq_repr, Nat.toList_repr]
    exact Json.digitsValue_toDigits n

theorem yearDigits_ne_nil (n : Nat) : yearDigits n ≠ [] := by
  unfold yearDigits
  split
  · rw [ne_eq, ← List.length_eq_zero_iff, length_digits]
    decide
  · rw [Nat.toString_eq_repr, Nat.toList_repr]
    exact Nat.toDigits_ne_nil

/-- Any year is read back, with its sign if it has one, when what comes after it is no digit. -/
theorem year?_render (y : Int) {r : List Char} (hr : ∀ c ∈ r.head?, isDigit c = false) :
    year? (renderYear y ++ r) = some (y, r) := by
  unfold renderYear
  split
  next h =>
    have hvalue : ((y.toNat : Nat) : Int) = y := by omega
    have hnumber := number?_digits (by decide : 0 < 4) (by omega : y.toNat < 10 ^ 4) r
    obtain ⟨c, t, hc, hdigit⟩ := digits_cons (by decide : 0 < 4) y.toNat r
    have hminus : c ≠ '-' := by
      rintro rfl
      exact absurd hdigit (by decide)
    have hplus : c ≠ '+' := by
      rintro rfl
      exact absurd hdigit (by decide)
    rw [year?, trimStart_digits (by decide)]
    rw [hc] at hnumber ⊢
    simp [hminus, hplus, hnumber, hvalue]
  next h =>
    have hnumber := number?_run (isDigit_yearDigits y.natAbs) (yearDigits_ne_nil y.natAbs) hr
    rw [valueOf_yearDigits] at hnumber
    dsimp only
    rw [← yearDigits, List.cons_append]
    split
    next hneg =>
      have hvalue : -(y.natAbs : Int) = y := by omega
      rw [year?, trimStart_of_head (by decide)]
      simp only [hnumber, Option.map_some, hvalue]
    next hpos =>
      have hvalue : (y.natAbs : Int) = y := by omega
      rw [year?, trimStart_of_head (by decide)]
      simp only [hnumber, Option.map_some, hvalue]

theorem mark?_cons {c : Char} (hc : Text.isBlank c = false) (r : List Char) :
    mark? c (c :: r) = some r := by
  rw [mark?, trimStart_of_head hc]
  exact if_pos rfl

theorem fraction?_digits {width m : Nat} (hpos : 0 < width) (hwidth : width ≤ 9)
    (hm : m < 10 ^ width) :
    fraction? ('.' :: digits width m ++ ['Z']) = some (m * 10 ^ (9 - width), ['Z']) := by
  have hlength := length_digits width m
  have hds : (digits width m ++ ['Z']).takeWhile isDigit = digits width m := by
    apply Text.takeWhile_run (isDigit_digits width m)
    rintro c ⟨⟩
    decide
  have hpadded : (digits width m ++ List.replicate 9 '0').take 9 =
      digits width m ++ List.replicate (9 - width) '0' := by
    rw [List.take_append, List.take_of_length_le (by omega), hlength, List.take_replicate,
      Nat.min_eq_left (Nat.sub_le 9 width)]
  have hne : (digits width m).isEmpty = false := by
    rw [List.isEmpty_eq_false_iff, ne_eq, ← List.length_eq_zero_iff]
    omega
  rw [List.cons_append, fraction?]
  simp only [hds, hne, Bool.false_eq_true, if_false, hpadded, valueOf_zeros, valueOf_digits,
    Nat.mod_eq_of_lt hm]
  rw [List.drop_left]

/-- The digits that were left out of a fraction are zeros. -/
theorem fraction?_render {nano : Nat} (h : nano < 1000000000) :
    fraction? (renderFraction nano ++ ['Z']) = some (nano, ['Z']) := by
  unfold renderFraction
  split
  next hzero =>
    rw [hzero]
    rfl
  next =>
  split
  next hmillis =>
    have hnano : nano / 1000000 * 10 ^ (9 - 3) = nano := by omega
    rw [fraction?_digits (by decide) (by decide) (by omega), hnano]
  next =>
  split
  next hmicros =>
    have hnano : nano / 1000 * 10 ^ (9 - 6) = nano := by omega
    rw [fraction?_digits (by decide) (by decide) (by omega), hnano]
  next =>
    have hnano : nano * 10 ^ (9 - 9) = nano := by omega
    rw [fraction?_digits (by decide) (by decide) h, hnano]

/-! ### Moments -/

/-- A moment of a day that there is. -/
structure OnCalendar (t : Timestamp) : Prop where
  year : yearInRange t.year = true
  month : 1 ≤ t.month ∧ t.month ≤ 12
  day : 1 ≤ t.day ∧ t.day ≤ daysIn t.year t.month
  hour : t.hour < 24
  minute : t.minute < 60
  /-- Sixty in a leap second. -/
  second : t.second ≤ 60
  nano : t.nano < 1000000000

/-- A moment on the calendar in a year of four digits. -/
structure Dated (t : Timestamp) : Prop where
  year : 0 ≤ t.year ∧ t.year ≤ 9999
  month : 1 ≤ t.month ∧ t.month ≤ 12
  day : 1 ≤ t.day ∧ t.day ≤ daysIn t.year t.month
  hour : t.hour < 24
  minute : t.minute < 60
  /-- Sixty in a leap second. -/
  second : t.second ≤ 60
  nano : t.nano < 1000000000

theorem Dated.onCalendar {t : Timestamp} (h : t.Dated) : t.OnCalendar where
  year := by
    have hlow := h.year.1
    have hhigh := h.year.2
    simp [yearInRange]
    omega
  month := h.month
  day := h.day
  hour := h.hour
  minute := h.minute
  second := h.second
  nano := h.nano

theorem daysIn_le (y : Int) (month : Nat) : daysIn y month ≤ 31 := by
  unfold daysIn
  split
  · split <;> omega
  · split <;> omega

/-- No offset moves nothing. -/
theorem minus_zero {t : Timestamp} (hhour : t.hour < 24) (hminute : t.minute < 60) :
    t.minus 0 = t := by
  have hlow : ¬ (t.hour * 60 + t.minute - 0 : Int) < 0 := by omega
  have hhigh : ¬ (1440 : Int) ≤ t.hour * 60 + t.minute - 0 := by omega
  have hm : ((t.hour * 60 + t.minute - 0 : Int) % 1440).toNat = t.hour * 60 + t.minute := by omega
  have hquot : (t.hour * 60 + t.minute) / 60 = t.hour := by omega
  have hrem : (t.hour * 60 + t.minute) % 60 = t.minute := by omega
  simp only [minus, if_neg hlow, if_neg hhigh, hm, hquot, hrem]

/-- Reading goes on from what was read. -/
theorem bind_of_eq_some {α β : Type} {x : Option α} {a : α} {f : α → Option β} {b : β}
    (hx : x = some a) (hf : f a = some b) : x >>= f = some b :=
  Option.bind_eq_some_iff.2 ⟨a, hx, hf⟩

/-- A moment is read back from its text. -/
theorem parse?_render {t : Timestamp} (h : t.OnCalendar) : parse? t.render = some t := by
  have hdays : t.day ≤ 31 := Nat.le_trans h.day.2 (daysIn_le t.year t.month)
  have hmonths : t.month < 100 := Nat.lt_of_le_of_lt h.month.2 (by decide)
  have hhours : t.hour < 100 := Nat.lt_trans h.hour (by decide)
  have hminutes : t.minute < 100 := Nat.lt_trans h.minute (by decide)
  have hseconds : t.second < 100 := Nat.lt_of_le_of_lt h.second (by decide)
  rw [parse?, render, String.toList_ofList]
  simp only [List.append_assoc, List.cons_append]
  refine bind_of_eq_some (year?_render t.year (by simpa using by decide)) ?_
  refine bind_of_eq_some (mark?_cons rfl _) ?_
  refine bind_of_eq_some (field?_digits h.month.1 h.month.2 hmonths _) ?_
  refine bind_of_eq_some (mark?_cons rfl _) ?_
  refine bind_of_eq_some (field?_digits h.day.1 hdays (by omega) _) ?_
  refine bind_of_eq_some rfl ?_
  refine bind_of_eq_some (field?_digits (Nat.zero_le _) (Nat.le_of_lt_succ h.hour) hhours _) ?_
  refine bind_of_eq_some (mark?_cons rfl _) ?_
  refine bind_of_eq_some (field?_digits (Nat.zero_le _) (Nat.le_of_lt_succ h.minute) hminutes _) ?_
  refine bind_of_eq_some (mark?_cons rfl _) ?_
  refine bind_of_eq_some (field?_digits (Nat.zero_le _) h.second hseconds _) ?_
  refine bind_of_eq_some (fraction?_render h.nano) ?_
  refine bind_of_eq_some (by decide : offset? ['Z'] = some (0, [])) ?_
  rw [if_pos (by simp [Text.trimStart, h.year, h.day.2])]
  show (if yearInRange (t.minus 0).year then some (t.minus 0) else none) = some t
  rw [minus_zero h.hour h.minute]
  exact if_pos h.year

end Testbed.Timestamp
