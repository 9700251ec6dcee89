import Mathlib.Data.List.DropRight
import Mathlib.Data.List.TakeDrop
import Testbed.Json.Reader
import Testbed.Json.Writer
import Testbed.Proofs.Text.Runs

/-! What is written as JSON is read back as it was. -/
namespace Testbed

theorem Text.digitValue?_digit {n : Nat} (h : n < 16) : digitValue? (digit n) = some n := by
  have hall : ∀ n < 16, digitValue? (digit n) = some n := by decide
  exact hall n h

namespace Json

/-! ### Strings -/

theorem hex4?_digits {n : Nat} (h : n < 256) :
    hex4? '0' '0' (Text.digit (n / 16)) (Text.digit (n % 16)) = some n := by
  have hzero : Text.digitValue? '0' = some 0 := by decide
  have hhigh : Text.digitValue? (Text.digit (n / 16)) = some (n / 16) :=
    Text.digitValue?_digit (by omega)
  have hlow : Text.digitValue? (Text.digit (n % 16)) = some (n % 16) :=
    Text.digitValue?_digit (by omega)
  have hn : ((0 * 16 + 0) * 16 + n / 16) * 16 + n % 16 = n := by omega
  simp only [hex4?, hzero, hhigh, hlow, Option.bind_eq_bind, Option.bind_some, hn]

theorem stringRest_simple (seen : List Char) {e c : Char} (he : e ≠ 'u')
    (h : simpleEscape? e = some c) (r : List Char) :
    stringRest seen ('\\' :: e :: r) = stringRest (c :: seen) r := by
  rw [stringRest.eq_def]
  split
  next heq => cases heq
  next heq =>
    cases heq
    exact absurd rfl he
  next heq =>
    cases heq
    rw [h]
  next hother heq =>
    cases heq
    exact (hother _ _ rfl rfl).elim
  next heq => cases heq

theorem stringRest_plain (seen : List Char) {c : Char} (hq : c ≠ '"') (hb : c ≠ '\\')
    (hc : ¬ c.toNat < 32) (r : List Char) : stringRest seen (c :: r) = stringRest (c :: seen) r := by
  rw [stringRest.eq_def]
  split
  next heq =>
    cases heq
    exact absurd rfl hq
  next heq =>
    cases heq
    exact absurd rfl hb
  next heq =>
    cases heq
    exact absurd rfl hb
  next heq =>
    cases heq
    exact if_neg hc
  next heq => cases heq

/-- A character that is escaped is read as that character. -/
theorem stringRest_escapeChar (seen : List Char) (c : Char) (r : List Char) :
    stringRest seen (escapeChar c ++ r) = stringRest (c :: seen) r := by
  have hof {n : Nat} (hn : c.toNat = n) : c = Char.ofNat n := hn ▸ (Char.ofNat_toNat c).symm
  have hsimple {e : Char} (he : e ≠ 'u') (h : simpleEscape? e = some c) :
      stringRest seen (['\\', e] ++ r) = stringRest (c :: seen) r :=
    stringRest_simple seen he h r
  unfold escapeChar
  split
  next h => exact hsimple (by decide) (by rw [h]; rfl)
  next hquote =>
  split
  next h => exact hsimple (by decide) (by rw [h]; rfl)
  next hslash =>
  split
  next h => exact hsimple (by decide) (by rw [h]; rfl)
  next =>
  split
  next h => exact hsimple (by decide) (by rw [h]; rfl)
  next =>
  split
  next h => exact hsimple (by decide) (by rw [h]; rfl)
  next =>
  split
  next h => exact hsimple (by decide) (by rw [hof h]; rfl)
  next =>
  split
  next h => exact hsimple (by decide) (by rw [hof h]; rfl)
  next =>
  split
  next h =>
    have hlow : isLowHalf c.toNat = false := by simp [isLowHalf]; omega
    have hhigh : isHighHalf c.toNat = false := by simp [isHighHalf]; omega
    have hhex := hex4?_digits (by omega : c.toNat < 256)
    simp only [List.cons_append, List.nil_append, stringRest, hhex, hlow, hhigh, Char.ofNat_toNat,
      Bool.false_eq_true, if_false]
  next h => exact stringRest_plain seen hquote hslash h r

theorem stringRest_escaped (seen s r : List Char) :
    stringRest seen (s.flatMap escapeChar ++ '"' :: r) =
      some (String.ofList (seen.reverse ++ s), r) := by
  induction s generalizing seen with
  | nil => simp [stringRest]
  | cons c s ih =>
    rw [List.flatMap_cons, List.append_assoc, stringRest_escapeChar, ih]
    simp

theorem stringRest_quoted (s : String) (r : List Char) :
    ∃ t, quoted s ++ r = '"' :: t ∧ stringRest [] t = some (s, r) := by
  refine ⟨s.toList.flatMap escapeChar ++ '"' :: r, by simp [quoted], ?_⟩
  rw [stringRest_escaped]
  simp

/-! ### Numbers -/

/-- What comes after a number does not go on with it. -/
def Ends (r : List Char) : Prop :=
  ∀ c ∈ r.head?, isDigit c = false ∧ c ≠ '.' ∧ c ≠ 'e' ∧ c ≠ 'E'

theorem isDigit_eq (c : Char) : isDigit c = c.isDigit := by
  simp [isDigit, Char.isDigit, Char.le_def]

theorem all_isDigit_toDigits (n : Nat) : ∀ c ∈ Nat.toDigits 10 n, isDigit c = true := fun c hc => by
  rw [isDigit_eq]
  exact Nat.isDigit_of_mem_toDigits (by decide) (by decide) hc

theorem digitsValue_toDigits (n : Nat) : digitsValue (Nat.toDigits 10 n) = n := by
  have hfold : digitsValue (Nat.toDigits 10 n) = Nat.ofDigitChars 10 (Nat.toDigits 10 n) 0 := by
    rw [Nat.ofDigitChars_eq_foldl, digitsValue]
    congr 1
    funext m c
    rw [Nat.mul_comm]
    rfl
  rw [hfold, Nat.ofDigitChars_ten_toDigits]

/-- Only zero is written with a zero at its front. -/
theorem head?_toDigits {n : Nat} (h : n ≠ 0) : (Nat.toDigits 10 n).head? ≠ some '0' := by
  induction n using Nat.strongRecOn with
  | ind n ih =>
    rw [Nat.toDigits_eq_if (by decide)]
    split
    next hlt => simpa using h
    next hge =>
      have hpos : n / 10 ≠ 0 := by omega
      have hdigits : Nat.toDigits 10 (n / 10) ≠ [] := Nat.toDigits_ne_nil
      rw [List.head?_append, List.head?_eq_some_head hdigits, Option.some_or,
        ← List.head?_eq_some_head hdigits]
      exact ih (n / 10) (by omega) hpos

theorem span_digits {ds r : List Char} (hd : ∀ c ∈ ds, isDigit c = true) (hr : Ends r) :
    (ds ++ r).span isDigit = (ds, r) := by
  have hend : ∀ c, r.head? = some c → isDigit c = false := fun c hc => (hr c hc).1
  rw [List.span_eq_takeWhile_dropWhile, Text.takeWhile_run hd hend, Text.dropWhile_run hd hend]

theorem wholePart?_toDigits (n : Nat) {r : List Char} (hr : Ends r) :
    wholePart? (Nat.toDigits 10 n ++ r) = some (Nat.toDigits 10 n, r) := by
  have hspan := span_digits (all_isDigit_toDigits n) hr
  have hne : Nat.toDigits 10 n ≠ [] := Nat.toDigits_ne_nil
  by_cases hzero : n = 0
  · subst hzero
    rw [Nat.toDigits_zero] at hspan ⊢
    rw [wholePart?, hspan]
    rfl
  · have hhead := head?_toDigits hzero
    unfold wholePart?
    rw [hspan]
    generalize Nat.toDigits 10 n = ds at hne hhead
    split
    next heq =>
      cases heq
      exact absurd rfl hne
    next heq =>
      cases heq
      exact absurd rfl hhead
    next heq =>
      cases heq
      exact absurd rfl hhead
    next heq =>
      cases heq
      rfl

theorem fraction?_of_ends {r : List Char} (hr : Ends r) : fraction? r = some ([], r) := by
  unfold fraction?
  split
  next => exact absurd rfl (hr '.' rfl).2.1
  next => rfl

theorem exponent?_of_ends {r : List Char} (hr : Ends r) : exponent? r = some ([], r) := by
  unfold exponent?
  split
  next e r =>
    obtain ⟨-, -, he, hE⟩ := hr e rfl
    simp [he, hE]
  next => rfl

theorem toDigits_cons (n : Nat) : ∃ c t, Nat.toDigits 10 n = c :: t ∧ isDigit c = true := by
  obtain ⟨c, t, hc⟩ := List.exists_cons_of_ne_nil (Nat.toDigits_ne_nil : Nat.toDigits 10 n ≠ [])
  exact ⟨c, t, hc, all_isDigit_toDigits n c (by simp [hc])⟩

theorem toDigits_append_ne_minus (n : Nat) (r t : List Char) : Nat.toDigits 10 n ++ r ≠ '-' :: t := by
  intro heq
  obtain ⟨c, ds, hc, hdigit⟩ := toDigits_cons n
  rw [hc, List.cons_append] at heq
  cases heq
  exact absurd hdigit (by decide)

/-- An integer is read up to where it ends. -/
theorem number?_int (n : Int) {r : List Char} (hr : Ends r) :
    number? ((toString n).toList ++ r) = some (.int n, r) := by
  have hwhole := fun m : Nat => wholePart?_toDigits m hr
  rw [Int.toString_eq_repr, Int.repr_eq_if]
  split
  next hn =>
    have hvalue : max n 0 = n := by omega
    rw [Nat.toList_repr]
    simp [number?, toDigits_append_ne_minus, hwhole, fraction?_of_ends hr, exponent?_of_ends hr,
      digitsValue_toDigits, hvalue]
  next hn =>
    have hneg : n < 0 := by omega
    have hvalue : -max (-n) 0 = n := by omega
    rw [String.toList_append, Nat.toList_repr]
    simp [number?, hwhole, fraction?_of_ends hr, exponent?_of_ends hr, digitsValue_toDigits, hneg,
      hvalue]

/-! ### Layout -/

theorem skipSpace_skipSpace (s : List Char) : skipSpace (skipSpace s) = skipSpace s :=
  List.dropWhile_idempotent _ s

theorem skipSpace_cons {c : Char} (h : isSpace c = false) (r : List Char) :
    skipSpace (c :: r) = c :: r :=
  List.dropWhile_cons_of_neg (by simp [h])

/-- A line break and the margin of the next line. -/
theorem skipSpace_layout (depth : Nat) (s : List Char) :
    skipSpace ('\n' :: margin depth ++ s) = skipSpace s := by
  have hblank : ∀ c ∈ '\n' :: margin depth, isSpace c = true := by
    intro c hc
    rcases List.mem_cons.1 hc with rfl | hc
    · rfl
    · rw [List.eq_of_mem_replicate hc]
      rfl
  exact List.dropWhile_append_of_pos hblank

theorem value?_skipSpace (fuel : Nat) (s : List Char) : value? fuel (skipSpace s) = value? fuel s := by
  cases fuel with
  | zero => rw [value?, value?]
  | succ fuel => rw [value?, value?, skipSpace_skipSpace]

theorem value?_layout (fuel depth : Nat) (s : List Char) :
    value? fuel ('\n' :: margin depth ++ s) = value? fuel s := by
  rw [← value?_skipSpace, skipSpace_layout, value?_skipSpace]

theorem value?_blank (fuel : Nat) (s : List Char) : value? fuel (' ' :: s) = value? fuel s := by
  rw [← value?_skipSpace, ← value?_skipSpace fuel s]
  rfl

theorem members?_layout (fuel depth : Nat) (s : List Char) :
    members? fuel ('\n' :: margin depth ++ s) = members? fuel s := by
  cases fuel with
  | zero => rw [members?, members?]
  | succ fuel => rw [members?, members?, skipSpace_layout]

/-! ### Values -/

/-- Every number in it is an integer. -/
inductive Exact : Json → Prop
  | null : Exact .null
  | bool (b : Bool) : Exact (.bool b)
  | int (n : Int) : Exact (.int n)
  | string (s : String) : Exact (.string s)
  | array {items : List Json} (h : ∀ j ∈ items, Exact j) : Exact (.array items)
  | object {members : List (String × Json)} (h : ∀ m ∈ members, Exact m.2) : Exact (.object members)

theorem Exact.ofOption {α : Type} {f : α → Json} (h : ∀ x, Exact (f x)) (a : Option α) :
    Exact (.ofOption f a) := by
  cases a with
  | none => exact .null
  | some x => exact h x

theorem Exact.map {α : Type} {f : α → Json} (h : ∀ x, Exact (f x)) (xs : List α) :
    Exact (.array (xs.map f)) := by
  refine .array fun j hj => ?_
  obtain ⟨x, -, rfl⟩ := List.mem_map.1 hj
  exact h x

/-- Laid out at any depth, before anything that does not go on with a number, it is read as itself
and nothing after it is. -/
def Readable (j : Json) : Prop :=
  ∀ depth fuel r, (prettyChars depth j).length < fuel → Ends r →
    value? fuel (prettyChars depth j ++ r) = some (j, r)

/-- Without fuel there is nothing to read, so that one unit can go to the value itself. -/
theorem Readable.of_succ {j : Json}
    (h : ∀ depth fuel r, (prettyChars depth j).length ≤ fuel → Ends r →
      value? (fuel + 1) (prettyChars depth j ++ r) = some (j, r)) : Readable j := by
  intro depth fuel r hfuel hr
  cases fuel with
  | zero => omega
  | succ fuel => exact h depth fuel r (by omega) hr

theorem ends_comma (r : List Char) : Ends (',' :: r) := by simp [Ends, isDigit]

theorem ends_layout (depth : Nat) (r : List Char) : Ends ('\n' :: margin depth ++ r) := by
  simp [Ends, isDigit]

/-- A digit or the sign before one. -/
def startsNumber (c : Char) : Bool := isDigit c || c = '-'

theorem toString_int_cons (n : Int) : ∃ c t, (toString n).toList = c :: t ∧ startsNumber c = true := by
  rw [Int.toString_eq_repr, Int.repr_eq_if]
  split
  next =>
    obtain ⟨c, t, hc, hdigit⟩ := toDigits_cons n.toNat
    exact ⟨c, t, by rw [Nat.toList_repr, hc], by rw [startsNumber, hdigit, Bool.true_or]⟩
  next =>
    exact ⟨'-', Nat.toDigits 10 (-n).toNat, by rw [String.toList_append, Nat.toList_repr]; rfl, rfl⟩

theorem ne_of_startsNumber {c d : Char} (hc : startsNumber c = true) (hd : startsNumber d = false) :
    c ≠ d := by
  rintro rfl
  simp [hc] at hd

theorem isSpace_of_startsNumber {c : Char} (hc : startsNumber c = true) : isSpace c = false := by
  have hne (d : Char) (hd : startsNumber d = false) : c ≠ d := ne_of_startsNumber hc hd
  simp [isSpace, hne ' ' rfl, hne '\t' rfl, hne '\n' rfl, hne '\r' rfl]

theorem value?_number {c : Char} (hc : startsNumber c = true) (fuel : Nat) (s : List Char) :
    value? (fuel + 1) (c :: s) = number? (c :: s) := by
  have hne (d : Char) (hd : startsNumber d = false) : c ≠ d := ne_of_startsNumber hc hd
  rw [value?, skipSpace_cons (isSpace_of_startsNumber hc)]
  simp [hne 'n' rfl, hne 't' rfl, hne 'f' rfl, hne '"' rfl, hne '[' rfl, hne '\x7b' rfl]

theorem readable_int (n : Int) : Readable (.int n) := by
  refine .of_succ fun depth fuel r _ hr => ?_
  obtain ⟨c, t, hct, hc⟩ := toString_int_cons n
  have hnumber := number?_int n hr
  rw [hct] at hnumber
  rw [prettyChars, hct, List.cons_append, value?_number hc, ← List.cons_append, hnumber]

theorem readable_string (s : String) : Readable (.string s) := by
  refine .of_succ fun depth fuel r _ _ => ?_
  obtain ⟨t, ht, hrest⟩ := stringRest_quoted s r
  rw [prettyChars, ht, value?, skipSpace_cons rfl]
  simp only [hrest, Option.map_some]

/-- A value begins with a character that is neither blank nor closes a list. -/
theorem prettyChars_cons (depth : Nat) {j : Json} (h : Exact j) :
    ∃ c t, prettyChars depth j = c :: t ∧ isSpace c = false ∧ c ≠ ']' := by
  cases h with
  | null => exact ⟨'n', _, rfl, by decide⟩
  | bool b =>
    cases b with
    | false => exact ⟨'f', _, rfl, by decide⟩
    | true => exact ⟨'t', _, rfl, by decide⟩
  | int n =>
    obtain ⟨c, t, hct, hc⟩ := toString_int_cons n
    exact ⟨c, t, hct, isSpace_of_startsNumber hc, ne_of_startsNumber hc rfl⟩
  | string s => exact ⟨'"', _, by rw [prettyChars, quoted, List.cons_append], by decide⟩
  | @array items h =>
    cases items with
    | nil => exact ⟨'[', _, rfl, by decide⟩
    | cons j rest => exact ⟨'[', _, by rw [prettyChars]; rfl, by decide⟩
  | @object members h =>
    cases members with
    | nil => exact ⟨'\x7b', _, rfl, by decide⟩
    | cons m rest => exact ⟨'\x7b', _, by rw [prettyChars]; rfl, by decide⟩

theorem prettyItems_cons_cons (depth : Nat) (j k : Json) (rest : List Json) :
    prettyItems depth (j :: k :: rest) =
      '\n' :: margin depth ++ (prettyChars depth j ++ ',' :: prettyItems depth (k :: rest)) := by
  rw [prettyItems.eq_3 _ _ _ (List.cons_ne_nil k rest), List.append_assoc]

theorem prettyMembers_cons_cons (depth : Nat) (m k : String × Json) (rest : List (String × Json)) :
    prettyMembers depth (m :: k :: rest) =
      prettyMember depth m ++ ',' :: prettyMembers depth (k :: rest) :=
  prettyMembers.eq_3 _ _ _ (List.cons_ne_nil k rest)

/-- The items of a list up to its end. -/
theorem items?_pretty {items : List Json} (hne : items ≠ []) (h : ∀ j ∈ items, Readable j)
    (depth outer fuel : Nat) (r : List Char) (hfuel : (prettyItems depth items).length < fuel) :
    items? fuel (prettyItems depth items ++ ('\n' :: margin outer ++ ']' :: r)) = some (items, r) := by
  induction items generalizing fuel with
  | nil => exact absurd rfl hne
  | cons j rest ih =>
    have hj : Readable j := h j List.mem_cons_self
    cases fuel with
    | zero => omega
    | succ fuel =>
      cases rest with
      | nil =>
        rw [prettyItems, List.length_append, List.length_cons] at hfuel
        have hvalue := hj depth fuel ('\n' :: margin outer ++ ']' :: r) (by omega) (ends_layout _ _)
        rw [prettyItems, List.append_assoc, items?, value?_layout, hvalue]
        simp only [skipSpace_layout, skipSpace_cons (rfl : isSpace ']' = false)]
      | cons k rest =>
        rw [prettyItems_cons_cons, List.length_append, List.length_append, List.length_cons,
          List.length_cons] at hfuel
        have htail := ih (List.cons_ne_nil k rest) (fun i hi => h i (.tail _ hi)) fuel (by omega)
        rw [prettyItems_cons_cons, List.append_assoc, List.append_assoc, items?, value?_layout,
          List.cons_append, hj depth fuel _ (by omega) (ends_comma _)]
        simp only [skipSpace_cons (rfl : isSpace ',' = false), htail, Option.map_some]

theorem prettyMember_eq (depth : Nat) (m : String × Json) :
    prettyMember depth m =
      '\n' :: margin depth ++ quoted m.1 ++ ':' :: ' ' :: prettyChars depth m.2 := by
  obtain ⟨key, j⟩ := m
  rw [prettyMember]

theorem prettyMember_append (depth : Nat) (m : String × Json) (r : List Char) :
    ∃ t, prettyMember depth m ++ r = '\n' :: margin depth ++ '"' :: t ∧
      stringRest [] t = some (m.1, ':' :: ' ' :: (prettyChars depth m.2 ++ r)) := by
  obtain ⟨t, ht, hrest⟩ := stringRest_quoted m.1 (':' :: ' ' :: (prettyChars depth m.2 ++ r))
  refine ⟨t, ?_, hrest⟩
  rw [← ht]
  simp [prettyMember_eq]

theorem length_value_lt {depth fuel : Nat} {m : String × Json}
    (hfuel : (prettyMember depth m).length ≤ fuel) : (prettyChars depth m.2).length < fuel := by
  simp only [prettyMember_eq, List.length_append, List.length_cons] at hfuel
  omega

/-- The last member of an object. -/
theorem members?_last {m : String × Json} (hm : Readable m.2) {depth fuel : Nat} (outer : Nat)
    (r : List Char) (hfuel : (prettyMember depth m).length ≤ fuel) :
    members? (fuel + 1) (prettyMember depth m ++ ('\n' :: margin outer ++ '\x7d' :: r)) =
      some ([m], r) := by
  obtain ⟨t, htext, hrest⟩ := prettyMember_append depth m ('\n' :: margin outer ++ '\x7d' :: r)
  have hvalue := hm depth fuel _ (length_value_lt hfuel) (ends_layout outer ('\x7d' :: r))
  rw [htext, members?_layout, members?, skipSpace_cons rfl]
  simp only [hrest, skipSpace_cons (rfl : isSpace ':' = false), value?_blank, hvalue,
    skipSpace_layout, skipSpace_cons (rfl : isSpace '\x7d' = false)]

/-- A member before others. -/
theorem members?_more {m : String × Json} (hm : Readable m.2) {depth fuel : Nat} (r : List Char)
    (hfuel : (prettyMember depth m).length ≤ fuel) :
    members? (fuel + 1) (prettyMember depth m ++ ',' :: r) =
      (members? fuel r).map fun p => (m :: p.1, p.2) := by
  obtain ⟨t, htext, hrest⟩ := prettyMember_append depth m (',' :: r)
  have hvalue := hm depth fuel _ (length_value_lt hfuel) (ends_comma r)
  rw [htext, members?_layout, members?, skipSpace_cons rfl]
  simp only [hrest, skipSpace_cons (rfl : isSpace ':' = false), value?_blank, hvalue,
    skipSpace_cons (rfl : isSpace ',' = false)]

/-- The members of an object up to its end. -/
theorem members?_pretty {members : List (String × Json)} (hne : members ≠ [])
    (h : ∀ m ∈ members, Readable m.2) (depth outer fuel : Nat) (r : List Char)
    (hfuel : (prettyMembers depth members).length < fuel) :
    members? fuel (prettyMembers depth members ++ ('\n' :: margin outer ++ '\x7d' :: r)) =
      some (members, r) := by
  induction members generalizing fuel with
  | nil => exact absurd rfl hne
  | cons m rest ih =>
    have hm : Readable m.2 := h m List.mem_cons_self
    cases fuel with
    | zero => omega
    | succ fuel =>
      cases rest with
      | nil =>
        rw [prettyMembers] at hfuel ⊢
        exact members?_last hm outer r (by omega)
      | cons k rest =>
        rw [prettyMembers_cons_cons, List.length_append, List.length_cons] at hfuel
        have htail := ih (List.cons_ne_nil k rest) (fun i hi => h i (.tail _ hi)) fuel (by omega)
        rw [prettyMembers_cons_cons, List.append_assoc, List.cons_append,
          members?_more hm _ (by omega), htail, Option.map_some]

theorem value?_list (fuel : Nat) {c : Char} {r t : List Char} (hr : skipSpace r = c :: t)
    (hc : c ≠ ']') :
    value? (fuel + 1) ('[' :: r) = (items? fuel r).map (fun p => (.array p.1, p.2)) := by
  rw [value?, skipSpace_cons rfl]
  simp [hr, hc]

theorem value?_record (fuel : Nat) {c : Char} {r t : List Char} (hr : skipSpace r = c :: t)
    (hc : c ≠ '\x7d') :
    value? (fuel + 1) ('\x7b' :: r) = (members? fuel r).map (fun p => (.object p.1, p.2)) := by
  rw [value?, skipSpace_cons rfl]
  simp [hr, hc]

/-- The first item does not close the list. -/
theorem skipSpace_prettyItems (depth : Nat) {j : Json} (hj : Exact j) (rest : List Json)
    (s : List Char) :
    ∃ c t, skipSpace (prettyItems depth (j :: rest) ++ s) = c :: t ∧ c ≠ ']' := by
  obtain ⟨c, t, hc, hspace, hclose⟩ := prettyChars_cons depth hj
  cases rest with
  | nil =>
    rw [prettyItems, List.append_assoc, skipSpace_layout, hc, List.cons_append,
      skipSpace_cons hspace]
    exact ⟨c, _, rfl, hclose⟩
  | cons k rest =>
    rw [prettyItems_cons_cons, List.append_assoc, skipSpace_layout, hc, List.cons_append,
      List.cons_append, skipSpace_cons hspace]
    exact ⟨c, _, rfl, hclose⟩

theorem skipSpace_prettyMembers (depth : Nat) (m : String × Json) (rest : List (String × Json))
    (s : List Char) : ∃ t, skipSpace (prettyMembers depth (m :: rest) ++ s) = '"' :: t := by
  cases rest with
  | nil =>
    obtain ⟨t, ht, -⟩ := prettyMember_append depth m s
    exact ⟨t, by rw [prettyMembers, ht, skipSpace_layout, skipSpace_cons rfl]⟩
  | cons k rest =>
    obtain ⟨t, ht, -⟩ := prettyMember_append depth m (',' :: prettyMembers depth (k :: rest) ++ s)
    exact ⟨t, by
      rw [prettyMembers_cons_cons, List.append_assoc, ht, skipSpace_layout, skipSpace_cons rfl]⟩

theorem readable_array {items : List Json} (hitems : ∀ j ∈ items, Exact j)
    (h : ∀ j ∈ items, Readable j) : Readable (.array items) := by
  refine .of_succ fun depth fuel r hfuel _ => ?_
  cases items with
  | nil =>
    rw [prettyChars, List.cons_append, value?, skipSpace_cons rfl]
    rfl
  | cons j rest =>
    obtain ⟨c, t, ht, hclose⟩ := skipSpace_prettyItems (depth + 1) (hitems j List.mem_cons_self) rest
      ('\n' :: margin depth ++ ']' :: r)
    rw [prettyChars] at hfuel ⊢
    simp only [List.length_append, List.length_cons] at hfuel
    have hlist := items?_pretty (List.cons_ne_nil j rest) h (depth + 1) depth fuel r (by omega)
    have hvalue := value?_list fuel ht hclose
    rw [hlist] at hvalue
    simpa using hvalue

theorem readable_object {members : List (String × Json)} (h : ∀ m ∈ members, Readable m.2) :
    Readable (.object members) := by
  refine .of_succ fun depth fuel r hfuel _ => ?_
  cases members with
  | nil =>
    rw [prettyChars, List.cons_append, value?, skipSpace_cons rfl]
    rfl
  | cons m rest =>
    obtain ⟨t, ht⟩ := skipSpace_prettyMembers (depth + 1) m rest ('\n' :: margin depth ++ '\x7d' :: r)
    rw [prettyChars] at hfuel ⊢
    simp only [List.length_append, List.length_cons] at hfuel
    have hlist := members?_pretty (List.cons_ne_nil m rest) h (depth + 1) depth fuel r (by omega)
    have hvalue := value?_record fuel ht (by decide)
    rw [hlist] at hvalue
    simpa using hvalue

theorem Exact.readable {j : Json} (h : Exact j) : Readable j := by
  induction h with
  | null => exact .of_succ fun _ _ _ _ _ => rfl
  | bool b =>
    cases b with
    | false => exact .of_succ fun _ _ _ _ _ => rfl
    | true => exact .of_succ fun _ _ _ _ _ => rfl
  | int n => exact readable_int n
  | string s => exact readable_string s
  | array hitems ih => exact readable_array hitems ih
  | object _ ih => exact readable_object ih

/-- What is laid out is read back. -/
theorem parse?_pretty {j : Json} (h : Exact j) : parse? j.pretty = some j := by
  have hread := h.readable 0 (j.pretty.toList.length + 1) [] (by simp [pretty]) (by simp [Ends])
  rw [List.append_nil] at hread
  rw [parse?, pretty, String.toList_ofList] at *
  simp only [hread]
  rfl

/-! ### Records -/

theorem membersNamed_of_nodup {members : List (String × Json)} (h : (members.map Prod.fst).Nodup)
    {m : String × Json} (hm : m ∈ members) : membersNamed members m.1 = [m.2] := by
  induction members with
  | nil => cases hm
  | cons k rest ih =>
    rw [List.map_cons, List.nodup_cons] at h
    obtain ⟨hfresh, hrest⟩ := h
    rcases List.mem_cons.1 hm with rfl | hm
    · have hnone : membersNamed rest m.1 = [] := by
        rw [membersNamed, List.map_eq_nil_iff, List.filter_eq_nil_iff]
        intro k hk heq
        exact hfresh (List.mem_map.2 ⟨k, hk, by simpa using heq⟩)
      have hfirst : membersNamed (m :: rest) m.1 = m.2 :: membersNamed rest m.1 := by
        simp [membersNamed]
      rw [hfirst, hnone]
    · have hne : k.1 ≠ m.1 := fun heq => hfresh (heq ▸ List.mem_map_of_mem hm)
      have hskip : membersNamed (k :: rest) m.1 = membersNamed rest m.1 := by
        simp [membersNamed, hne]
      rw [hskip, ih hrest hm]

theorem mapM_map_of_mem {α β γ : Type} {f : β → Option γ} {g : α → β} {k : α → γ} {xs : List α}
    (h : ∀ x ∈ xs, f (g x) = some (k x)) : (xs.map g).mapM f = some (xs.map k) := by
  induction xs with
  | nil => rfl
  | cons x xs ih =>
    have hrest := ih fun y hy => h y (.tail _ hy)
    rw [List.map_cons, List.mapM_cons, h x List.mem_cons_self, hrest]
    rfl

/-- A record that has each of its names once is read as its members. -/
theorem record?_object {keys : List String} {members : List (String × Json)}
    (hkeys : members.map Prod.fst = keys) (h : keys.Nodup) :
    record? keys (.object members) = some (members.map fun m => some m.2) := by
  subst hkeys
  exact mapM_map_of_mem fun m hm => by rw [membersNamed_of_nodup h hm]

theorem asNat64?_nat {n : Nat} (h : n < UInt64.size) : asNat64? (.nat n) = some n := if_pos h

theorem asInt32?_int {n : Int} (h : -2147483648 ≤ n ∧ n ≤ 2147483647) :
    asInt32? (.int n) = some n :=
  if_pos h

theorem asNullable?_ofOption {α : Type} {f : Json → Option α} {g : α → Json} {a : Option α}
    (h : ∀ x ∈ a, g x ≠ .null ∧ f (g x) = some x) : asNullable? f (ofOption g a) = some a := by
  cases a with
  | none => rfl
  | some x =>
    obtain ⟨hnull, hread⟩ := h x rfl
    rw [ofOption, asNullable?, hread]
    · rfl
    · exact hnull

theorem asList?_map {α : Type} {f : Json → Option α} {g : α → Json} {xs : List α}
    (h : ∀ x ∈ xs, f (g x) = some x) : asList? f (.array (xs.map g)) = some xs := by
  rw [asList?, mapM_map_of_mem h, List.map_id']

end Json
end Testbed
