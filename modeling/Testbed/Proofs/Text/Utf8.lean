import Mathlib.Tactic.IntervalCases
import Testbed.Text.Utf8

/-! A text and its bytes. The bytes of a text are read as that text, strictly and without a flaw. -/
namespace Testbed.Text

/-! ### Bytes of a text -/

theorem toList_loop (bytes : ByteArray) (i : Nat) (done : List UInt8) :
    ByteArray.toList.loop bytes i done = done.reverse ++ bytes.data.toList.drop i := by
  induction hn : bytes.size - i generalizing i done with
  | zero =>
    have hi : ¬ i < bytes.size := by omega
    have hlen : bytes.data.toList.length ≤ i := by
      rw [Array.length_toList]
      exact Nat.le_of_not_lt hi
    rw [ByteArray.toList.loop, if_neg hi, List.drop_eq_nil_of_le hlen, List.append_nil]
  | succ n ih =>
    have hi : i < bytes.size := by omega
    have hlen : i < bytes.data.toList.length := by
      rw [Array.length_toList]
      exact hi
    have hget : bytes.get! i = bytes.data.toList[i] := by
      rw [Array.getElem_toList]
      exact getElem!_pos bytes.data i hi
    rw [ByteArray.toList.loop, if_pos hi, ih (i + 1) _ (by omega), hget,
      List.drop_eq_getElem_cons hlen]
    simp

/-- The bytes of a text are those of its characters. -/
theorem encode_eq (s : String) : encode s = s.toList.flatMap String.utf8EncodeChar := by
  rw [encode, ByteArray.toList, toList_loop, String.toUTF8_eq_toByteArray, ← String.utf8Encode_toList,
    List.utf8Encode, List.toList_data_toByteArray]
  simp

theorem encodeChars_inj {s t : List Char} :
    s.flatMap String.utf8EncodeChar = t.flatMap String.utf8EncodeChar ↔ s = t := by
  rw [← List.toByteArray_inj, ← List.utf8Encode, ← List.utf8Encode, ← String.toByteArray_ofList,
    ← String.toByteArray_ofList, String.toByteArray_inj, String.ofList_inj]

/-! ### Reading -/

/-- The lead of two bytes. -/
theorem lead_two {q : Nat} (hlow : 2 ≤ q) (hhigh : q < 32) :
    lead (q + 0xC0) = .more ⟨q, 1, 0x80, 0xBF⟩ := by
  unfold lead
  rw [if_neg (by omega), if_neg (by omega), if_pos (by omega), Nat.add_sub_cancel]

/-- The lead of three bytes: neither what fits in two nor half of a surrogate pair may follow. -/
theorem lead_three {q : Nat} (h : q < 16) :
    lead (q + 0xE0) =
      .more ⟨q, 2, if q = 0 then 0xA0 else 0x80, if q = 0xD then 0x9F else 0xBF⟩ := by
  interval_cases q <;> rfl

/-- The lead of four bytes: neither what fits in three nor what no character has may follow. -/
theorem lead_four {q : Nat} (h : q < 5) :
    lead (q + 0xF0) = .more ⟨q, 3, if q = 0 then 0x90 else 0x80, if q = 4 then 0x8F else 0xBF⟩ := by
  interval_cases q <;> rfl

namespace Decoding

variable (d : Decoding)

/-- The characters so far and one more. -/
def push (c : Char) : Decoding := ⟨c :: d.seen, d.flaws, none⟩

/-- In the middle of a character. -/
def within (p : Partial) : Decoding := ⟨d.seen, d.flaws, some p⟩

theorem step_lead {n : Nat} {p : Partial} (hd : d.open? = none) (hn : n < 256)
    (h : lead n = .more p) : d.step (UInt8.ofNat n) = d.within p := by
  have hbyte : (UInt8.ofNat n).toNat = n := by simp; omega
  simp only [step, hd, hbyte, begin, h]
  rfl

theorem step_last {value low high m : Nat} (hm : m < 64) (hlow : low ≤ m + 0x80)
    (hhigh : m + 0x80 ≤ high) :
    (d.within ⟨value, 1, low, high⟩).step (UInt8.ofNat (m + 0x80)) =
      d.push (Char.ofNat (value * 64 + m)) := by
  have hbyte : (UInt8.ofNat (m + 0x80)).toNat = m + 0x80 := by simp; omega
  simp only [step, within, hbyte]
  rw [if_pos ⟨hlow, hhigh⟩, Nat.add_sub_cancel]
  rfl

theorem step_middle {value left low high m : Nat} (hm : m < 64) (hlow : low ≤ m + 0x80)
    (hhigh : m + 0x80 ≤ high) :
    (d.within ⟨value, left + 2, low, high⟩).step (UInt8.ofNat (m + 0x80)) =
      d.within ⟨value * 64 + m, left + 1, 0x80, 0xBF⟩ := by
  have hbyte : (UInt8.ofNat (m + 0x80)).toNat = m + 0x80 := by simp; omega
  simp only [step, within, hbyte]
  rw [if_pos ⟨hlow, hhigh⟩, if_neg (by omega), Nat.add_sub_cancel]
  rfl

/-- The bytes of a character are read as that character. -/
theorem foldl_step_char (hd : d.open? = none) (c : Char) :
    (String.utf8EncodeChar c).foldl step d = d.push c := by
  have hvalid : c.val.toNat < 0xD800 ∨ 0xDFFF < c.val.toNat ∧ c.val.toNat < 0x110000 := c.valid
  have hc : Char.ofNat c.val.toNat = c := Char.ofNat_toNat c
  unfold String.utf8EncodeChar
  generalize c.val.toNat = n at hvalid hc
  dsimp only
  split
  next hn =>
    have hbyte : (UInt8.ofNat n).toNat = n := by simp; omega
    have hlead : lead n = .whole c := by rw [lead, if_pos (by omega), hc]
    simp only [List.foldl_cons, List.foldl_nil, step, hd, hbyte, begin, hlead]
    rfl
  next =>
  split
  next hn =>
    have hq : n / 64 % 0x20 = n / 64 := by omega
    have hvalue : n / 64 * 64 + n % 64 = n := by omega
    rw [hq, List.foldl_cons, step_lead d hd (by omega) (lead_two (by omega) (by omega)),
      List.foldl_cons, step_last d (by omega) (by omega) (by omega), hvalue, hc, List.foldl_nil]
  next =>
  split
  next hn =>
    have hq : n / 4096 % 0x10 = n / 4096 := by omega
    have hvalue : (n / 4096 * 64 + n / 64 % 64) * 64 + n % 64 = n := by omega
    rw [hq, List.foldl_cons, step_lead d hd (by omega) (lead_three (by omega)),
      List.foldl_cons, step_middle d (by omega) (by split <;> omega) (by split <;> omega),
      List.foldl_cons, step_last d (by omega) (by omega) (by omega), hvalue, hc, List.foldl_nil]
  next hn =>
    have hq : n / 262144 % 0x08 = n / 262144 := by omega
    have hvalue : ((n / 262144 * 64 + n / 4096 % 64) * 64 + n / 64 % 64) * 64 + n % 64 = n := by omega
    rw [hq, List.foldl_cons, step_lead d hd (by omega) (lead_four (by omega)),
      List.foldl_cons, step_middle d (by omega) (by split <;> omega) (by split <;> omega),
      List.foldl_cons, step_middle d (by omega) (by omega) (by omega),
      List.foldl_cons, step_last d (by omega) (by omega) (by omega), hvalue, hc, List.foldl_nil]

/-- The bytes of characters are read one character after the other. -/
theorem foldl_step_chars (hd : d.open? = none) (s : List Char) :
    (s.flatMap String.utf8EncodeChar).foldl step d = ⟨s.reverse ++ d.seen, d.flaws, none⟩ := by
  induction s generalizing d with
  | nil =>
    rw [List.flatMap_nil, List.foldl_nil, ← hd]
    rfl
  | cons c s ih =>
    rw [List.flatMap_cons, List.foldl_append, foldl_step_char d hd, ih (d.push c) rfl]
    simp [push]

end Decoding

/-- The bytes of a text are read as the text. -/
theorem decode?_encode (s : String) : decode? (encode s) = some s := by
  rw [decode?, decoding, encode_eq, Decoding.foldl_step_chars .start rfl]
  simp [Decoding.start, Decoding.finish]

end Testbed.Text
