/-! Bytes as UTF-8 text. A strict reading refuses anything that is not well formed; a lossy one puts
U+FFFD for every maximal stretch that begins a character and is not completed, and for every byte
that begins none. -/
namespace Testbed.Text

def encode (s : String) : List UInt8 := s.toUTF8.toList

/-- A character of which some bytes are still to come: their number, and the bounds of the next. -/
structure Partial where
  value : Nat
  left : Nat
  low : Nat
  high : Nat
deriving DecidableEq, Repr

/-- What a byte begins. -/
inductive Lead where
  | whole (c : Char)
  | more (p : Partial)
  | bad

def lead (b : Nat) : Lead :=
  if b < 0x80 then .whole (Char.ofNat b)
  else if b < 0xC2 then .bad
  else if b < 0xE0 then .more ⟨b - 0xC0, 1, 0x80, 0xBF⟩
  else if b = 0xE0 then .more ⟨0, 2, 0xA0, 0xBF⟩
  else if b = 0xED then .more ⟨0xD, 2, 0x80, 0x9F⟩
  else if b < 0xF0 then .more ⟨b - 0xE0, 2, 0x80, 0xBF⟩
  else if b = 0xF0 then .more ⟨0, 3, 0x90, 0xBF⟩
  else if b < 0xF4 then .more ⟨b - 0xF0, 3, 0x80, 0xBF⟩
  else if b = 0xF4 then .more ⟨4, 3, 0x80, 0x8F⟩
  else .bad

/-- The characters so far, latest first, the number of flaws, and the open character. -/
structure Decoding where
  seen : List Char
  flaws : Nat
  open? : Option Partial

namespace Decoding

def start : Decoding := ⟨[], 0, none⟩

def flaw (d : Decoding) : Decoding := ⟨Char.ofNat 0xFFFD :: d.seen, d.flaws + 1, none⟩

def begin (d : Decoding) (b : Nat) : Decoding :=
  match lead b with
  | .whole c => { d with seen := c :: d.seen, open? := none }
  | .more p => { d with open? := some p }
  | .bad => d.flaw

def step (d : Decoding) (byte : UInt8) : Decoding :=
  let b := byte.toNat
  match d.open? with
  | none => d.begin b
  | some p =>
    if p.low ≤ b ∧ b ≤ p.high then
      let value := p.value * 64 + (b - 0x80)
      if p.left ≤ 1 then { d with seen := Char.ofNat value :: d.seen, open? := none }
      else { d with open? := some ⟨value, p.left - 1, 0x80, 0xBF⟩ }
    else d.flaw.begin b

def finish (d : Decoding) : Decoding := if d.open?.isSome then d.flaw else d

end Decoding

def decoding (bytes : List UInt8) : Decoding := (bytes.foldl Decoding.step .start).finish

def decodeLossy (bytes : List UInt8) : String := String.ofList (decoding bytes).seen.reverse

def decode? (bytes : List UInt8) : Option String :=
  let d := decoding bytes
  if d.flaws = 0 then some (String.ofList d.seen.reverse) else none

end Testbed.Text
