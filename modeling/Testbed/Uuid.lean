import Testbed.Text.Digit

/-! Universally unique identifiers: thirty-two hexadecimal digits, written in lower case in groups
of 8, 4, 4, 4 and 12. They are read in either case, with or without the hyphens, in braces, or as a
URN. -/
namespace Testbed

structure Uuid where
  digits : List (Fin 16)
  size : digits.length = 32
deriving DecidableEq, Repr

namespace Uuid

def nil : Uuid := ⟨List.replicate 32 0, by simp⟩

def digitChar (d : Fin 16) : Char := Text.digit d.val

/-- The last hexadecimal digit of a number. -/
def lastDigit (n : Nat) : Fin 16 := Fin.ofNat 16 n

def digit? (c : Char) : Option (Fin 16) := (Text.digitValue? c).map lastDigit

/-- Hyphens after 8, 12, 16 and 20 digits. -/
def hyphenated (cs : List Char) : List Char :=
  cs.take 8 ++ '-' :: (cs.drop 8).take 4 ++ '-' :: (cs.drop 12).take 4 ++
    '-' :: (cs.drop 16).take 4 ++ '-' :: cs.drop 20

def render (u : Uuid) : String := String.ofList (hyphenated (u.digits.map digitChar))

/-! ### Reading -/

def ofDigits? (cs : List Char) : Option Uuid :=
  match cs.mapM digit? with
  | some ds => if h : ds.length = 32 then some ⟨ds, h⟩ else none
  | none => none

def withoutHyphens (cs : List Char) : List Char :=
  cs.take 8 ++ (cs.drop 9).take 4 ++ (cs.drop 14).take 4 ++ (cs.drop 19).take 4 ++ cs.drop 24

def ofHyphenated? (cs : List Char) : Option Uuid :=
  let digits := withoutHyphens cs
  if hyphenated digits = cs then ofDigits? digits else none

def urnMark : List Char := "urn:uuid:".toList

def parse? (text : String) : Option Uuid :=
  let cs := text.toList
  if cs.length = 32 then ofDigits? cs
  else if cs.length = 36 then ofHyphenated? cs
  else if cs.length = 38 ∧ cs.head? = some '\x7b' ∧ cs.getLast? = some '\x7d' then
    ofHyphenated? (cs.tail.dropLast)
  else if cs.length = 45 ∧ urnMark.isPrefixOf cs then ofHyphenated? (cs.drop 9)
  else none

end Uuid

end Testbed
