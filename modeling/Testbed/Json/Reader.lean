import Testbed.Json.Basic
import Testbed.Text.Digit

/-! Reading JSON. A text is one value between blanks; strings hold no raw control character and no
half of a surrogate pair. Reading is by fuel, and a text never needs more than its length. -/
namespace Testbed.Json

def isSpace (c : Char) : Bool := c = ' ' || c = '\t' || c = '\n' || c = '\r'

def skipSpace (s : List Char) : List Char := s.dropWhile isSpace

def hex4? (a b c d : Char) : Option Nat := do
  let a ← Text.digitValue? a
  let b ← Text.digitValue? b
  let c ← Text.digitValue? c
  let d ← Text.digitValue? d
  some (((a * 16 + b) * 16 + c) * 16 + d)

def simpleEscape? (c : Char) : Option Char :=
  if c = '"' || c = '\\' || c = '/' then some c
  else if c = 'b' then some (Char.ofNat 8)
  else if c = 'f' then some (Char.ofNat 12)
  else if c = 'n' then some '\n'
  else if c = 'r' then some '\r'
  else if c = 't' then some '\t'
  else none

def isHighHalf (n : Nat) : Bool := 0xD800 ≤ n && n ≤ 0xDBFF

def isLowHalf (n : Nat) : Bool := 0xDC00 ≤ n && n ≤ 0xDFFF

def joinHalves (high low : Nat) : Char :=
  Char.ofNat (0x10000 + (high - 0xD800) * 0x400 + (low - 0xDC00))

/-- The rest of a string after its opening quote; `seen` holds what came before, latest first. -/
def stringRest (seen : List Char) : List Char → Option (String × List Char)
  | '"' :: r => some (String.ofList seen.reverse, r)
  | '\\' :: 'u' :: a :: b :: c :: d :: r =>
    match hex4? a b c d with
    | none => none
    | some n =>
      if isLowHalf n then none
      else if isHighHalf n then
        match r with
        | '\\' :: 'u' :: e :: f :: g :: h :: r' =>
          match hex4? e f g h with
          | some m => if isLowHalf m then stringRest (joinHalves n m :: seen) r' else none
          | none => none
        | _ => none
      else stringRest (Char.ofNat n :: seen) r
  | '\\' :: c :: r =>
    match simpleEscape? c with
    | some e => stringRest (e :: seen) r
    | none => none
  | c :: r => if c.toNat < 32 then none else stringRest (c :: seen) r
  | [] => none

/-! ### Numbers -/

def isDigit (c : Char) : Bool := '0' ≤ c && c ≤ '9'

def digitsValue (ds : List Char) : Nat := ds.foldl (fun n c => n * 10 + (c.toNat - 48)) 0

/-- The whole part: a lone zero, or digits that do not start with one. -/
def wholePart? (s : List Char) : Option (List Char × List Char) :=
  match s.span isDigit with
  | ([], _) => none
  | (['0'], r) => some (['0'], r)
  | ('0' :: _, _) => none
  | (ds, r) => some (ds, r)

def fraction? (s : List Char) : Option (List Char × List Char) :=
  match s with
  | '.' :: r =>
    match r.span isDigit with
    | ([], _) => none
    | (ds, r') => some ('.' :: ds, r')
  | _ => some ([], s)

def exponent? (s : List Char) : Option (List Char × List Char) :=
  match s with
  | e :: r =>
    if e = 'e' || e = 'E' then
      let (sign, r) := match r with
        | '+' :: r' => (['+'], r')
        | '-' :: r' => (['-'], r')
        | _ => ([], r)
      match r.span isDigit with
      | ([], _) => none
      | (ds, r') => some (e :: sign ++ ds, r')
    else some ([], s)
  | [] => some ([], s)

def number? (s : List Char) : Option (Json × List Char) := do
  let (sign, s) := match s with
    | '-' :: r => (['-'], r)
    | _ => ([], s)
  let (whole, s) ← wholePart? s
  let (frac, s) ← fraction? s
  let (exp, s) ← exponent? s
  let n := digitsValue whole
  if frac.isEmpty && exp.isEmpty && !(n == 0 && !sign.isEmpty) then
    some (.int (if sign.isEmpty then (n : Int) else -(n : Int)), s)
  else some (.real (String.ofList (sign ++ whole ++ frac ++ exp)), s)

/-! ### Values -/

mutual

def value? : Nat → List Char → Option (Json × List Char)
  | 0, _ => none
  | fuel + 1, s =>
    match skipSpace s with
    | 'n' :: 'u' :: 'l' :: 'l' :: r => some (.null, r)
    | 't' :: 'r' :: 'u' :: 'e' :: r => some (.bool true, r)
    | 'f' :: 'a' :: 'l' :: 's' :: 'e' :: r => some (.bool false, r)
    | '"' :: r => (stringRest [] r).map (fun p => (.string p.1, p.2))
    | '[' :: r =>
      match skipSpace r with
      | ']' :: r' => some (.array [], r')
      | _ => (items? fuel r).map (fun p => (.array p.1, p.2))
    | '\x7b' :: r =>
      match skipSpace r with
      | '\x7d' :: r' => some (.object [], r')
      | _ => (members? fuel r).map (fun p => (.object p.1, p.2))
    | s => number? s

def items? : Nat → List Char → Option (List Json × List Char)
  | 0, _ => none
  | fuel + 1, s =>
    match value? fuel s with
    | none => none
    | some (j, r) =>
      match skipSpace r with
      | ',' :: r' => (items? fuel r').map (fun p => (j :: p.1, p.2))
      | ']' :: r' => some ([j], r')
      | _ => none

def members? : Nat → List Char → Option (List (String × Json) × List Char)
  | 0, _ => none
  | fuel + 1, s =>
    match skipSpace s with
    | '"' :: r =>
      match stringRest [] r with
      | none => none
      | some (key, r) =>
        match skipSpace r with
        | ':' :: r =>
          match value? fuel r with
          | none => none
          | some (j, r) =>
            match skipSpace r with
            | ',' :: r' => (members? fuel r').map (fun p => ((key, j) :: p.1, p.2))
            | '\x7d' :: r' => some ([(key, j)], r')
            | _ => none
        | _ => none
    | _ => none

end

def parse? (text : String) : Option Json :=
  let s := text.toList
  match value? (s.length + 1) s with
  | some (j, r) => if (skipSpace r).isEmpty then some j else none
  | none => none

end Testbed.Json
