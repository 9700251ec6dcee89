import Testbed.Toml.Basic
import Testbed.Text.Digit

/-! The scalars of TOML other than strings, each recognised from the whole of its text. Integers fit
in 64 bits with sign. -/
namespace Testbed.Toml

def isDigit (c : Char) : Bool := Text.isDigitIn 10 c

/-- Digits in which single underscores may stand, each between two digits. -/
def grouped (ok : Char → Bool) : List Char → Bool
  | [] => false
  | [c] => ok c
  | c :: '_' :: r => ok c && grouped ok r
  | c :: r => ok c && grouped ok r

def valueIn (radix : Nat) (s : List Char) : Nat :=
  Text.numberIn radix (s.filter (· ≠ '_'))

def inRange? (n : Int) : Option Toml :=
  if -9223372036854775808 ≤ n ∧ n ≤ 9223372036854775807 then some (.integer n) else none

/-- A decimal numeral without sign: `0`, or grouped digits that do not start with `0`. -/
def isDecimal (s : List Char) : Bool :=
  s == ['0'] || (grouped isDigit s && s.head? != some '0')

def unsigned (s : List Char) : List Char :=
  match s with
  | '+' :: r | '-' :: r => r
  | _ => s

def radixNumeral? (radix : Nat) (s : List Char) : Option Toml :=
  if grouped (Text.isDigitIn radix) s then inRange? (valueIn radix s) else none

def integer? (s : List Char) : Option Toml :=
  match s with
  | '0' :: 'x' :: r => radixNumeral? 16 r
  | '0' :: 'o' :: r => radixNumeral? 8 r
  | '0' :: 'b' :: r => radixNumeral? 2 r
  | _ =>
    let r := unsigned s
    if isDecimal r then
      inRange? (if s.head? = some '-' then -(valueIn 10 r : Int) else (valueIn 10 r : Int))
    else none

def isExponent (s : List Char) : Bool :=
  match s with
  | e :: r => (e = 'e' || e = 'E') && grouped isDigit (unsigned r)
  | [] => false

/-- A fraction, an exponent, or both. -/
def isFloatTail (s : List Char) : Bool :=
  match s with
  | '.' :: r =>
    let frac := r.takeWhile (fun c => isDigit c || c = '_')
    let rest := r.dropWhile (fun c => isDigit c || c = '_')
    grouped isDigit frac && (rest.isEmpty || isExponent rest)
  | _ => isExponent s

def float? (s : List Char) : Option Toml :=
  let r := unsigned s
  let whole := r.takeWhile (fun c => isDigit c || c = '_')
  let rest := r.dropWhile (fun c => isDigit c || c = '_')
  if r == "inf".toList || r == "nan".toList || (isDecimal whole && isFloatTail rest) then
    some (.float (String.ofList s))
  else none

/-! ### Dates and times -/

/-- `s` against a shape in which `d` stands for a digit and every other character for itself. -/
def fits : List Char → List Char → Bool
  | [], [] => true
  | 'd' :: shape, c :: s => isDigit c && fits shape s
  | x :: shape, c :: s => x = c && fits shape s
  | _, _ => false

/-- The number in some of the characters. -/
def numberAt (start size : Nat) (s : List Char) : Nat := valueIn 10 ((s.drop start).take size)

def isLeap (year : Nat) : Bool := year % 4 == 0 && (year % 100 != 0 || year % 400 == 0)

def daysIn (year month : Nat) : Nat :=
  if month = 2 then (if isLeap year then 29 else 28)
  else if month = 4 ∨ month = 6 ∨ month = 9 ∨ month = 11 then 30
  else 31

def isDate (s : List Char) : Bool :=
  let month := numberAt 5 2 s
  let day := numberAt 8 2 s
  fits "dddd-dd-dd".toList s && 1 ≤ month && month ≤ 12 && 1 ≤ day &&
    day ≤ daysIn (numberAt 0 4 s) month

/-- A time of day; of its fraction nine digits count, and zeros at the end do not. -/
def time? (s : List Char) : Option (List Char) :=
  let front := s.take 8
  if fits "dd:dd:dd".toList front && numberAt 0 2 s ≤ 23 && numberAt 3 2 s ≤ 59 &&
      numberAt 6 2 s ≤ 60 then
    match s.drop 8 with
    | [] => some front
    | '.' :: digits =>
      if digits.isEmpty || !digits.all isDigit then none
      else
        let kept := ((digits.take 9).reverse.dropWhile (· = '0')).reverse
        some (if kept.isEmpty then front else front ++ '.' :: kept)
    | _ => none
  else none

/-- A distance from universal time; none at all is written with a plus sign. -/
def offset? (s : List Char) : Option (List Char) :=
  match s with
  | ['Z'] | ['z'] => some ['Z']
  | '+' :: r | '-' :: r =>
    if fits "dd:dd".toList r && numberAt 0 2 r ≤ 23 && numberAt 3 2 r ≤ 59 then
      some (if valueIn 10 (r.filter isDigit) = 0 then '+' :: r else s)
    else none
  | _ => none

def timeWithOffset? (s : List Char) : Option (List Char) :=
  let stops := fun c => c = 'Z' || c = 'z' || c = '+' || c = '-'
  match time? (s.takeWhile (fun c => !stops c)), s.dropWhile (fun c => !stops c) with
  | some time, [] => some time
  | some time, rest => (offset? rest).map (time ++ ·)
  | none, _ => none

/-- The one form in which a date, a time or both are written. -/
def dateTimeText? (s : List Char) : Option (List Char) :=
  if isDate s then some s
  else if isDate (s.take 10) then
    match s.drop 10 with
    | c :: r =>
      if c = 'T' || c = 't' || c = ' ' then (timeWithOffset? r).map (s.take 10 ++ 'T' :: ·) else none
    | [] => none
  else time? s

def dateTime? (s : List Char) : Option Toml :=
  (dateTimeText? s).map (fun text => .dateTime (String.ofList text))

def boolean? (s : List Char) : Option Toml :=
  if s == "true".toList then some (.boolean true)
  else if s == "false".toList then some (.boolean false)
  else none

def scalar? (s : List Char) : Option Toml :=
  boolean? s <|> integer? s <|> float? s <|> dateTime? s

end Testbed.Toml
