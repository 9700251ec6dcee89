import Testbed.Text.Blank

/-! Moments in UTC by calendar date and time of day. They are written after RFC 3339 with a fraction
of 0, 3, 6 or 9 digits, whichever is enough, and read in a relaxed form of it: blanks may stand
around the fields, fields may be short, and an offset of less than a day is taken off. A second of
60 is a leap second. -/
namespace Testbed

structure Timestamp where
  year : Int
  month : Nat
  day : Nat
  hour : Nat
  minute : Nat
  second : Nat
  nano : Nat
deriving DecidableEq, Repr

namespace Timestamp

def epoch : Timestamp := ⟨1970, 1, 1, 0, 0, 0, 0⟩

/-! ### Writing -/

/-- The last `width` decimal digits. -/
def digits : Nat → Nat → List Char
  | 0, _ => []
  | width + 1, n => digits width (n / 10) ++ [Char.ofNat (48 + n % 10)]

/-- Years of other than four digits carry a sign. -/
def renderYear (y : Int) : List Char :=
  if 0 ≤ y ∧ y ≤ 9999 then digits 4 y.toNat
  else
    let n := y.natAbs
    (if y < 0 then '-' else '+') :: (if n < 10000 then digits 4 n else (toString n).toList)

def renderFraction (nano : Nat) : List Char :=
  if nano = 0 then []
  else if nano % 1000000 = 0 then '.' :: digits 3 (nano / 1000000)
  else if nano % 1000 = 0 then '.' :: digits 6 (nano / 1000)
  else '.' :: digits 9 nano

def render (t : Timestamp) : String :=
  String.ofList
    (renderYear t.year ++ '-' :: digits 2 t.month ++ '-' :: digits 2 t.day ++ 'T' ::
      digits 2 t.hour ++ ':' :: digits 2 t.minute ++ ':' :: digits 2 t.second ++
      renderFraction t.nano ++ ['Z'])

/-! ### Calendar -/

def isLeap (y : Int) : Bool := y % 4 == 0 && (y % 100 != 0 || y % 400 == 0)

def daysIn (y : Int) (month : Nat) : Nat :=
  if month = 2 then (if isLeap y then 29 else 28)
  else if month = 4 ∨ month = 6 ∨ month = 9 ∨ month = 11 then 30
  else 31

def yearInRange (y : Int) : Bool := -262143 ≤ y && y ≤ 262142

def dayAfter (t : Timestamp) : Timestamp :=
  if t.day < daysIn t.year t.month then { t with day := t.day + 1 }
  else if t.month < 12 then { t with month := t.month + 1, day := 1 }
  else { t with year := t.year + 1, month := 1, day := 1 }

def dayBefore (t : Timestamp) : Timestamp :=
  if 1 < t.day then { t with day := t.day - 1 }
  else if 1 < t.month then { t with month := t.month - 1, day := daysIn t.year (t.month - 1) }
  else { t with year := t.year - 1, month := 12, day := 31 }

/-- Earlier by some minutes, less than a day in either direction. -/
def minus (t : Timestamp) (minutes : Int) : Timestamp :=
  let m : Int := t.hour * 60 + t.minute - minutes
  let moved := if m < 0 then dayBefore t else if 1440 ≤ m then dayAfter t else t
  let n := (m % 1440).toNat
  { moved with hour := n / 60, minute := n % 60 }

/-- The moment some nanoseconds after the epoch. -/
def ofNanos (n : Nat) : Timestamp :=
  let seconds := n / 1000000000
  let date := Nat.repeat dayAfter (seconds / 86400) epoch
  { date with hour := seconds / 3600 % 24, minute := seconds / 60 % 60, second := seconds % 60,
              nano := n % 1000000000 }

/-! ### Reading -/

def isDigit (c : Char) : Bool := '0' ≤ c && c ≤ '9'

def valueOf (ds : List Char) : Nat := ds.foldl (fun n c => n * 10 + (c.toNat - 48)) 0

/-- At least one digit and at most `most`. -/
def number? (most : Nat) (s : List Char) : Option (Nat × List Char) :=
  let ds := (s.take most).takeWhile isDigit
  if ds.isEmpty then none else some (valueOf ds, s.drop ds.length)

def field? (low high : Nat) (s : List Char) : Option (Nat × List Char) :=
  match number? 2 (Text.trimStart s) with
  | some (n, r) => if low ≤ n ∧ n ≤ high then some (n, r) else none
  | none => none

def year? (s : List Char) : Option (Int × List Char) :=
  match Text.trimStart s with
  | '-' :: r => (number? r.length r).map (fun p => (-(p.1 : Int), p.2))
  | '+' :: r => (number? r.length r).map (fun p => ((p.1 : Int), p.2))
  | r => (number? 4 r).map (fun p => ((p.1 : Int), p.2))

/-- A separator after optional blanks. -/
def mark? (c : Char) (s : List Char) : Option (List Char) :=
  match Text.trimStart s with
  | d :: r => if c = d then some r else none
  | [] => none

/-- A fraction of a second in nanoseconds; digits after the ninth are dropped. -/
def fraction? (s : List Char) : Option (Nat × List Char) :=
  match s with
  | '.' :: r =>
    let ds := r.takeWhile isDigit
    if ds.isEmpty then none
    else some (valueOf ((ds ++ List.replicate 9 '0').take 9), r.drop ds.length)
  | _ => some (0, s)

/-- Hours and minutes of an offset, after its sign. -/
def offsetMinutes? (s : List Char) : Option (Nat × List Char) :=
  match s with
  | a :: b :: r =>
    match r.dropWhile (fun c => c = ':' || Text.isBlank c) with
    | c :: d :: r' =>
      if isDigit a && isDigit b && isDigit c && isDigit d && c < '6' then
        some (valueOf [a, b] * 60 + valueOf [c, d], r')
      else none
    | _ => none
  | _ => none

/-- The offset from UTC in minutes: `Z`, the word `UTC`, or a signed count of hours and minutes. -/
def offset? (s : List Char) : Option (Int × List Char) :=
  match Text.trimStart s with
  | [] => none
  | c :: r =>
    if (c :: r.take 2).map Char.toUpper = ['U', 'T', 'C'] then some (0, r.drop 2)
    else if c = 'Z' || c = 'z' then some (0, r)
    else if c = '+' then (offsetMinutes? r).map (fun p => ((p.1 : Int), p.2))
    else if c = '-' || c.toNat = 0x2212 then
      (offsetMinutes? r).map (fun p => (-(p.1 : Int), p.2))
    else none

def parse? (text : String) : Option Timestamp := do
  let (year, s) ← year? text.toList
  let s ← mark? '-' s
  let (month, s) ← field? 1 12 s
  let s ← mark? '-' s
  let (day, s) ← field? 1 31 s
  let s ← match s with
    | c :: r => if c = 'T' || c = 't' || c = ' ' then some r else none
    | [] => none
  let (hour, s) ← field? 0 23 s
  let s ← mark? ':' s
  let (minute, s) ← field? 0 59 s
  let s ← mark? ':' s
  let (second, s) ← field? 0 60 s
  let (nano, s) ← fraction? s
  let (offset, s) ← offset? s
  if (Text.trimStart s).isEmpty && yearInRange year && day ≤ daysIn year month &&
      offset.natAbs < 1440 then
    let t := (Timestamp.mk year month day hour minute second nano).minus offset
    if yearInRange t.year then some t else none
  else none

end Timestamp

end Testbed
