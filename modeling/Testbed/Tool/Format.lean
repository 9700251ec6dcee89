import Testbed.Tool.Basic

/-! Formatted output: escapes, directives, and a format that is used again until the arguments are
used up. -/
namespace Testbed.Tool.Format

/-- The single characters that a letter after a backslash stands for. -/
def controlOf? (c : Char) : Option Nat :=
  match c with
  | 'a' => some 7
  | 'b' => some 8
  | 'f' => some 12
  | 'n' => some 10
  | 'r' => some 13
  | 't' => some 9
  | 'v' => some 11
  | '\\' => some 92
  | _ => none

def charBytes (c : Char) : Bytes := Text.encode (String.singleton c)

/-! ### Escaped text -/

/-- Text with the escapes of `echo` and of the directive `b`: an octal number starts with a zero,
and `\c` ends all output. The flag says whether it was met. -/
def unescape : Nat → List Char → Bytes × Bool
  | 0, _ => ([], false)
  | _, [] => ([], false)
  | fuel + 1, '\\' :: c :: r =>
    if c = 'c' then ([], true)
    else if c = '0' then
      let ds := (r.take 3).takeWhile (Text.isDigitIn 8)
      let (bs, stop) := unescape fuel (r.drop ds.length)
      (UInt8.ofNat (Text.numberIn 8 ds) :: bs, stop)
    else
      match controlOf? c with
      | some n =>
        let (bs, stop) := unescape fuel r
        (UInt8.ofNat n :: bs, stop)
      | none =>
        let (bs, stop) := unescape fuel r
        (92 :: charBytes c ++ bs, stop)
  | fuel + 1, c :: r =>
    let (bs, stop) := unescape fuel r
    (charBytes c ++ bs, stop)

def unescaped (s : String) : Bytes × Bool := unescape (s.length + 1) s.toList

/-! ### Directives -/

structure Directive where
  left : Bool
  zero : Bool
  plus : Bool
  blank : Bool
  alternate : Bool
  width : Nat
  precision : Option Nat
  letter : Char
deriving DecidableEq, Repr

inductive Part where
  | bytes (b : Bytes)
  | stop
  /-- Whether the width and the precision come from the arguments, as a star asks. -/
  | directive (d : Directive) (widthAsked precisionAsked : Bool)
  | flawed (text : String)

/-- A number, or nothing for a star. -/
def countAt (cs : List Char) : Option Nat × List Char :=
  match cs with
  | '*' :: r => (none, r)
  | _ => (some (natOf (cs.takeWhile Char.isDigit)), cs.dropWhile Char.isDigit)

def directive (cs : List Char) : Part × List Char :=
  let isFlag (c : Char) : Bool := "-+ #0".toList.contains c
  let flags := cs.takeWhile isFlag
  let (width, r) := countAt (cs.dropWhile isFlag)
  let (precision, r) := match r with
    | '.' :: r' =>
      let (n, r'') := countAt r'
      (some n, r'')
    | _ => (none, r)
  match r with
  | c :: r' =>
    if "sbcdiouxX%".toList.contains c then
      (.directive ⟨flags.contains '-', flags.contains '0', flags.contains '+', flags.contains ' ',
        flags.contains '#', width.getD 0, precision.map (fun n => n.getD 0), c⟩
        width.isNone (precision = some none), r')
    else (.flawed (String.ofList ('%' :: cs.take (cs.length - r'.length))), r')
  | [] => (.flawed (String.ofList ('%' :: cs)), [])

def parts : Nat → List Char → List Part
  | 0, _ => []
  | _, [] => []
  | fuel + 1, '\\' :: c :: r =>
    if Text.isDigitIn 8 c then
      let ds := ((c :: r).take 3).takeWhile (Text.isDigitIn 8)
      .bytes [UInt8.ofNat (Text.numberIn 8 ds)] :: parts fuel ((c :: r).drop ds.length)
    else if c = 'c' then [.stop]
    else
      match controlOf? c with
      | some n => .bytes [UInt8.ofNat n] :: parts fuel r
      | none =>
        if c = '"' || c = '\'' then .bytes (charBytes c) :: parts fuel r
        else .bytes (92 :: charBytes c) :: parts fuel r
  | fuel + 1, '%' :: r =>
    match r with
    | '%' :: r' => .bytes [37] :: parts fuel r'
    | _ =>
      let (p, r') := directive r
      p :: parts fuel r'
  | fuel + 1, c :: r => .bytes (charBytes c) :: parts fuel r

def padTo (d : Directive) (b : Bytes) : Bytes :=
  let fill := List.replicate (d.width - b.length) (32 : UInt8)
  if d.left then b ++ fill else fill ++ b

def ascii (cs : List Char) : Bytes := cs.map (fun c => UInt8.ofNat c.toNat)

/-- An integer in some base, with its sign, prefix and zeros. -/
def renderInt (d : Directive) (n : Int) : Bytes :=
  let base := if d.letter = 'o' then 8 else if d.letter = 'x' || d.letter = 'X' then 16 else 10
  let signed := d.letter = 'd' || d.letter = 'i'
  let magnitude := if signed then n.natAbs else (n % UInt64.size).toNat
  let digits := (Nat.toDigits base magnitude).map (fun c => if d.letter = 'X' then c.toUpper else c)
  let digits := match d.precision with
    | some p => List.replicate (p - digits.length) '0' ++ digits
    | none => digits
  let sign : List Char :=
    if signed && n < 0 then ['-'] else if signed && d.plus then ['+']
    else if signed && d.blank then [' '] else []
  let mark : List Char :=
    if d.alternate && magnitude ≠ 0 then
      if d.letter = 'o' then ['0'] else if base = 16 then ['0', d.letter] else []
    else []
  let front := sign ++ mark
  if d.zero && !d.left && d.precision.isNone then
    let fill := List.replicate (d.width - (front.length + digits.length)) '0'
    ascii (front ++ fill ++ digits)
  else padTo d (ascii (front ++ digits))

/-- The number at the front of an argument and whether all of it is a number. -/
def number (arg : String) : Int × Bool :=
  let magnitude (cs : List Char) : Nat × Bool :=
    match cs with
    | '0' :: x :: r =>
      if x = 'x' || x = 'X' then
        let ds := r.takeWhile (Text.isDigitIn 16)
        (Text.numberIn 16 ds, !ds.isEmpty && ds.length = r.length)
      else
        let ds := (x :: r).takeWhile (Text.isDigitIn 8)
        (Text.numberIn 8 ds, ds.length = r.length + 1)
    | _ =>
      let ds := cs.takeWhile Char.isDigit
      (natOf ds, !ds.isEmpty && ds.length = cs.length)
  match arg.toList with
  | [] => (0, true)
  | '\'' :: c :: _ | '"' :: c :: _ => (c.toNat, true)
  | '-' :: r =>
    let (n, whole) := magnitude r
    (-(n : Int), whole)
  | '+' :: r =>
    let (n, whole) := magnitude r
    (n, whole)
  | r =>
    let (n, whole) := magnitude r
    (n, whole)

/-- Output so far, the arguments not yet used, whether output has ended, whether a directive was no
directive, and complaints. -/
structure State where
  written : Bytes
  args : List String
  used : Bool
  ended : Bool
  flawed : Bool
  complaints : List String

def State.add (s : State) (b : Bytes) : State := { s with written := s.written ++ b }

def State.take (s : State) : String × State :=
  match s.args with
  | a :: rest => (a, { s with args := rest, used := true })
  | [] => ("", { s with used := true })

/-- A directive with the numbers that it takes from the arguments. A negative width means the left,
and a negative precision none. -/
def State.settle (s : State) (d : Directive) (widthAsked precisionAsked : Bool) : Directive × State :=
  let (d, s) :=
    if widthAsked then
      let (arg, s) := s.take
      let n := (number arg).1
      ({ d with width := n.natAbs, left := d.left || n < 0 }, s)
    else (d, s)
  if precisionAsked then
    let (arg, s) := s.take
    let n := (number arg).1
    ({ d with precision := if n < 0 then none else some n.toNat }, s)
  else (d, s)

def apply (numberComplaint : String → Bool → String) (s : State) : Part → State
  | .bytes b => if s.ended then s else s.add b
  | .stop => { s with ended := true }
  | .flawed text =>
    if s.ended then s
    else { s with ended := true, flawed := true, complaints := s.complaints ++ [text ++ ": invalid directive"] }
  | .directive d widthAsked precisionAsked =>
    if s.ended then s
    else
      let (d, s) := s.settle d widthAsked precisionAsked
      let (arg, s') := s.take
      if d.letter = 's' then
        let b := Text.encode arg
        s'.add (padTo d (match d.precision with
          | some p => b.take p
          | none => b))
      else if d.letter = 'c' then s'.add (padTo d ((Text.encode arg).take 1))
      else if d.letter = 'b' then
        let (b, stop) := unescaped arg
        { s'.add (padTo d b) with ended := stop }
      else
        let (n, whole) := number arg
        let s'' := s'.add (renderInt d n)
        if whole then s''
        else { s'' with complaints := s''.complaints ++ [numberComplaint arg (arg.toList.head?.any Char.isDigit)] }

/-- Uses the format once and then again as long as there are arguments and it takes any. -/
def repeated (complaint : String → Bool → String) (ps : List Part) : Nat → State → State
  | 0, s => s
  | fuel + 1, s =>
    let s' := ps.foldl (apply complaint) { s with used := false }
    if s'.ended || s'.args.isEmpty || !s'.used then s' else repeated complaint ps fuel s'

def format (complaint : String → Bool → String) (text : String) (args : List String) : State :=
  repeated complaint (parts (text.length + 1) text.toList) (args.length + 1)
    ⟨[], args, false, false, false, []⟩

end Testbed.Tool.Format
