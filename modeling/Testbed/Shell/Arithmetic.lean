import Testbed.Tool.Basic

/-! Arithmetic in scripts, on signed integers of 64 bits: a text is read into an `Expr`, and an
`Expr` has a value where its variables have texts. The right side of `&&` and `||` and the side of
`?:` that is not chosen have no effect. -/
namespace Testbed.Shell.Arithmetic

/-- What is wrong with an expression. -/
inductive Fault where
  | divisionByZero
  /-- Something else stands where this should. -/
  | expecting (what : String)
  /-- The text of a variable is no number. -/
  | illegalNumber (text : String)
deriving DecidableEq, Repr

/-! ### Numbers -/

/-- The number that 64 bits with a sign make of one. -/
def wrap (n : Int) : Int := n.bmod UInt64.size

def greatest : Nat := UInt64.size / 2 - 1

/-- The digits of a number and their base: hexadecimal after `0x`, octal after `0`. -/
def digitsOf (cs : List Char) : Nat × List Char :=
  match cs with
  | '0' :: x :: rest =>
    if (x = 'x' || x = 'X') && rest.head?.any (Text.isDigitIn 16) then
      (16, rest.takeWhile (Text.isDigitIn 16))
    else (8, cs.takeWhile (Text.isDigitIn 8))
  | _ => (10, cs.takeWhile (Text.isDigitIn 10))

/-- The number at the start of a text, and what follows it. -/
def leadingNumber (cs : List Char) : Nat × List Char :=
  let (base, digits) := digitsOf cs
  let marks := if base = 16 then 2 else 0
  (Text.numberIn base digits, cs.drop (marks + digits.length))

/-- The number that the text of a variable is. An empty one is zero. -/
def numberOf (text : String) : Except Fault Int :=
  let blank (c : Char) : Bool := c = ' ' || ('\t' ≤ c && c ≤ '\r')
  let cs := text.toList.dropWhile blank
  let (negative, digits) := match cs with
    | '-' :: ds => (true, ds)
    | '+' :: ds => (false, ds)
    | _ => (false, cs)
  let (n, rest) := leadingNumber digits
  let none := digits.head?.all (fun c => !c.isDigit)
  if (if none then text.toList else rest).all blank && n ≤ greatest then
    .ok (if negative then -n else n)
  else .error (.illegalNumber text)

/-! ### Tokens -/

inductive Token where
  | number (n : Int)
  | name (s : String)
  | sign (s : String)
deriving DecidableEq, Repr

/-- All signs, each before those that it begins with. -/
def signs : List String :=
  ["<<=", ">>=", "<<", ">>", "<=", ">=", "==", "!=", "&&", "||", "+=", "-=", "*=", "/=", "%=", "&=",
   "|=", "^=", "=", "+", "-", "*", "/", "%", "(", ")", "<", ">", "!", "~", "&", "|", "^", "?", ":"]

def isNameChar (c : Char) : Bool := c.isAlphanum || c = '_'

/-- The tokens of a text. A character that begins none is a sign that stands nowhere. -/
def tokens : Nat → List Char → List Token
  | 0, _ => []
  | _, [] => []
  | fuel + 1, c :: r =>
    if c = ' ' || c = '\t' || c = '\n' then tokens fuel r
    else if c.isDigit then
      let (n, rest) := leadingNumber (c :: r)
      .number (min n greatest) :: tokens fuel rest
    else if isNameChar c then
      let cs := (c :: r).takeWhile isNameChar
      .name (String.ofList cs) :: tokens fuel ((c :: r).drop cs.length)
    else
      match signs.find? (fun o => o.toList.isPrefixOf (c :: r)) with
      | some o => .sign o :: tokens fuel ((c :: r).drop o.length)
      | none => [.sign ""]

/-! ### Expressions -/

inductive Operator where
  | times | quotient | remainder
  | plus | minus
  | shiftLeft | shiftRight
  | less | atMost | greater | atLeast
  | equal | unequal
  | bitAnd | bitXor | bitOr
deriving DecidableEq, Repr

/-- An operator on two numbers by its sign. -/
def operator? (sign : String) : Option Operator :=
  match sign with
  | "*" => some .times
  | "/" => some .quotient
  | "%" => some .remainder
  | "+" => some .plus
  | "-" => some .minus
  | "<<" => some .shiftLeft
  | ">>" => some .shiftRight
  | "<" => some .less
  | "<=" => some .atMost
  | ">" => some .greater
  | ">=" => some .atLeast
  | "==" => some .equal
  | "!=" => some .unequal
  | "&" => some .bitAnd
  | "^" => some .bitXor
  | "|" => some .bitOr
  | _ => none

/-- How tightly an operator binds. -/
def Operator.strength : Operator → Nat
  | .times | .quotient | .remainder => 8
  | .plus | .minus => 7
  | .shiftLeft | .shiftRight => 6
  | .less | .atMost | .greater | .atLeast => 5
  | .equal | .unequal => 4
  | .bitAnd => 3
  | .bitXor => 2
  | .bitOr => 1

/-- The operator of an assignment: none of a plain one. -/
def assignment? (sign : String) : Option (Option Operator) :=
  match sign.toList.reverse with
  | ['='] => some none
  | '=' :: rest =>
    match operator? (String.ofList rest.reverse) with
    | some .less | some .greater | none => none
    | some o => some (some o)
  | _ => none

inductive Expr where
  | number (n : Int)
  | name (s : String)
  | negative (e : Expr)
  | complement (e : Expr)
  | no (e : Expr)
  | binary (o : Operator) (a b : Expr)
  | both (a b : Expr)
  | either (a b : Expr)
  | choice (condition yes no : Expr)
  | assign (name : String) (o : Option Operator) (e : Expr)
deriving DecidableEq, Repr

abbrev Parsed := Except Fault (Expr × List Token)

mutual

/-- Assignments and all that binds tighter. -/
def parseFull : Nat → List Token → Parsed
  | 0, _ => .error (.expecting "primary")
  | fuel + 1, toks =>
    match toks with
    | .name x :: .sign o :: r =>
      match assignment? o with
      | some o => do
        let (e, r) ← parseFull fuel r
        .ok (.assign x o e, r)
      | none => parseChoice fuel toks
    | _ => parseChoice fuel toks

def parseChoice : Nat → List Token → Parsed
  | 0, _ => .error (.expecting "primary")
  | fuel + 1, toks => do
    match ← parseEither fuel toks with
    | (c, .sign "?" :: r) =>
      match ← parseFull fuel r with
      | (yes, .sign ":" :: r) =>
        let (no, r) ← parseChoice fuel r
        .ok (.choice c yes no, r)
      | _ => .error (.expecting "':'")
    | other => .ok other

def parseEither : Nat → List Token → Parsed
  | 0, _ => .error (.expecting "primary")
  | fuel + 1, toks => do
    match ← parseBoth fuel toks with
    | (a, .sign "||" :: r) =>
      let (b, r) ← parseEither fuel r
      .ok (.either a b, r)
    | other => .ok other

def parseBoth : Nat → List Token → Parsed
  | 0, _ => .error (.expecting "primary")
  | fuel + 1, toks => do
    match ← parseBinary fuel 1 toks with
    | (a, .sign "&&" :: r) =>
      let (b, r) ← parseBoth fuel r
      .ok (.both a b, r)
    | other => .ok other

/-- Operators that bind at least as tightly as `least`. -/
def parseBinary : Nat → Nat → List Token → Parsed
  | 0, _, _ => .error (.expecting "primary")
  | fuel + 1, least, toks => do
    let (a, r) ← parsePrimary fuel toks
    parseMore fuel least a r

def parseMore : Nat → Nat → Expr → List Token → Parsed
  | 0, _, _, _ => .error (.expecting "primary")
  | fuel + 1, least, a, toks =>
    match toks with
    | .sign s :: r =>
      match operator? s with
      | some o =>
        if o.strength < least then .ok (a, toks)
        else do
          let (b, r) ← parseBinary fuel (o.strength + 1) r
          parseMore fuel least (.binary o a b) r
      | none => .ok (a, toks)
    | _ => .ok (a, toks)

def parsePrimary : Nat → List Token → Parsed
  | 0, _ => .error (.expecting "primary")
  | fuel + 1, toks =>
    match toks with
    | .number n :: r => .ok (.number n, r)
    | .name x :: r => .ok (.name x, r)
    | .sign "+" :: r => parsePrimary fuel r
    | .sign "-" :: r => do
      let (e, r) ← parsePrimary fuel r
      .ok (.negative e, r)
    | .sign "!" :: r => do
      let (e, r) ← parsePrimary fuel r
      .ok (.no e, r)
    | .sign "~" :: r => do
      let (e, r) ← parsePrimary fuel r
      .ok (.complement e, r)
    | .sign "(" :: r => do
      match ← parseFull fuel r with
      | (e, .sign ")" :: r) => .ok (e, r)
      | _ => .error (.expecting "')'")
    | _ => .error (.expecting "primary")

end

/-- The expression that a text is. -/
def parse (text : List Char) : Except Fault Expr := do
  let toks := tokens (text.length + 1) text
  match ← parseFull (8 * toks.length + 8) toks with
  | (e, []) => .ok e
  | _ => .error (.expecting "EOF")

/-! ### Values -/

def ofBool (b : Bool) : Int := if b then 1 else 0

/-- The 64 bits of a number, read without a sign. -/
def bits (n : Int) : Nat := (n % UInt64.size).toNat

def Operator.apply (o : Operator) (a b : Int) : Except Fault Int :=
  match o with
  | .times => .ok (wrap (a * b))
  | .quotient => if b = 0 then .error .divisionByZero else .ok (wrap (a.tdiv b))
  | .remainder => if b = 0 then .error .divisionByZero else .ok (a.tmod b)
  | .plus => .ok (wrap (a + b))
  | .minus => .ok (wrap (a - b))
  | .shiftLeft => .ok (wrap (a <<< (bits b % 64)))
  | .shiftRight => .ok (a >>> (bits b % 64))
  | .less => .ok (ofBool (a < b))
  | .atMost => .ok (ofBool (a ≤ b))
  | .greater => .ok (ofBool (b < a))
  | .atLeast => .ok (ofBool (b ≤ a))
  | .equal => .ok (ofBool (a == b))
  | .unequal => .ok (ofBool (a != b))
  | .bitAnd => .ok (wrap (bits a &&& bits b))
  | .bitXor => .ok (wrap (bits a ^^^ bits b))
  | .bitOr => .ok (wrap (bits a ||| bits b))

/-- Values that an expression has given to variables, the latest first. -/
abbrev Assigned := List (String × Int)

abbrev Evaluation := StateT Assigned (Except Fault)

/-- The value of a variable: what the expression gave to it, or else the number that its text is. -/
def valueOf (text : String → String) (name : String) : Evaluation Int := do
  match (← get).lookup name with
  | some n => return n
  | none => liftM (numberOf (text name))

/-- The value of an expression; `text` gives the texts of variables. -/
def Expr.value (text : String → String) : Expr → Evaluation Int
  | .number n => return n
  | .name x => valueOf text x
  | .negative e => return wrap (-(← e.value text))
  | .complement e => return -(← e.value text) - 1
  | .no e => return ofBool ((← e.value text) == 0)
  | .binary o a b => do
    let x ← a.value text
    let y ← b.value text
    liftM (o.apply x y)
  | .both a b => do
    if (← a.value text) = 0 then return 0
    else return ofBool ((← b.value text) != 0)
  | .either a b => do
    if (← a.value text) ≠ 0 then return 1
    else return ofBool ((← b.value text) != 0)
  | .choice c a b => do
    if (← c.value text) ≠ 0 then a.value text else b.value text
  | .assign x o e => do
    let y ← e.value text
    let n ← match o with
      | none => pure y
      | some o => do
        let old ← valueOf text x
        liftM (o.apply old y)
    modify ((x, n) :: ·)
    return n

/-- The value of a text as an expression, and what it gives to variables. -/
def evaluate (texts : String → String) (text : List Char) : Except Fault (Int × Assigned) := do
  let e ← parse text
  (e.value texts).run []

/-- What is said of a fault in a text. -/
def Fault.message (text : String) : Fault → String
  | .divisionByZero => s!"arithmetic expression: division by zero: \"{text}\""
  | .expecting what => s!"arithmetic expression: expecting {what}: \"{text}\""
  | .illegalNumber value => s!"Illegal number: {value}"

end Testbed.Shell.Arithmetic
