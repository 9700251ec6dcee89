import Testbed.Toml.Document
import Testbed.Toml.Scalar

/-! Reading a TOML document. The text is a sequence of statements, one to a line; only arrays may
hold line ends and comments between their values. Reading is by fuel, and a text never needs more
than its length. -/
namespace Testbed.Toml

/-! ### Blanks, comments, line ends -/

def isSpace (c : Char) : Bool := c = ' ' || c = '\t'

def skipSpace (s : List Char) : List Char := s.dropWhile isSpace

/-- Characters that may stand in a comment or a one-line string. -/
def isPlain (c : Char) : Bool := c = '\t' || (32 ≤ c.toNat && c.toNat ≠ 127)

def newline? : List Char → Option (List Char)
  | '\n' :: r => some r
  | '\r' :: '\n' :: r => some r
  | _ => none

/-- The end of a line or of the text, after an optional comment. -/
def lineEnd? (s : List Char) : Option (List Char) :=
  let rest := match skipSpace s with
    | '#' :: r => r.dropWhile isPlain
    | r => r
  if rest.isEmpty then some [] else newline? rest

/-- Skips blanks, line ends and comments inside an array. -/
def skipFiller : Nat → List Char → List Char
  | 0, s => s
  | fuel + 1, s =>
    let r := skipSpace s
    match newline? r with
    | some r' => skipFiller fuel r'
    | none =>
      match r with
      | '#' :: c =>
        match newline? (c.dropWhile isPlain) with
        | some r' => skipFiller fuel r'
        | none => r
      | _ => r

/-! ### Strings -/

def codePoint? (digits : List Char) : Option Char :=
  if digits.all (Text.isDigitIn 16) then
    let n := valueIn 16 digits
    if n < 0xD800 || (0xE000 ≤ n && n ≤ 0x10FFFF) then some (Char.ofNat n) else none
  else none

/-- The character that an escape stands for, after its backslash. -/
def escape? : List Char → Option (Char × List Char)
  | 'b' :: r => some (Char.ofNat 8, r)
  | 't' :: r => some ('\t', r)
  | 'n' :: r => some ('\n', r)
  | 'f' :: r => some (Char.ofNat 12, r)
  | 'r' :: r => some ('\r', r)
  | '"' :: r => some ('"', r)
  | '\\' :: r => some ('\\', r)
  | 'u' :: r =>
    if (r.take 4).length = 4 then (codePoint? (r.take 4)).map (fun c => (c, r.drop 4)) else none
  | 'U' :: r =>
    if (r.take 8).length = 8 then (codePoint? (r.take 8)).map (fun c => (c, r.drop 8)) else none
  | _ => none

abbrev Text := String × List Char

/-- The rest of a basic string on one line. -/
def basicRest : Nat → List Char → List Char → Option Text
  | 0, _, _ => none
  | fuel + 1, seen, s =>
    match s with
    | '"' :: r => some (String.ofList seen.reverse, r)
    | '\\' :: r =>
      match escape? r with
      | some (c, r') => basicRest fuel (c :: seen) r'
      | none => none
    | c :: r => if isPlain c then basicRest fuel (c :: seen) r else none
    | [] => none

def literalRest (s : List Char) : Option Text :=
  match s.span (fun c => isPlain c && c ≠ '\'') with
  | (body, '\'' :: r) => some (String.ofList body, r)
  | _ => none

/-- A run of at least three quotes closes a long string; up to two of them belong to it. -/
def closing? (quote : Char) (seen s : List Char) : Option Text :=
  let run := s.takeWhile (· = quote)
  let own := min (run.length - 3) 2
  if 3 ≤ run.length then
    some (String.ofList (List.replicate own quote ++ seen).reverse, s.drop (own + 3))
  else none

def skipLines : Nat → List Char → List Char
  | 0, s => s
  | fuel + 1, s =>
    match newline? (skipSpace s) with
    | some r => skipLines fuel r
    | none => skipSpace s

/-- What follows a backslash at the end of a line: all blanks and line ends are dropped. -/
def continued? (s : List Char) : Option (List Char) :=
  (newline? (skipSpace s)).map (fun r => skipLines (r.length + 1) r)

def longBasicRest : Nat → List Char → List Char → Option Text
  | 0, _, _ => none
  | fuel + 1, seen, s =>
    match closing? '"' seen s with
    | some t => some t
    | none =>
      match newline? s with
      | some r => longBasicRest fuel ('\n' :: seen) r
      | none =>
        match s with
        | '\\' :: r =>
          match continued? r with
          | some r' => longBasicRest fuel seen r'
          | none =>
            match escape? r with
            | some (c, r') => longBasicRest fuel (c :: seen) r'
            | none => none
        | c :: r => if isPlain c then longBasicRest fuel (c :: seen) r else none
        | [] => none

def longLiteralRest : Nat → List Char → List Char → Option Text
  | 0, _, _ => none
  | fuel + 1, seen, s =>
    match closing? '\'' seen s with
    | some t => some t
    | none =>
      match newline? s with
      | some r => longLiteralRest fuel ('\n' :: seen) r
      | none =>
        match s with
        | c :: r => if isPlain c then longLiteralRest fuel (c :: seen) r else none
        | [] => none

/-- A line end right after the opening quotes of a long string is no part of it. -/
def afterOpening (s : List Char) : List Char := (newline? s).getD s

/-! ### Keys -/

def isBareKey (c : Char) : Bool :=
  isDigit c || ('a' ≤ c && c ≤ 'z') || ('A' ≤ c && c ≤ 'Z') || c = '_' || c = '-'

def simpleKey? (s : List Char) : Option Text :=
  match s with
  | '"' :: r => basicRest s.length [] r
  | '\'' :: r => literalRest r
  | _ =>
    match s.span isBareKey with
    | ([], _) => none
    | (body, r) => some (String.ofList body, r)

/-- A dotted key, as the parts before its last one and that one. -/
def key? : Nat → List Char → Option (List String × String × List Char)
  | 0, _ => none
  | fuel + 1, s =>
    match simpleKey? (skipSpace s) with
    | none => none
    | some (part, r) =>
      match skipSpace r with
      | '.' :: r' => (key? fuel r').map (fun k => (part :: k.1, k.2.1, k.2.2))
      | r' => some ([], part, r')

/-! ### Values -/

def isScalarChar (c : Char) : Bool := isBareKey c || c = '+' || c = '.' || c = ':'

/-- A scalar and what follows it. One blank may stand between the date and the time of a
date-time. -/
def scalarHere? (s : List Char) : Option (Toml × List Char) :=
  let (word, r) := s.span isScalarChar
  let date? := match r with
    | ' ' :: r' =>
      let (time, r'') := r'.span isScalarChar
      (dateTime? (word ++ ' ' :: time)).map (fun v => (v, r''))
    | _ => none
  match date? with
  | some found => some found
  | none => (scalar? word).map (fun v => (v, r))

mutual

def value? : Nat → List Char → Option (Toml × List Char)
  | 0, _ => none
  | fuel + 1, s =>
    match s with
    | '"' :: '"' :: '"' :: r =>
      (longBasicRest (s.length + 1) [] (afterOpening r)).map (fun t => (.string t.1, t.2))
    | '"' :: r => (basicRest s.length [] r).map (fun t => (.string t.1, t.2))
    | '\'' :: '\'' :: '\'' :: r =>
      (longLiteralRest (s.length + 1) [] (afterOpening r)).map (fun t => (.string t.1, t.2))
    | '\'' :: r => (literalRest r).map (fun t => (.string t.1, t.2))
    | '[' :: r => (items? fuel r).map (fun p => (.array p.1, p.2))
    | '\x7b' :: r =>
      match skipSpace r with
      | '\x7d' :: r' => some (.table [], r')
      | _ =>
        match pairs? fuel r with
        | some (ps, r') => (inlineTable? ps).map (fun v => (v, r'))
        | none => none
    | _ => scalarHere? s

/-- The values of an array up to its closing bracket; a comma may follow the last one. -/
def items? : Nat → List Char → Option (List Toml × List Char)
  | 0, _ => none
  | fuel + 1, s =>
    match skipFiller (s.length + 1) s with
    | ']' :: r => some ([], r)
    | s' =>
      match value? fuel s' with
      | none => none
      | some (v, r) =>
        match skipFiller (r.length + 1) r with
        | ',' :: r' => (items? fuel r').map (fun p => (v :: p.1, p.2))
        | ']' :: r' => some ([v], r')
        | _ => none

/-- The pairs of an inline table up to its closing brace; no comma follows the last one. -/
def pairs? : Nat → List Char → Option (List (List String × String × Toml) × List Char)
  | 0, _ => none
  | fuel + 1, s =>
    match key? (s.length + 1) s with
    | some (path, key, '=' :: r) =>
      match value? fuel (skipSpace r) with
      | none => none
      | some (v, r) =>
        match skipSpace r with
        | ',' :: r' => (pairs? fuel r').map (fun p => ((path, key, v) :: p.1, p.2))
        | '\x7d' :: r' => some ([(path, key, v)], r')
        | _ => none
    | _ => none

end

/-! ### Statements -/

def statement? (fuel : Nat) (s : List Char) : Option (Statement × List Char) :=
  match s with
  | '[' :: '[' :: r =>
    match key? fuel r with
    | some (path, key, ']' :: ']' :: r') => some (.element path key, r')
    | _ => none
  | '[' :: r =>
    match key? fuel r with
    | some (path, key, ']' :: r') => some (.header path key, r')
    | _ => none
  | _ =>
    match key? fuel s with
    | some (path, key, '=' :: r) =>
      (value? fuel (skipSpace r)).map (fun p => (.pair path key p.1, p.2))
    | _ => none

def statements : Nat → Document → List Char → Option Document
  | 0, _, _ => none
  | fuel + 1, d, s =>
    match skipSpace s with
    | [] => some d
    | '#' :: r =>
      match lineEnd? ('#' :: r) with
      | some r' => statements fuel d r'
      | none => none
    | r =>
      match newline? r with
      | some r' => statements fuel d r'
      | none =>
        match statement? (r.length + 1) r with
        | none => none
        | some (st, r') =>
          match d.add st, lineEnd? r' with
          | some d', some r'' => statements fuel d' r''
          | _, _ => none

def withoutMark (s : List Char) : List Char :=
  match s with
  | c :: r => if c.toNat = 0xFEFF then r else s
  | [] => []

/-- The table of a document, without a byte order mark at its front. -/
def parse? (text : String) : Option Toml :=
  let s := withoutMark text.toList
  (statements (s.length + 1) .start s).map (fun d => .table (entryValues d.entries))

end Testbed.Toml
