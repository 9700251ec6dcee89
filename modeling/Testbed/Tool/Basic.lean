import Testbed.Host.Files
import Testbed.Vars
import Testbed.Text.Digit

/-! Programs of the system: what a call of one is given, and what it answers. A program reads its
input, changes files, writes to its two outputs, takes some time and ends with a status. -/
namespace Testbed.Tool

open Host (Location Tree OsError)

abbrev Bytes := List UInt8

/-- What standard input gives: some bytes and then its end, or zeros without end. -/
inductive Input where
  | data (bytes : Bytes)
  | zeros
deriving DecidableEq, Repr

structure Call where
  name : String
  args : List String
  vars : Vars
  cwd : Location
  tree : Tree
  input : Input

/-- Output goes to channel 1, complaints to channel 2. -/
structure Answer where
  tree : Tree
  writes : List (Nat × Bytes)
  status : Nat
  /-- In milliseconds. -/
  elapsed : Nat

namespace Answer

def quiet (c : Call) (status : Nat) : Answer := ⟨c.tree, [], status, 0⟩

def ofText (c : Call) (text : String) : Answer := ⟨c.tree, [(1, Text.encode text)], 0, 0⟩

def ofBytes (c : Call) (bytes : Bytes) : Answer := ⟨c.tree, [(1, bytes)], 0, 0⟩

/-- A complaint of the called program, as a line of its own. -/
def complain (c : Call) (text : String) (status : Nat) : Answer :=
  ⟨c.tree, [(2, Text.encode s!"{c.name}: {text}\n")], status, 0⟩

end Answer

/-- A complaint that ends by pointing to the help. -/
def withHint (c : Call) (text : String) : String :=
  s!"{text}\nTry '{c.name} --help' for more information."

def missing (c : Call) (what : String) : String := withHint c s!"missing {what}"

/-- One step over a list of operands: what is done to the tree, and the complaint if it failed. -/
abbrev FileStep := Tree → Except String Tree

/-- Takes the steps in order; each that fails leaves the tree and complains. -/
def eachStep (c : Call) : List FileStep → Answer
  | [] => .quiet c 0
  | step :: rest =>
    match step c.tree with
    | .ok tree => eachStep { c with tree := tree } rest
    | .error text =>
      let a := eachStep c rest
      { a with writes := (2, Text.encode s!"{c.name}: {text}\n") :: a.writes, status := 1 }

/-- The system's words for a cause, without its number. -/
def wording (cause : OsError) : String :=
  String.ofList ((cause.message.toList.reverse.dropWhile (· ≠ '(')).drop 2).reverse

def mapError (what : OsError → String) (r : Except OsError α) : Except String α :=
  match r with
  | .ok a => .ok a
  | .error e => .error (what e)

def quote (s : String) : String := "'" ++ s ++ "'"

/-! ### Options -/

/-- The letters in one argument, and the letter at its end that still wants its value. -/
def letters (valued : List Char) : List Char → List (Char × String) × Option Char
  | [] => ([], none)
  | c :: cs =>
    if valued.contains c then
      if cs.isEmpty then ([], some c) else ([(c, String.ofList cs)], none)
    else
      let (ls, last) := letters valued cs
      ((c, "") :: ls, last)

def optionsFrom (valued : List Char) :
    Option Char → List String → List (Char × String) × List String
  | some c, value :: rest =>
    let (more, operands) := optionsFrom valued none rest
    ((c, value) :: more, operands)
  | some c, [] => ([(c, "")], [])
  | none, [] => ([], [])
  | none, arg :: rest =>
    match arg.toList with
    | ['-', '-'] => ([], rest)
    | '-' :: c :: cs =>
      let (ls, last) := letters valued (c :: cs)
      let (more, operands) := optionsFrom valued last rest
      (ls ++ more, operands)
    | _ => ([], arg :: rest)

/-- Letters of the leading options and the operands after them. An option in `valued` takes the rest
of its argument or the next one as its value. -/
def options (valued : List Char) (args : List String) : List (Char × String) × List String :=
  optionsFrom valued none args

def has (opts : List (Char × String)) (c : Char) : Bool := opts.any (fun o => o.1 == c)

def valueOf? (opts : List (Char × String)) (c : Char) : Option String :=
  (opts.find? (fun o => o.1 == c)).map Prod.snd

/-! ### Numbers -/

def isDigits (cs : List Char) : Bool := !cs.isEmpty && cs.all Char.isDigit

def natOf (cs : List Char) : Nat := Text.numberIn 10 cs

def nat? (s : String) : Option Nat := if isDigits s.toList then some (natOf s.toList) else none

/-- A decimal integer with an optional sign and blanks around it. -/
def int? (s : String) : Option Int :=
  let isSpace (c : Char) : Bool := c = ' ' || c = '\t' || c = '\n'
  let cs := ((s.toList.dropWhile isSpace).reverse.dropWhile isSpace).reverse
  match cs with
  | '-' :: ds => if isDigits ds then some (-(natOf ds : Int)) else none
  | '+' :: ds => if isDigits ds then some (natOf ds) else none
  | ds => if isDigits ds then some (natOf ds) else none

end Testbed.Tool
