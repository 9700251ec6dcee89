import Testbed.Journal
import Testbed.Text.Blank
import Testbed.Vars

/-! Which lines of the journal are logged. A variable that holds a list of directives decides, and
when it is not set or cannot be read the level that was asked for. A directive is a level or a
number for one, or it names a part of the program, and then it says nothing about the others. -/
namespace Testbed.CommandLine

def filterVariable : String := "RUST_LOG"

/-- What one directive sets: the level for everything, where none means silence, or something
else. -/
inductive Directive where
  | overall (level : Option Level)
  | partial_
deriving DecidableEq, Repr

def lowerText (cs : List Char) : String :=
  String.ofList (cs.map (fun c => if 'A' ≤ c ∧ c ≤ 'Z' then Char.ofNat (c.toNat + 32) else c))

/-- A level by its name in any case or by its number; zero and `off` stand for silence. -/
def levelOf? (cs : List Char) : Option (Option Level) :=
  match lowerText cs with
  | "off" | "0" => some none
  | "error" | "1" => some (some .error)
  | "warn" | "2" => some (some .warn)
  | "info" | "3" => some (some .info)
  | "debug" | "4" => some (some .debug)
  | "trace" | "5" => some (some .trace)
  | _ => none

def isTargetChar (c : Char) : Bool := c.isAlphanum || c = '_' || c = ':' || c = '-'

/-- A directive for a part: its name, a span in brackets, or both, and then perhaps a level. -/
def isPartial (cs : List Char) : Bool :=
  let name := cs.takeWhile isTargetChar
  let rest := cs.drop name.length
  let (span, rest) := match rest with
    | '[' :: r =>
      match r.dropWhile (· ≠ ']') with
      | _ :: r' => (true, r')
      | [] => (false, rest)
    | _ => (false, rest)
  (!name.isEmpty || span) &&
    match rest with
    | [] => true
    | '=' :: level => level.isEmpty || (levelOf? level).isSome
    | _ => false

def directive? (cs : List Char) : Option Directive :=
  match levelOf? cs with
  | some level => some (.overall level)
  | none => if isPartial cs then some .partial_ else none

/-- The level that a list of directives leaves in force: the last one for everything. Without any
directive at all only errors are logged. -/
def levelInForce (ds : List Directive) : Option Level :=
  if ds.isEmpty then some .error
  else
    ds.foldl (fun level d =>
      match d with
      | .overall level' => level'
      | .partial_ => level) none

/-- Reads a list of directives that commas separate. -/
def directives? (text : String) : Option (List Directive) :=
  ((Text.pieces (· == ',') text.toList).filter (fun cs => !cs.isEmpty)).mapM
    (fun cs => directive? (Text.trim cs))

/-- The level in force; none means silence. -/
def logLevel (vars : Vars) (asked : Level) : Option Level :=
  match (vars.get? filterVariable).bind directives? with
  | some ds => levelInForce ds
  | none => some asked

/-- The span of an environment is at this level, and unknown to lines logged below it. -/
def spanLevel : Level := .info

/-- A line of the log. -/
structure LogLine where
  level : Level
  what : String
  env : Option String
  span : Option String
deriving DecidableEq, Repr

/-- The lines of a journal that are logged at a level. -/
def logged (level : Option Level) (j : Journal) : List LogLine :=
  match level with
  | none => []
  | some level =>
    (j.shownAt level).map (fun line =>
      ⟨line.remark.level, line.remark.what, line.remark.env?,
        if spanLevel.rank ≤ level.rank then line.span else none⟩)

end Testbed.CommandLine
