import Testbed.Text.Blank
import Testbed.Text.Replace

/-! Options of a command line: how they are written, what values they take, and how a list of
arguments is read against them. Short options may be joined and may carry their value; a long one
carries its value after an equals sign or takes the next argument. Reading stops at the first fault,
at a word that is no option, or at the mark after which everything is taken as it stands. -/
namespace Testbed.CommandLine

/-- What an option takes. -/
inductive OptionKind where
  | switch
  | text
  /-- A path, which is not empty. -/
  | path
  | count
  /-- Asks for help instead. -/
  | help
  /-- Asks for the version instead. -/
  | version
deriving DecidableEq, Repr

def OptionKind.isValued : OptionKind → Bool
  | .text | .path | .count => true
  | .switch | .help | .version => false

structure OptionSpec where
  long : String
  short : Option Char
  kind : OptionKind
  /-- Whether it may be given more than once. -/
  many : Bool
deriving DecidableEq, Repr

/-- Why reading the arguments does not lead to a command that is carried out. -/
inductive Halt where
  | usage
  | help (topic : Option String)
  | version
deriving DecidableEq, Repr

/-- What was given, by long names, in the order of the arguments. -/
abbrev Given := List (String × String)

namespace Given

def values (g : Given) (name : String) : List String :=
  (g.filter (fun v => v.1 == name)).map Prod.snd

def has (g : Given) (name : String) : Bool := g.any (fun v => v.1 == name)

end Given

/-! ### Values -/

/-- The largest count. -/
def maxCount : Nat := UInt64.size - 1

/-- A count: digits, with a plus sign in front or without. -/
def count? (s : String) : Option Nat :=
  let digits := match s.toList with
    | '+' :: ds => ds
    | ds => ds
  if digits.isEmpty || !digits.all Char.isDigit then none
  else
    let n := digits.foldl (fun n c => 10 * n + (c.toNat - 48)) 0
    if n ≤ maxCount then some n else none

def OptionKind.accepts (k : OptionKind) (value : String) : Bool :=
  match k with
  | .path => !value.isEmpty
  | .count => (count? value).isSome
  | _ => true

/-- Adds one occurrence of an option. -/
def record (spec : OptionSpec) (value : String) (g : Given) : Except Halt Given :=
  match spec.kind with
  | .help => .error (.help none)
  | .version => .error .version
  | kind =>
    if (g.has spec.long && !spec.many) || !kind.accepts value then .error .usage
    else .ok (g ++ [(spec.long, value)])

/-! ### One argument -/

/-- What one argument adds, and the option that still wants its value. -/
abbrev Read := Except Halt (Given × Option OptionSpec)

def findShort? (specs : List OptionSpec) (c : Char) : Option OptionSpec :=
  specs.find? (fun s => s.short == some c)

def findLong? (specs : List OptionSpec) (name : String) : Option OptionSpec :=
  specs.find? (fun s => s.long == name)

def done (r : Except Halt Given) : Read := r.map (fun g => (g, none))

/-- Short options that are joined in one argument. -/
def readShort (specs : List OptionSpec) (g : Given) : List Char → Read
  | [] => .ok (g, none)
  | c :: rest =>
    match findShort? specs c with
    | none => .error .usage
    | some spec =>
      if spec.kind.isValued then
        match rest with
        | [] => .ok (g, some spec)
        | '=' :: value => done (record spec (String.ofList value) g)
        | value => done (record spec (String.ofList value) g)
      else
        match record spec "" g with
        | .ok g' => readShort specs g' rest
        | .error e => .error e

/-- A long option, without the dashes in front. -/
def readLong (specs : List OptionSpec) (g : Given) (text : List Char) : Read :=
  let name := text.takeWhile (· ≠ '=')
  match findLong? specs (String.ofList name), text.drop name.length with
  | none, _ => .error .usage
  | some spec, [] =>
    if spec.kind.isValued then .ok (g, some spec) else done (record spec "" g)
  | some spec, _ :: value =>
    if spec.kind.isValued then done (record spec (String.ofList value) g) else .error .usage

/-- Arguments by their look. -/
inductive Shape where
  | word
  | joined (letters : List Char)
  | long (text : List Char)
  | mark
deriving DecidableEq, Repr

def shape (arg : String) : Shape :=
  match arg.toList with
  | ['-', '-'] => .mark
  | '-' :: '-' :: text => .long text
  | '-' :: c :: letters => .joined (c :: letters)
  | _ => .word

/-! ### All arguments -/

/-- What a list of arguments gave, and what stopped the reading. -/
structure Reading where
  given : Given
  /-- The arguments after the mark, if it was there. -/
  trailing : Option (List String)
  /-- The first word and the arguments after it. -/
  word : Option (String × List String)
deriving DecidableEq, Repr

/-- Reads arguments; `waiting` is the option whose value comes next. -/
def read (specs : List OptionSpec) : Given → Option OptionSpec → List String → Except Halt Reading
  | g, none, [] => .ok ⟨g, none, none⟩
  | _, some _, [] => .error .usage
  | g, some spec, arg :: rest =>
    match shape arg with
    | .word =>
      match record spec arg g with
      | .ok g' => read specs g' none rest
      | .error e => .error e
    | _ => .error .usage
  | g, none, arg :: rest =>
    match shape arg with
    | .word => .ok ⟨g, none, some (arg, rest)⟩
    | .mark => .ok ⟨g, some rest, none⟩
    | .joined letters =>
      match readShort specs g letters with
      | .ok (g', waiting) => read specs g' waiting rest
      | .error e => .error e
    | .long text =>
      match readLong specs g text with
      | .ok (g', waiting) => read specs g' waiting rest
      | .error e => .error e

end Testbed.CommandLine
