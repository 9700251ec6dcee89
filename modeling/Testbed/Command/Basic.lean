import Testbed.Command.Words

/-! A command of an environment: its argument vector, whether its program may come from the ambient
system, and the packages it relies on. -/
namespace Testbed

structure Command where
  argv : List String
  external : Bool
  requires : List String
deriving DecidableEq, Repr, Inhabited

namespace Command

def ofArgv (argv : List String) : Command := ⟨argv, false, []⟩

/-- The empty text when there is no argument. -/
def program (c : Command) : String := c.argv.headD ""

def args (c : Command) : List String := c.argv.tail

def displayArgv (argv : List String) : String :=
  String.ofList (displayWords (argv.map String.toList))

def display (c : Command) : String := displayArgv c.argv

inductive LineError where
  | unbalanced (line : String)
  | empty
deriving DecidableEq, Repr

def LineError.reason : LineError → String
  | .unbalanced line => s!"unbalanced quoting in `{line}`"
  | .empty => "empty command"

/-- The argument vector that a command line stands for. -/
def splitLine (line : String) : Except LineError (List String) :=
  match splitWords? line.toList with
  | none => .error (.unbalanced line)
  | some [] => .error .empty
  | some (w :: ws) => .ok ((w :: ws).map String.ofList)

def ofLine (line : String) : Except LineError Command := (splitLine line).map ofArgv

end Command

end Testbed
