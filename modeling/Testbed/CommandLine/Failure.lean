import Testbed.Config.Basic
import Testbed.Run.Basic

/-! What is told of a failure of the program: what went wrong, and below it the causes, one indented
block each, numbered when there are several. -/
namespace Testbed.CommandLine

inductive Failure where
  | configuration (path : Path) (cause : Config.Error)
  | refusedRun (cause : RunError)
  | report (path : Path) (cause : Host.OsError)
  | unknownEnvironment (name : String)
deriving DecidableEq, Repr

namespace Failure

def message : Failure → String
  | .configuration path _ => "Failed to load configuration from " ++ Text.quoted path.text
  | .refusedRun _ => "Run could not start"
  | .report path _ => "Failed to write report to " ++ Text.quoted path.text
  | .unknownEnvironment name => s!"Unknown environment '{name}'"

/-- The causes, from the nearest to the farthest. -/
def causes : Failure → List String
  | .configuration _ cause =>
    cause.message ::
      (match cause with
      | .unreadable _ os => [os.message]
      | _ => [])
  | .refusedRun cause => [cause.message]
  | .report _ cause => [cause.message]
  | .unknownEnvironment _ => []

def indent (margin : String) (text : String) : String :=
  String.ofList (List.intercalate ('\n' :: margin.toList) (Text.pieces (· == '\n') text.toList))

/-- A block of a cause; `number` is its number when there are several. -/
def block (number : Option Nat) (text : String) : String :=
  match number with
  | none => "    " ++ indent "    " text
  | some n => s!"    {n}: " ++ indent "       " text

def blocks (causes : List String) : List String :=
  match causes with
  | [only] => [block none only]
  | _ => causes.mapIdx (fun i text => block (some i) text)

/-- The whole report of a failure. -/
def text (f : Failure) : String :=
  let head := "Error: " ++ f.message
  let lines := if f.causes.isEmpty then [head]
    else head :: "" :: "Caused by:" :: blocks f.causes
  "\n".intercalate lines ++ "\n"

end Failure

end Testbed.CommandLine
