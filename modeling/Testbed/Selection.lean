import Testbed.Config.Basic

/-! Which environments a run covers. A selection is resolved to declared environments, always in the
order of their declaration. -/
namespace Testbed

inductive Selection where
  | byDefault
  | all
  | named (names : List String)
deriving DecidableEq, Repr

namespace Selection

/-- The names in one argument: comma separated, trimmed, none empty. -/
def namesIn (arg : String) : List String :=
  (((Text.pieces (· == ',') arg.toList).map Text.trim).filter (fun n => !n.isEmpty)).map
    String.ofList

def ofArgs (args : List String) : Selection :=
  let names := args.flatMap namesIn
  if names.isEmpty then .byDefault
  else if names.contains Config.everything then .all
  else .named names

/-- The declared environments with one of the names. -/
def chosen (c : Config) (names : List String) : List EnvSpec :=
  c.environments.filter (fun spec => names.contains spec.name)

/-- Fails with the first name that is not declared. -/
def resolve (c : Config) : Selection → Except String (List EnvSpec)
  | .all => .ok c.environments
  | .byDefault => .ok (chosen c c.defaultSelection)
  | .named names =>
    match names.find? (fun name => (c.find? name).isNone) with
    | some unknown => .error unknown
    | none => .ok (chosen c names)

end Selection

end Testbed
