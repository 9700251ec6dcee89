import Testbed.Path

/-! Why a command did not start. -/
namespace Testbed

inductive CommandError where
  | notFound (program hint : String)
  | launchFailed (program : Path) (reason : String)
  | empty
deriving DecidableEq, Repr

def CommandError.message : CommandError → String
  | .notFound program hint => s!"executable '{program}' not found: {hint}"
  | .launchFailed program reason => s!"failed to launch '{program.text}': {reason}"
  | .empty => "command has no program"

end Testbed
