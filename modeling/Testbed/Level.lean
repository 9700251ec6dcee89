/-! Levels of log lines, from the most to the least severe. -/
namespace Testbed

inductive Level where
  | error
  | warn
  | info
  | debug
  | trace
deriving DecidableEq, Repr, Inhabited

namespace Level

def label : Level → String
  | .error => "ERROR"
  | .warn => "WARN"
  | .info => "INFO"
  | .debug => "DEBUG"
  | .trace => "TRACE"

def rank : Level → Nat
  | .error => 1
  | .warn => 2
  | .info => 3
  | .debug => 4
  | .trace => 5

/-- The level that two switches ask for; the one for more output wins. -/
def ofSwitches (verbose quiet : Bool) : Level :=
  if verbose then .debug else if quiet then .error else .warn

end Level

end Testbed
