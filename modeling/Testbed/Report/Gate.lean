import Testbed.Report.Basic

/-! The verdict on a run: it passes when every environment succeeded, and each that did not is one
violation. -/
namespace Testbed

structure Verdict where
  passed : Bool
  violations : List String
  message : String
deriving DecidableEq, Repr

namespace Verdict

def reason (r : EnvResult) : String :=
  match r.failure, r.status with
  | some failure, _ => failure
  | none, .skipped => "not started"
  | none, _ => s!"{r.failedCount} command(s) failed"

def violation (r : EnvResult) : String :=
  s!"Environment '{r.name}' {r.status.category}: {reason r}"

def ofReport (r : Report) : Verdict :=
  let violations := (r.environments.filter (fun e => !e.succeeded)).map violation
  let total := r.environments.length
  if violations.isEmpty then ⟨true, [], s!"All {total} environment(s) succeeded"⟩
  else ⟨false, violations, s!"{violations.length} of {total} environment(s) did not succeed"⟩

end Verdict

end Testbed
