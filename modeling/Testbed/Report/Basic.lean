import Testbed.Lifecycle
import Testbed.Timestamp
import Testbed.Uuid

/-! Results of commands, of environments and of a whole run. -/
namespace Testbed

/-- How a declared command ended. -/
inductive CommandStatus where
  | passed
  | failed
  | timedOut
  | cancelled
  /-- It never started. -/
  | skipped
  /-- It could not be resolved or launched. -/
  | error
deriving DecidableEq, Repr, Inhabited

namespace CommandStatus

def label : CommandStatus → String
  | .passed => "passed"
  | .failed => "failed"
  | .timedOut => "timed_out"
  | .cancelled => "cancelled"
  | .skipped => "skipped"
  | .error => "error"

/-- The name in capitals by which events and failures call it. -/
def title : CommandStatus → String
  | .passed => "Passed"
  | .failed => "Failed"
  | .timedOut => "TimedOut"
  | .cancelled => "Cancelled"
  | .skipped => "Skipped"
  | .error => "Error"

def ofLabel? (s : String) : Option CommandStatus :=
  [passed, failed, timedOut, cancelled, skipped, error].find? (fun c => c.label == s)

end CommandStatus

structure CommandOutcome where
  index : Nat
  display : String
  status : CommandStatus
  exitCode : Option Int
  durationMs : Nat
  stdout : String
  stderr : String
  /-- Why the command could not be resolved or launched. -/
  error : Option String
deriving DecidableEq, Repr

namespace CommandOutcome

def skipped (index : Nat) (display : String) : CommandOutcome :=
  ⟨index, display, .skipped, none, 0, "", "", none⟩

def errored (index : Nat) (display error : String) : CommandOutcome :=
  ⟨index, display, .error, none, 0, "", "", some error⟩

def isPassed (o : CommandOutcome) : Bool := o.status == .passed

def isSkipped (o : CommandOutcome) : Bool := o.status == .skipped

/-- It started, whatever came of it. -/
def isExecuted (o : CommandOutcome) : Bool := !(o.status == .skipped || o.status == .error)

end CommandOutcome

structure EnvResult where
  name : String
  status : Lifecycle
  outcomes : List CommandOutcome
  failure : Option String
  durationMs : Nat
deriving DecidableEq, Repr

namespace EnvResult

/-- The result of an environment that never started. -/
def skipped (name : String) : EnvResult := ⟨name, .skipped, [], none, 0⟩

def succeeded (r : EnvResult) : Bool := r.status == .succeeded

def passedCount (r : EnvResult) : Nat := r.outcomes.countP CommandOutcome.isPassed

/-- Commands that neither passed nor were skipped. -/
def failedCount (r : EnvResult) : Nat :=
  r.outcomes.countP (fun o => !o.isPassed && !o.isSkipped)

def skippedCount (r : EnvResult) : Nat := r.outcomes.countP CommandOutcome.isSkipped

def executedCount (r : EnvResult) : Nat := r.outcomes.countP CommandOutcome.isExecuted

end EnvResult

structure Report where
  runId : Uuid
  startedAt : Timestamp
  durationMs : Nat
  environments : List EnvResult
  exitCode : Int
deriving DecidableEq, Repr

namespace Report

/-- A report of results; it exits with zero when every environment succeeded. -/
def ofResults (runId : Uuid) (startedAt : Timestamp) (durationMs : Nat)
    (results : List EnvResult) : Report :=
  ⟨runId, startedAt, durationMs, results, if results.all EnvResult.succeeded then 0 else 1⟩

def succeeded (r : Report) : Bool := r.exitCode == 0

def names (r : Report) : List String := r.environments.map EnvResult.name

def get? (r : Report) (name : String) : Option EnvResult :=
  r.environments.find? (fun e => e.name == name)

end Report

end Testbed
