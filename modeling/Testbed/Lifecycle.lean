/-! The life of one environment within a run, and the edges it may take. -/
namespace Testbed

inductive Lifecycle where
  | pending
  | provisioning
  | running
  | succeeded
  | failed
  | provisionFailed
  | skipped
deriving DecidableEq, Repr, Inhabited

namespace Lifecycle

def label : Lifecycle → String
  | .pending => "pending"
  | .provisioning => "provisioning"
  | .running => "running"
  | .succeeded => "succeeded"
  | .failed => "failed"
  | .provisionFailed => "provision_failed"
  | .skipped => "skipped"

def ofLabel? (s : String) : Option Lifecycle :=
  [pending, provisioning, running, succeeded, failed, provisionFailed, skipped].find?
    (fun l => l.label == s)

def allows : Lifecycle → Lifecycle → Bool
  | .pending, .provisioning | .pending, .skipped
  | .provisioning, .running | .provisioning, .provisionFailed
  | .running, .succeeded | .running, .failed => true
  | _, _ => false

structure InvalidTransition where
  origin : Lifecycle
  target : Lifecycle
deriving DecidableEq, Repr

def InvalidTransition.message (e : InvalidTransition) : String :=
  s!"invalid environment state transition: {e.origin.label} -> {e.target.label}"

def transition (s t : Lifecycle) : Except InvalidTransition Lifecycle :=
  if s.allows t then .ok t else .error ⟨s, t⟩

def isTerminal : Lifecycle → Bool
  | .succeeded | .failed | .provisionFailed | .skipped => true
  | _ => false

/-- The heading under which a summary counts the environment. -/
def category : Lifecycle → String
  | .succeeded => "succeeded"
  | .failed => "failed (commands)"
  | .provisionFailed => "failed (provisioning/config)"
  | .skipped => "skipped"
  | .pending | .provisioning | .running => "incomplete"

end Lifecycle

end Testbed
