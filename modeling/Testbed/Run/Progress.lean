import Testbed.Config.Basic
import Testbed.Report.Basic

/-! The commands of one environment in order. The first outcome that did not pass is the failure of
the environment. It also stops the rest, unless the environment goes on after errors; a cancellation
always stops it. Every command gets an outcome, at its own index. -/
namespace Testbed

/-- Why an environment failed, by the outcome that made it fail. -/
def CommandOutcome.failureText (o : CommandOutcome) : String :=
  let name := "\x60" ++ o.display ++ "\x60"
  match o.error, o.status, o.exitCode with
  | some error, _, _ => s!"{name}: {error}"
  | none, .failed, some code => s!"{name} exited with code {code}"
  | none, .failed, none => s!"{name} was terminated by a signal"
  | none, .timedOut, _ => s!"{name} timed out"
  | none, .cancelled, _ => s!"{name} was cancelled"
  | none, status, _ => s!"{name} ended as {status.title}"

structure Progress where
  outcomes : List CommandOutcome
  failure : Option String
  stopped : Bool
deriving DecidableEq, Repr

namespace Progress

def start : Progress := ⟨[], none, false⟩

/-- The index of the next command. -/
def index (p : Progress) : Nat := p.outcomes.length

/-- Keeps the first failure. -/
def fail (p : Progress) (reason : String) : Progress :=
  { p with failure := some (p.failure.getD reason) }

def skip (p : Progress) (c : Command) : Progress :=
  { p with outcomes := p.outcomes ++ [.skipped p.index c.display] }

/-- A cancellation seen before a command. -/
def halt (p : Progress) : Progress := { p.fail "run cancelled" with stopped := true }

/-- Whether nothing more runs after an outcome. -/
def stopsAfter (continueOnError : Bool) (o : CommandOutcome) : Bool :=
  !o.isPassed && (o.status == .cancelled || !continueOnError)

def record (continueOnError : Bool) (p : Progress) (o : CommandOutcome) : Progress :=
  let q := if o.isPassed then p else p.fail o.failureText
  { q with
    outcomes := q.outcomes ++ [o]
    stopped := q.stopped || stopsAfter continueOnError o }

def status (p : Progress) : Lifecycle := if p.failure.isNone then .succeeded else .failed

end Progress

end Testbed
