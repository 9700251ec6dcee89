import Testbed.Level
import Testbed.Report.Basic
import Testbed.Text.Quoted

/-! What a run says while it goes on: the events of its lifecycle, and notes in between. -/
namespace Testbed

/-- The events of a run, with what each tells. -/
inductive Event where
  | runStarted (environments : List String) (parallel : Nat)
  | provisioned (env digest : String)
  | provisionFailed (env error : String)
  | commandFinished (env : String) (index : Nat) (command : String) (status : CommandStatus)
      (exitCode : Option Int)
  | teardownError (env error : String)
  | envFinished (env : String) (status : Lifecycle) (passed failed skipped : Nat)
  | runFinished (environments : Nat) (exitCode : Int)
deriving DecidableEq, Repr

namespace Event

def level : Event → Level
  | .provisionFailed .. | .teardownError .. => .warn
  | _ => .info

def name : Event → String
  | .runStarted .. => "run.started"
  | .provisioned .. => "env.provisioned"
  | .provisionFailed .. => "env.provision_failed"
  | .commandFinished .. => "command.finished"
  | .teardownError .. => "env.teardown_error"
  | .envFinished .. => "env.finished"
  | .runFinished .. => "run.finished"

/-- The environment that the event is about. -/
def env? : Event → Option String
  | .provisioned env _ | .provisionFailed env _ | .commandFinished env .. | .teardownError env _
  | .envFinished env .. => some env
  | .runStarted .. | .runFinished .. => none

/-- What is said of a command once its outcome is there. -/
def ofOutcome (env : String) (o : CommandOutcome) : Event :=
  .commandFinished env o.index o.display o.status o.exitCode

/-- What is said of an environment once its result is there. -/
def ofResult (r : EnvResult) : Event :=
  .envFinished r.name r.status r.passedCount r.failedCount r.skippedCount

end Event

/-- What is said between the events, of an environment or of none. -/
structure Note where
  level : Level
  env : Option String
  text : String
deriving DecidableEq, Repr

/-- One entry. -/
inductive Remark where
  | event (e : Event)
  | note (n : Note)
deriving DecidableEq, Repr

namespace Remark

def level : Remark → Level
  | .event e => e.level
  | .note n => n.level

/-- The event's name, or the note's text. -/
def what : Remark → String
  | .event e => e.name
  | .note n => n.text

def env? : Remark → Option String
  | .event e => e.env?
  | .note n => n.env

end Remark

/-- An entry and the environment whose turn it was made in. -/
structure JournalLine where
  span : Option String
  remark : Remark
deriving DecidableEq, Repr

abbrev Journal := List JournalLine

namespace Journal

def events (j : Journal) : List Event :=
  j.filterMap (fun line =>
    match line.remark with
    | .event e => some e
    | .note _ => none)

/-- The lines that are shown at a level. -/
def shownAt (level : Level) (j : Journal) : Journal :=
  j.filter (fun line => line.remark.level.rank ≤ level.rank)

end Journal

end Testbed
