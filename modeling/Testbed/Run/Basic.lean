import Testbed.Run.Crew
import Testbed.Selection

/-! A whole run: check the options, resolve the selection, run the environments one after the other
or side by side, and report on every one of them. -/
namespace Testbed

/-- What one run overrides in the configuration. -/
structure RunOptions where
  parallel : Option Nat
  continueOnError : Option Bool
  keepEnvs : Option Bool
  posargs : List String
deriving DecidableEq, Repr

inductive RunError where
  | unknownEnvironment (name : String)
  | noParallelism
deriving DecidableEq, Repr

def RunError.message : RunError → String
  | .unknownEnvironment name => s!"unknown environment '{name}'"
  | .noParallelism => "invalid run options: parallel must be at least 1"

namespace Run

inductive Ending where
  /-- Turned down before anything was done. -/
  | refused (cause : RunError)
  /-- Broken off without a report: the permits could not be made, or a task died that nobody
  outlives. -/
  | broken
  | reported (r : Report)
deriving DecidableEq, Repr

/-- Where a run stands. -/
inductive Stand where
  | ended (e : Ending)
  | going (c : Crew)
deriving DecidableEq, Repr

def parallelism (c : Config) (o : RunOptions) : Nat := o.parallel.getD c.settings.parallel

def provisioner (c : Config) (o : RunOptions) : Provisioner :=
  ⟨c.settings.workDir, c.root, o.keepEnvs.getD c.settings.keepEnvs, c.settings.okCodes⟩

/-- The selected environments with the overrides of the run. -/
def specs (c : Config) (s : Selection) (o : RunOptions) : Except String (List EnvSpec) :=
  (s.resolve c).map (fun found => found.map (fun spec =>
    { spec with continueOnError := o.continueOnError.getD spec.continueOnError }))

def isSerial (permits : Nat) (specs : List EnvSpec) : Bool := permits == 1 || specs.length ≤ 1

/-- The environments before anything was done for them. -/
def gather (permits : Nat) (specs : List EnvSpec) : Stand :=
  if isSerial permits specs then .going (.row (.start specs))
  else if permits ≤ Pool.maxPermits then .going (.pool (.start permits specs))
  else .ended .broken

/-- Nothing is done before the options and the selection are found good. -/
def begin (c : Config) (s : Selection) (o : RunOptions) (w : World) : Stand × World :=
  let permits := parallelism c o
  if permits = 0 then (.ended (.refused .noParallelism), w)
  else
    match specs c s o with
    | .error name => (.ended (.refused (.unknownEnvironment name)), w)
    | .ok found =>
      (gather permits found, w.emit (.runStarted (found.map EnvSpec.name) permits))

def sayCasualties (w : World) : Nat → World
  | 0 => w
  | n + 1 => sayCasualties (w.note .warn none "Environment task aborted") n

/-- Reports on the environments once nothing more comes of them; the run started in the world
`origin`. -/
def conclude (runId : Uuid) (origin : World) (c : Crew) (w : World) : Stand × World :=
  if c.isBroken then (.ended .broken, w)
  else if c.isOver then
    let w' := sayCasualties w c.casualties
    let report := Report.ofResults runId origin.date (w'.clock - origin.clock) c.results
    (.ended (.reported report), w'.emit (.runFinished c.results.length report.exitCode))
  else (.going c, w)

/-- As many rounds as a run can take. -/
def bound (c : Config) (s : Selection) (o : RunOptions) : Nat :=
  match specs c s o with
  | .ok found => Crew.bound found
  | .error _ => 0

/-- Runs the environments in rounds until the run has ended, or nothing moves any more. -/
def run (f : Facilities) (c : Config) (s : Selection) (o : RunOptions) (runId : Uuid) (w : World) :
    Stand × World :=
  match begin c s o w with
  | (.going crew, w') =>
    let (crew', w'') := crew.drive f (bound c s o) w'
    conclude runId w crew' w''
  | (.ended e, w') => (.ended e, w')

end Run

end Testbed
