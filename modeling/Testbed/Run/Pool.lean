import Testbed.Run.Task

/-! Environments side by side. Each has a job that takes a permit, runs its task and sends the
result together with its index; a task that dies sends nothing. Which job moves next is up to a
schedule, and the results are put back in order by their indexes. -/
namespace Testbed

inductive Job where
  | queued
  | active (t : Task)
  | reporting (r : EnvResult)
  /-- Its result was sent. -/
  | closed
  /-- It will never send one. -/
  | dead
deriving DecidableEq, Repr

/-- Whether the job holds a permit. -/
def Job.inFlight : Job → Bool
  | .active _ | .reporting _ => true
  | .queued | .closed | .dead => false

/-- Whether nothing more comes of the job. -/
def Job.isOver : Job → Bool
  | .closed | .dead => true
  | .queued | .active _ | .reporting _ => false

structure Pool where
  permits : Nat
  specs : List EnvSpec
  jobs : List Job
  /-- Results in the order in which they were sent. -/
  sent : List (Nat × EnvResult)
deriving DecidableEq, Repr

namespace Pool

/-- No more permits than this can be made. -/
def maxPermits : Nat := (UInt64.size - 1) >>> 3

def start (permits : Nat) (specs : List EnvSpec) : Pool :=
  ⟨permits, specs, specs.map (fun _ => .queued), []⟩

def inFlight (p : Pool) : Nat := p.jobs.countP Job.inFlight

def setJob (p : Pool) (i : Nat) (job : Job) : Pool := { p with jobs := p.jobs.set i job }

/-! ### Turns -/

def turnActive (f : Facilities) (p : Pool) (w : World) (i : Nat) (t : Task) : Turn Pool :=
  match t.phase with
  | .finished r => .moved (p.setJob i (.reporting r)) w
  | .aborted => .moved (p.setJob i .dead) w
  | _ => (t.step f w).map (fun t' => p.setJob i (.active t'))

/-- The next step of a job. -/
def turn (f : Facilities) (p : Pool) (w : World) (i : Nat) : Turn Pool :=
  match p.jobs[i]?, p.specs[i]? with
  | some .queued, some spec =>
    if p.inFlight < p.permits then .moved (p.setJob i (.active (Task.start spec w))) w
    else .blocked none
  | some (.active t), _ => turnActive f p w i t
  | some (.reporting r), _ => .moved { p.setJob i .closed with sent := p.sent ++ [(i, r)] } w
  | _, _ => .blocked none

def isOver (p : Pool) : Bool := p.jobs.all Job.isOver

/-! ### Results -/

def slot? (p : Pool) (i : Nat) : Option EnvResult :=
  (p.sent.reverse.find? (fun m => m.1 == i)).map Prod.snd

/-- One result for each environment, in their order. -/
def results (p : Pool) : List EnvResult :=
  p.specs.mapIdx (fun i spec => (p.slot? i).getD (.aborted spec.name))

/-- The number of jobs that ended without a result. -/
def casualties (p : Pool) : Nat := p.jobs.countP (· == .dead)

end Pool

end Testbed
