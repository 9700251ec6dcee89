import Testbed.Run.Basic

/-! Runs under any schedule. A move lets a job take its turn, lets time pass, raises the
cancellation, changes the host from outside, kills a task or lets a call that was given up take
effect; each turn brings facilities of its own, so nothing that is installed or started need behave
alike twice. A cancellation that comes while something else is ready may be overlooked once. -/
namespace Testbed

inductive Move where
  | turn (f : Facilities) (i : Nat)
  /-- A turn that overlooks the cancellation. -/
  | race (f : Facilities) (i : Nat)
  | wait (ms : Nat)
  | cancel
  | meddle (host : Host)
  | kill (f : Facilities) (i : Nat)
  /-- One of the calls that are adrift takes effect. -/
  | land (k : Nat)

/-- Moves without end. -/
abbrev Schedule := Nat → Move

/-- The moves of a schedule before a moment. -/
def Schedule.before (σ : Schedule) (n : Nat) : List Move := (List.range n).map σ

namespace World

def wait (w : World) (ms : Nat) : World := { w with clock := w.clock + ms }

/-- As it looks to someone who does not notice the cancellation. -/
def unaware (w : World) : World := { w with cancelled := false }

end World

/-! ### Tasks that die -/

/-- What a task leaves behind goes with it. -/
def Task.drop (f : Facilities) (t : Task) (w : World) : World :=
  match t.phase with
  | .provisioning s =>
    match s.stage with
    | .ready => (s.context f.provisioner).drop w
    | _ => s.abandon f.provisioner w
  | .commands c _ | .awaiting c _ _ => c.drop w
  | .closing c _ => c.drop (w.abandon c.call?)
  | .fresh | .finished _ | .aborted => w

/-- A task that has its result is beyond that. -/
def Row.kill (f : Facilities) (r : Row) (w : World) : Row × World :=
  match r.current with
  | some t =>
    match t.phase with
    | .finished _ | .aborted => (r, w)
    | _ => ({ r with current := some { t with phase := .aborted } }, t.drop f w)
  | none => (r, w)

/-- Only what has not been sent is lost. -/
def Pool.kill (f : Facilities) (p : Pool) (w : World) (i : Nat) : Pool × World :=
  match p.jobs[i]? with
  | some .queued | some (.reporting _) => (p.setJob i .dead, w)
  | some (.active t) => (p.setJob i .dead, t.drop f w)
  | some .closed | some .dead | none => (p, w)

/-! ### Moves -/

/-- Whether the task waits for something that it would not mind to get in spite of a
cancellation. -/
def Task.races (t : Task) : Bool :=
  match t.phase with
  | .provisioning _ | .awaiting .. => true
  | _ => false

namespace Crew

/-- The task that moves when a job takes its turn. -/
def task? (c : Crew) (i : Nat) : Option Task :=
  match c with
  | .row r => r.current
  | .pool p =>
    match p.jobs[i]? with
    | some (.active t) => some t
    | _ => none

/-- A turn that is not blocked. -/
def go (f : Facilities) (c : Crew) (w : World) (i : Nat) : Crew × World :=
  match c.turn f w i with
  | .moved c' w' => (c', w')
  | .blocked _ => (c, w)

def kill (f : Facilities) (c : Crew) (w : World) (i : Nat) : Crew × World :=
  match c with
  | .row r => (.row (r.kill f w).1, (r.kill f w).2)
  | .pool p => (.pool (p.kill f w i).1, (p.kill f w i).2)

def make (c : Crew) (w : World) : Move → Crew × World
  | .turn f i => c.go f w i
  | .race f i =>
    if (c.task? i).any Task.races then
      ((c.go f w.unaware i).1, (c.go f w.unaware i).2.cancelIf w.cancelled)
    else (c, w)
  | .wait ms => (c, w.wait ms)
  | .cancel => (c, w.cancel)
  | .meddle host => (c, { w with host := host })
  | .kill f i => c.kill f w i
  | .land k => (c, w.land k)

def after (c : Crew) (w : World) (moves : List Move) : Crew × World :=
  moves.foldl (fun s m => s.1.make s.2 m) (c, w)

end Crew

/-- Where a run stands after some moves. -/
def Run.after (c : Config) (s : Selection) (o : RunOptions) (runId : Uuid) (w : World)
    (moves : List Move) : Run.Stand × World :=
  match Run.begin c s o w with
  | (.going crew, w') => Run.conclude runId w (crew.after w' moves).1 (crew.after w' moves).2
  | (.ended e, w') => (.ended e, w')

end Testbed
