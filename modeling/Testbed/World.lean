import Testbed.Context.Error
import Testbed.Dependency.Basic
import Testbed.Host.Basic
import Testbed.Journal
import Testbed.Locks.Basic

/-! What a run works on: the host, the locks, the flag of its cancellation and a clock. What the run
does is kept beside it: what it says, each source handed to an installer, each program started. Time
passes only when everything waits. A call on files that was begun goes on when whoever waited for it
is given up, and takes effect at some later time or never. -/
namespace Testbed

/-- A source handed to the installer. -/
structure Install where
  env : String
  source : Dependency
deriving DecidableEq, Repr

/-- A program started for an environment. -/
structure Launch where
  external : Bool
  env : String
  path : Path
  args : List String
  /-- Zero for no limit. -/
  timeoutSecs : Nat
deriving DecidableEq, Repr

structure World where
  host : Host
  locks : Locks.Registry
  cancelled : Bool
  /-- In milliseconds. -/
  clock : Nat
  date : Timestamp
  /-- Steps made so far. -/
  steps : Nat
  /-- The step before which the run is cancelled from outside. -/
  interruptAt : Option Nat
  /-- The environment whose turn it is. -/
  span : Option String
  journal : Journal
  installs : List Install
  launches : List Launch
  /-- Calls that nobody waits for any more, and that have not taken effect yet. -/
  adrift : List Host.FileCall

namespace World

/-- A run that starts on a host. -/
def start (host : Host) : World :=
  { host := host, locks := .empty, cancelled := false, clock := 0, date := .epoch, steps := 0,
    interruptAt := none, span := none, journal := [], installs := [], launches := [], adrift := [] }

def say (w : World) (r : Remark) : World := { w with journal := w.journal ++ [⟨w.span, r⟩] }

def emit (w : World) (e : Event) : World := w.say (.event e)

def note (w : World) (level : Level) (env : Option String) (text : String) : World :=
  w.say (.note ⟨level, env, text⟩)

def noteAll (w : World) (ns : List Note) : World := ns.foldl (fun w n => w.say (.note n)) w

def recordInstall (w : World) (i : Install) : World := { w with installs := w.installs ++ [i] }

def recordLaunch (w : World) (l : Launch) : World := { w with launches := w.launches ++ [l] }

def cancel (w : World) : World := { w with cancelled := true }

/-- Cancelled when `now` holds. -/
def cancelIf (w : World) (now : Bool) : World := { w with cancelled := w.cancelled || now }

/-- Counts a step, before which an interrupt may arrive. -/
def tick (w : World) : World :=
  { w with steps := w.steps + 1, cancelled := w.cancelled || w.interruptAt == some w.steps }

def withTree (w : World) (tree : Host.Tree) : World := { w with host := { w.host with tree := tree } }

/-- The world after a call on the host's files, and the cause if it failed. -/
def attempt (w : World) (call : Host.FileCall) : World × Option Host.OsError :=
  match w.host.perform call with
  | .ok host => ({ w with host := host }, none)
  | .error fault => ({ w with host := fault.left }, some fault.cause)

/-- Leaves a call to itself. -/
def abandon (w : World) (call? : Option Host.FileCall) : World :=
  { w with adrift := w.adrift ++ call?.toList }

/-- One of the calls that are adrift takes effect. -/
def land (w : World) (k : Nat) : World :=
  match w.adrift[k]? with
  | some call => { w with host := w.host.after call, adrift := w.adrift.eraseIdx k }
  | none => w

end World

/-- How long something takes that has been started: it is over at once, after some milliseconds
during which the run goes on elsewhere, or never. -/
inductive Pause where
  | none
  | lasting (ms : Nat)
  | forever
deriving DecidableEq, Repr

/-- What comes of looking at some work: a step is made, or nothing happens before a moment; without
a moment it is up to others. -/
inductive Turn (α : Type) where
  | moved (a : α) (w : World)
  | blocked (until? : Option Nat)

namespace Turn

/-- The same step, seen as one of something larger. -/
def map (g : α → β) : Turn α → Turn β
  | .moved a w => .moved (g a) w
  | .blocked until? => .blocked until?

end Turn

end Testbed
