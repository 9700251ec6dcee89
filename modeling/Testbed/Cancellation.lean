/-! The cancellation of a run. Handles raise a flag and signals observe it; both may be copied and
dropped in any order. Flags live in channels, each with a count of how often its flag was set: a
channel is open as long as a handle can set its flag, and it keeps the flag after that. Whoever
waits looks at the flag, then waits for the count to change, and gives up for good where the channel
is closed. -/
namespace Testbed.Cancellation

structure Channel where
  raised : Bool
  /-- How often the flag was set. -/
  version : Nat
deriving DecidableEq, Repr

namespace Channel

def lowered : Channel := ⟨false, 0⟩

def raise (c : Channel) : Channel := ⟨true, c.version + 1⟩

end Channel

/-- What a signal observes is the flag of a channel. -/
structure Signal where
  channel : Nat
deriving DecidableEq, Repr

structure State where
  channels : List Channel
  /-- For each handle made so far its channel, as long as the handle is there. -/
  handles : List (Option Nat)
  signals : List Signal
deriving DecidableEq, Repr

/-- A fresh pair of one handle and one signal. -/
def start : State := ⟨[.lowered], [some 0], [⟨0⟩]⟩

inductive Op where
  | cancel (handle : Nat)
  | signal (handle : Nat)
  | cloneHandle (handle : Nat)
  | cloneSignal (signal : Nat)
  /-- A signal whose channel never had a handle. -/
  | never
  | dropHandle (handle : Nat)
deriving DecidableEq, Repr

namespace State

/-- The channel of a handle that is there. -/
def handle? (s : State) (i : Nat) : Option Nat := s.handles[i]?.join

/-- Operations on a handle that is gone do nothing. -/
def step (s : State) : Op → State
  | .cancel i =>
    match s.handle? i with
    | some k => { s with channels := s.channels.modify k Channel.raise }
    | none => s
  | .signal i =>
    match s.handle? i with
    | some k => { s with signals := s.signals ++ [⟨k⟩] }
    | none => s
  | .cloneHandle i =>
    match s.handle? i with
    | some k => { s with handles := s.handles ++ [some k] }
    | none => s
  | .cloneSignal i =>
    match s.signals[i]? with
    | some x => { s with signals := s.signals ++ [x] }
    | none => s
  | .never =>
    { s with
      channels := s.channels ++ [.lowered]
      signals := s.signals ++ [⟨s.channels.length⟩] }
  | .dropHandle i => { s with handles := s.handles.set i none }

def channelOf (s : State) (x : Signal) : Channel := s.channels.getD x.channel .lowered

/-- Whether a handle is left that could raise the flag. -/
def isOpen (s : State) (x : Signal) : Bool := s.handles.contains (some x.channel)

def isCancelled (s : State) (x : Signal) : Bool := (s.channelOf x).raised

end State

def run (ops : List Op) : State := ops.foldl State.step start

/-! ### Waiting -/

/-- Someone who waits for the cancellation. -/
inductive Waiter where
  /-- Looks at the flag next. -/
  | looking
  /-- Waits for the count to change from what it was at the last look. -/
  | watching (version : Nat)
  /-- The channel was closed, so nothing is waited for any more. -/
  | stranded
  | done
deriving DecidableEq, Repr

namespace Waiter

/-- What a waiter does next; others may come in between. -/
def advance (s : State) (x : Signal) : Waiter → Waiter
  | .looking => if s.isCancelled x then .done else .watching (s.channelOf x).version
  | .watching version =>
    if version ≠ (s.channelOf x).version then .looking
    else if s.isOpen x then .watching version
    else .stranded
  | .stranded => .stranded
  | .done => .done

/-- Goes on until nothing changes any more, if nobody else does anything. -/
def poll (s : State) (x : Signal) (a : Waiter) : Waiter :=
  advance s x (advance s x (advance s x a))

end Waiter

/-- Whether waiting for the cancellation ends at once. -/
def State.fires (s : State) (x : Signal) : Bool := Waiter.looking.poll s x == .done

end Testbed.Cancellation
