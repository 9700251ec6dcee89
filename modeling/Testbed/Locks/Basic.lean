/-! Locks by name, fair in the order of arrival. For each name there is a line of tickets, and the
first ticket in line owns the lock, so a lock that is released belongs to the next in line before
that one has looked. -/
namespace Testbed.Locks

abbrev Ticket := Nat

structure Registry where
  lines : List (String × List Ticket)
  next : Ticket
deriving DecidableEq, Repr

namespace Registry

def empty : Registry := ⟨[], 0⟩

def line (r : Registry) (name : String) : List Ticket :=
  ((r.lines.find? (fun l => l.1 == name)).map Prod.snd).getD []

def setLine (r : Registry) (name : String) (tickets : List Ticket) : Registry :=
  { r with lines := (name, tickets) :: r.lines.filter (fun l => l.1 != name) }

def owner? (r : Registry) (name : String) : Option Ticket := (r.line name).head?

/-- A new ticket at the end of the line. -/
def enter (r : Registry) (name : String) : Ticket × Registry :=
  (r.next, { r.setLine name (r.line name ++ [r.next]) with next := r.next + 1 })

/-- Gives a ticket back, wherever in line it stands. -/
def leave (r : Registry) (name : String) (t : Ticket) : Registry :=
  r.setLine name ((r.line name).filter (· != t))

/-- The lock for someone who will not wait, when nobody stands in line. -/
def tryTake (r : Registry) (name : String) : Option Registry :=
  if (r.line name).isEmpty then some (r.setLine name [r.next]) else none

/-- Takes the lock if it is free and gives it back at once. -/
def probe (r : Registry) (name : String) : Bool × Registry :=
  match r.tryTake name with
  | some taken => (true, taken.leave name r.next)
  | none => (false, r)

end Registry

/-- Someone who asked for a lock. -/
structure Client where
  name : String
  ticket : Ticket
  held : Bool
deriving DecidableEq, Repr

/-- A client holds its lock once it has looked and found itself first. -/
def Client.poll (c : Client) (r : Registry) : Client :=
  if r.owner? c.name = some c.ticket then { c with held := true } else c

/-- Asks for a lock, after a probe that tells whether there will be a wait, and looks once. -/
def acquire (r : Registry) (name : String) : Client × Registry :=
  let (ticket, r') := (r.probe name).2.enter name
  ((Client.mk name ticket false).poll r', r')

/-- Gives up a lock, or a place in line. -/
def release (r : Registry) (c : Client) : Registry := r.leave c.name c.ticket

end Testbed.Locks
