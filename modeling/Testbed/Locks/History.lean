import Testbed.Locks.Basic

/-! Any number of clients that ask for locks, look and give up, in any order. Each client has an
identifier and uses one of several registries, which know nothing of each other. -/
namespace Testbed.Locks

structure Slot where
  registry : Nat
  client : Client
deriving DecidableEq, Repr

structure State where
  registries : List Registry
  /-- Every identifier so far, with `none` once it has given up. -/
  slots : List (String × Option Slot)
deriving DecidableEq, Repr

inductive Op where
  /-- `fresh`: in a registry of its own. -/
  | acquire (id name : String) (fresh : Bool)
  | poll (id : String)
  | drop (id : String)
deriving DecidableEq, Repr

namespace State

def start : State := ⟨[.empty], []⟩

def slot? (s : State) (id : String) : Option Slot :=
  ((s.slots.find? (fun x => x.1 == id)).map Prod.snd).getD none

def setSlot (s : State) (id : String) (slot : Option Slot) : State :=
  if s.slots.any (fun x => x.1 == id) then
    { s with slots := s.slots.map (fun x => if x.1 == id then (id, slot) else x) }
  else { s with slots := s.slots ++ [(id, slot)] }

def registry (s : State) (k : Nat) : Registry := s.registries.getD k .empty

/-- Releases what the slot holds or waits for. -/
def vacate (s : State) (slot : Option Slot) : State :=
  match slot with
  | some x =>
    { s with registries := s.registries.set x.registry (release (s.registry x.registry) x.client) }
  | none => s

/-- An identifier that is used again gives up its former lock after the new one was asked for. -/
def step (s : State) : Op → State
  | .acquire id name fresh =>
    let k := if fresh then s.registries.length else 0
    let registries := if fresh then s.registries ++ [.empty] else s.registries
    let (client, r) := Locks.acquire (registries.getD k .empty) name
    let s' : State := { s with registries := registries.set k r }
    (s'.vacate (s.slot? id)).setSlot id (some ⟨k, client⟩)
  | .poll id =>
    match s.slot? id with
    | some x => s.setSlot id (some { x with client := x.client.poll (s.registry x.registry) })
    | none => s
  | .drop id => (s.vacate (s.slot? id)).setSlot id none

end State

def run (ops : List Op) : State := ops.foldl State.step .start

end Testbed.Locks
