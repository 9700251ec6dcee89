import Testbed.Run.Pool
import Testbed.Run.Row

/-! The environments of a run at work, one after the other or side by side. -/
namespace Testbed

inductive Crew where
  | row (r : Row)
  | pool (p : Pool)
deriving DecidableEq, Repr

namespace Crew

/-- Whether a job is looked at that is not there makes no difference in a row, which has but one. -/
def turn (f : Facilities) (c : Crew) (w : World) (i : Nat) : Turn Crew :=
  match c with
  | .row r => (r.turn f w).map .row
  | .pool p => (p.turn f w i).map .pool

def isOver : Crew → Bool
  | .row r => r.isOver
  | .pool p => p.isOver

/-- Whether a task died that nobody outlives. -/
def isBroken : Crew → Bool
  | .row r => r.isBroken
  | .pool _ => false

def results : Crew → List EnvResult
  | .row r => r.results
  | .pool p => p.results

def casualties : Crew → Nat
  | .row _ => 0
  | .pool p => p.casualties

/-! ### Going on alone -/

/-- The jobs to look at. -/
def round : Crew → List Nat
  | .row _ => [0]
  | .pool p => List.range p.jobs.length

/-- Looks at jobs in turn and passes over those that cannot move; says whether one could. -/
def follow (f : Facilities) (c : Crew) (w : World) : List Nat → Bool × Crew × World
  | [] => (false, c, w)
  | i :: rest =>
    match c.turn f w i with
    | .moved c' w' => (true, (follow f c' w' rest).2)
    | .blocked _ => follow f c w rest

/-- The first moment at which a job that waits goes on. -/
def nextMoment? (f : Facilities) (c : Crew) (w : World) : Option Nat :=
  (c.round.filterMap (fun i =>
    match c.turn f w i with
    | .blocked moment? => moment?
    | .moved .. => none)).min?

/-- Round after round; when every job waits the clock jumps to the first moment. -/
def drive (f : Facilities) : Nat → Crew → World → Crew × World
  | 0, c, w => (c, w)
  | fuel + 1, c, w =>
    match c.follow f w c.round with
    | (true, c', w') => drive f fuel c' w'
    | (false, _) =>
      match c.nextMoment? f w with
      | some moment => drive f fuel c { w with clock := moment }
      | none => (c, w)

/-- As many rounds as the environments can take. -/
def bound (specs : List EnvSpec) : Nat := specs.foldr (fun s n => Task.bound s + 8 + n) 8

end Crew

end Testbed
