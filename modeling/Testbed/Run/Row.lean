import Testbed.Run.Task

/-! Environments one after the other: the results so far, the task under way and who is still to
come. Nothing happens for an environment before the one in front of it has its result. -/
namespace Testbed

structure Row where
  results : List EnvResult
  current : Option Task
  rest : List EnvSpec
deriving DecidableEq, Repr

namespace Row

def start (specs : List EnvSpec) : Row := ⟨[], none, specs⟩

def turnCurrent (f : Facilities) (r : Row) (w : World) (t : Task) : Turn Row :=
  match t.phase with
  | .finished result => .moved { r with results := r.results ++ [result], current := none } w
  | .aborted => .blocked none
  | _ => (t.step f w).map (fun t' => { r with current := some t' })

/-- The next step: of the task under way, or the start of the next one. -/
def turn (f : Facilities) (r : Row) (w : World) : Turn Row :=
  match r.current, r.rest with
  | some t, _ => turnCurrent f r w t
  | none, spec :: rest => .moved { r with current := some (Task.start spec w), rest := rest } w
  | none, [] => .blocked none

def isOver (r : Row) : Bool := r.current.isNone && r.rest.isEmpty

/-- A task that dies takes the row with it. -/
def isBroken (r : Row) : Bool := r.current.any (fun t => t.phase == .aborted)

end Row

end Testbed
