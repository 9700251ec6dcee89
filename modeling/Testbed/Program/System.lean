import Testbed.Program.Process
import Testbed.Shell.Eval

/-! The programs of a system with a shell. Scripts are evaluated, and the tools that they call do
their work on the files. -/
namespace Testbed.Shell

open Host (Tree)
open Process (Order Finish Course)

/-- How deep a script's calls may be nested. -/
def depth : Nat := 3000

/-- Numbers below are kept for the outputs. -/
def firstNumber : Nat := 1000

def machine (tree : Tree) (order : Order) (deadline : Option Nat) : Machine :=
  { shell :=
      { name := order.path, params := [], vars := [], cwd := order.cwd
        channels := [(0, .sink), (1, .buffer stdoutBuffer), (2, .buffer stderrBuffer)]
        status := 0, functions := [], errexit := false, nounset := false, noglob := false
        xtrace := false, traps := [], line := 0
        pid := firstNumber, jobs := [], loops := 0, lastOutput := 0, task := none, outside := none,
        isMain := true }
    scene :=
      { tree := tree, clock := 0, deadline := deadline, buffers := [], holds := []
        next := firstNumber + 1 } }

def course (finish : Finish) (m : Machine) : Course :=
  { tree := m.scene.tree, finish := finish, ended := m.scene.clock
    stdout := m.scene.bufferOf stdoutBuffer
    stdoutUntil := m.scene.heldUntil stdoutBuffer
    stderr := m.scene.bufferOf stderrBuffer
    stderrUntil := m.scene.heldUntil stderrBuffer }

/-- The programs of the system. -/
def programs : Process.Programs := fun tree order deadline =>
  match (execute depth order.path order.argv order.vars).run.run
      (machine tree order deadline) with
  | (.ok cause, _) => .error cause
  | (.error (.killed _), m) => .ok (course (.exited none) m)
  | (.error .cut, m) => .ok (course .killed m)
  | (.error .stuck, m) => .ok (course .endless m)
  | (.error _, m) => .ok (course (.exited (some (m.shell.status % 256 : Nat))) m)

end Testbed.Shell
