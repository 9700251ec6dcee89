import Testbed.Config.Basic
import Testbed.Program.Lookup

/-! Executables: how a program is found and what comes of running it. Running gives the files after
it and how it ended; it may take time, and is cut short when the run is cancelled meanwhile. -/
namespace Testbed

/-- How a program that was started ended. -/
structure ExitOutcome where
  status : CommandStatus
  exitCode : Option Int
  stdout : String
  stderr : String
  durationMs : Nat
deriving DecidableEq, Repr

inductive RunEnd where
  | exited (outcome : ExitOutcome)
  | launchFailed (reason : String)
  /-- Whoever waits for the program dies. -/
  | aborts
deriving DecidableEq, Repr

structure RunReply where
  tree : Host.Tree
  notes : List Note
  cancels : Bool
  pause : Pause
  ending : RunEnd

/-- Everything that is needed to start one program that was found. -/
structure Invocation where
  path : Path
  args : List String
  context : Context
  spec : EnvSpec
deriving DecidableEq, Repr

structure Executable where
  resolve : Host → Context → String → Except CommandError Path
  /-- The last argument says after how many milliseconds the run is cancelled, if it is. -/
  run : Host → Invocation → Option Nat → RunReply

/-- The outcome of a command whose program ran. -/
def ExitOutcome.toOutcome (e : ExitOutcome) (index : Nat) (display : String) : CommandOutcome :=
  ⟨index, display, e.status, e.exitCode, e.durationMs, e.stdout, e.stderr, none⟩

end Testbed
