import Testbed.Program.Executable
import Testbed.Program.Process

/-! Running the command of an environment for real: in its directory, with the variables of its
context, and with the programs of the context before all others. A command that outlives its time
limit or the run is killed. Its outputs are read until nobody holds them any more, but no longer
than a grace after its end; an output that is still held then is lost. -/
namespace Testbed.Spawn

/-- For how long each output may be held after the end, in milliseconds. -/
def grace : Nat := 2000

def workDir (i : Invocation) : Path :=
  match i.spec.changeDir with
  | some dir => i.context.root.join dir.text
  | none => i.context.root

/-- The search path with the programs of the context in front; a directory whose path holds a
separator cannot be put there. -/
def searchPath? (h : Host) (c : Context) : Option String :=
  let bin := c.binDir.text
  if bin.toList.contains ':' then none
  else
    match h.vars.get? "PATH" with
    | some ambient => some (bin ++ ":" ++ ambient)
    | none => some bin

/-- The variables of the environment win over the ambient ones, and the search path over both. -/
def commandVars (h : Host) (i : Invocation) : Vars :=
  let own := [("ENVRUN_ENV_DIR", i.context.dir.text), ("ENVRUN_ENV_NAME", i.context.name),
    ("TMPDIR", i.context.tmpDir.text)]
  let vars := (h.vars.overlay own).overlay i.spec.setenv
  match searchPath? h i.context with
  | some path => vars.set "PATH" path
  | none => vars

/-- The time limit of an environment, in milliseconds. -/
def timeLimit? (spec : EnvSpec) : Option Nat :=
  if spec.timeoutSecs = 0 then none else some (spec.timeoutSecs * 1000)

/-- Reading an output from a moment on: what is got and when that is over. -/
def drain (since heldUntil : Nat) (output : List UInt8) : String × Nat :=
  if since + grace < heldUntil then ("", since + grace)
  else (Text.decodeLossy output, max since heldUntil)

def outcome (status : CommandStatus) (code : Option Int) (ended : Nat) (c : Process.Course) :
    ExitOutcome :=
  let (stdout, moment) := drain ended c.stdoutUntil c.stdout
  let (stderr, closed) := drain moment c.stderrUntil c.stderr
  ⟨status, code, stdout, stderr, closed⟩

/-- Why a command was killed, and when. -/
inductive Cut where
  | timedOut (moment : Nat)
  | cancelled (moment : Nat)
deriving DecidableEq, Repr

/-- What comes first, the time limit or the cancellation. -/
def cut? (limit? cutAt : Option Nat) : Option Cut :=
  match limit?, cutAt with
  | none, none => none
  | some limit, none => some (.timedOut limit)
  | none, some moment => some (.cancelled moment)
  | some limit, some moment => some (if limit < moment then .timedOut limit else .cancelled moment)

def Cut.moment : Cut → Nat
  | .timedOut n | .cancelled n => n

/-- What comes of a command that was killed. -/
def killed (i : Invocation) (c : Process.Course) (cut : Cut) : RunReply :=
  let (status, text) := match cut with
    | .timedOut _ => (CommandStatus.timedOut, "Command timed out, killing")
    | .cancelled _ => (CommandStatus.cancelled, "Run cancelled, killing command")
  let e := outcome status none cut.moment c
  ⟨c.tree, [⟨.warn, some i.context.name, text⟩], false, .lasting e.durationMs, .exited e⟩

def replyTo (i : Invocation) (c : Process.Course) (cut : Option Cut) : RunReply :=
  match c.finish, cut with
  | .exited code, _ =>
    let e := outcome (if code = some 0 then .passed else .failed) code c.ended c
    ⟨c.tree, [], false, .lasting e.durationMs, .exited e⟩
  | _, some cut => killed i c cut
  | _, none => ⟨c.tree, [], false, .forever, .exited (outcome .cancelled none c.ended c)⟩

/-- A command that is cancelled at the moment of its start does nothing. -/
def unborn (h : Host) : Process.Course := ⟨h.tree, .killed, 0, [], 0, [], 0⟩

def run (programs : Process.Programs) (h : Host) (i : Invocation) (cutAt : Option Nat) : RunReply :=
  let cut := cut? (timeLimit? i.spec) cutAt
  match Process.launch programs h (workDir i) (fun _ => .ok i.path.text) (i.path.text :: i.args)
      (commandVars h i) (cut.map Cut.moment) with
  | .error cause => ⟨h.tree, [], false, .none, .launchFailed cause.message⟩
  | .ok course => replyTo i (if cutAt = some 0 then unborn h else course) cut

end Testbed.Spawn

namespace Testbed.Executable

/-- Programs of the ambient system. -/
def ambient (programs : Process.Programs) : Executable := ⟨Lookup.ambient, Spawn.run programs⟩

/-- Programs that are installed in the context. -/
def isolated (programs : Process.Programs) : Executable := ⟨Lookup.isolated, Spawn.run programs⟩

end Testbed.Executable
