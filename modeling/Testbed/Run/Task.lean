import Testbed.Context.Provision
import Testbed.Program.Executable
import Testbed.Program.Placeholders
import Testbed.Run.Progress

/-! One environment's part of a run, step by step: provision its context, run its commands, tear the
context down. A cancellation skips an environment that has not started, ends one that is being
provisioned, and stops one between its commands or in the middle of one. -/
namespace Testbed

/-- What environments are provisioned and run with. -/
structure Facilities where
  provisioner : Provisioner
  installer : Installer
  ambient : Executable
  isolated : Executable
  posargs : List String

/-- A program that was started and has not ended. -/
structure Running where
  executable : Bool
  invocation : Invocation
  /-- The arguments after placeholders. -/
  argv : List String
  since : Nat
  until? : Option Nat
deriving DecidableEq, Repr

inductive Phase where
  | fresh
  | provisioning (s : Provisioning)
  | commands (c : Context) (p : Progress)
  | awaiting (c : Context) (p : Progress) (r : Running)
  | closing (c : Context) (p : Progress)
  | finished (r : EnvResult)
  | aborted
deriving DecidableEq, Repr

structure Task where
  spec : EnvSpec
  life : Lifecycle
  since : Nat
  phase : Phase
deriving DecidableEq, Repr

/-- The entry of an environment whose task died. -/
def EnvResult.aborted (name : String) : EnvResult :=
  ⟨name, .failed, [], some "environment task aborted", 0⟩

/-- The entry of an environment whose turn came after the cancellation. -/
def EnvResult.unstarted (name : String) : EnvResult :=
  { EnvResult.skipped name with failure := some "run cancelled before start" }

namespace Task

def start (spec : EnvSpec) (w : World) : Task := ⟨spec, .pending, w.clock, .fresh⟩

/-- Moves on in life; an edge that is not allowed is taken all the same, and said. -/
def advance (t : Task) (w : World) (next : Lifecycle) : Task × World :=
  match t.life.transition next with
  | .ok life => ({ t with life := life }, w)
  | .error _ => ({ t with life := next }, w.note .warn (some t.spec.name) "Lifecycle violation")

def report (t : Task) (w : World) (r : EnvResult) : Task × World :=
  ({ t with phase := .finished r }, w.emit (.ofResult r))

def finish (t : Task) (w : World) (outcomes : List CommandOutcome) (failure : Option String) :
    Task × World :=
  t.report w ⟨t.spec.name, t.life, outcomes, failure, w.clock - t.since⟩

def skipped (spec : EnvSpec) : List CommandOutcome :=
  spec.commands.mapIdx (fun i c => .skipped i c.display)

/-! ### Before the commands -/

def skip (t : Task) (w : World) : Task × World :=
  let (t', w') := t.advance w .skipped
  t'.report (w'.note .info (some t.spec.name) "Run cancelled before start, skipping")
    (.unstarted t.spec.name)

/-- An environment without commands goes through its whole life at once. -/
def pass (t : Task) (w : World) : Task × World :=
  let (t1, w1) := t.advance w .provisioning
  let (t2, w2) := t1.advance w1 .running
  let (t3, w3) := t2.advance w2 .succeeded
  t3.finish (w3.note .debug (some t.spec.name) "No commands, nothing to provision") [] none

def provision (t : Task) (w : World) : Task × World :=
  let (t', w') := t.advance w .provisioning
  let (s, w'') := Provisioning.start w' t.spec.name t.spec.deps
  ({ t' with phase := .provisioning s }, w'')

def begin (t : Task) (w : World) : Task × World :=
  if w.cancelled then t.skip w else if t.spec.isNoop then t.pass w else t.provision w

def provisionFailed (t : Task) (w : World) (failure : String) : Task × World :=
  let (t', w') := t.advance (w.emit (.provisionFailed t.spec.name failure)) .provisionFailed
  t'.finish w' (skipped t.spec) (some failure)

def provisioned (t : Task) (w : World) (c : Context) : Task × World :=
  let (t', w') := t.advance (w.emit (.provisioned t.spec.name c.metadata.digest)) .running
  ({ t' with phase := .commands c .start }, w')

/-! ### Commands -/

def executableFor (f : Facilities) (external : Bool) : Executable :=
  if external then f.ambient else f.isolated

def record (t : Task) (w : World) (c : Context) (p : Progress) (o : CommandOutcome) : Task × World :=
  ({ t with phase := .commands c (p.record t.spec.continueOnError o) },
    w.emit (.ofOutcome t.spec.name o))

/-- A command that did not start. -/
def refuse (t : Task) (w : World) (c : Context) (p : Progress) (command : Command)
    (e : CommandError) : Task × World :=
  t.record (w.note .warn (some t.spec.name) "Command could not start") c p
    (.errored p.index command.display e.message)

/-- Takes over what a program did. -/
def settle (t : Task) (w : World) (c : Context) (p : Progress) (command : Command)
    (argv : List String) (path : Path) (reply : RunReply) : Task × World :=
  let w' := (w.withTree reply.tree).noteAll reply.notes
  match reply.ending with
  | .exited e => t.record w' c p (e.toOutcome p.index (Command.displayArgv argv))
  | .launchFailed reason => t.refuse w' c p command (.launchFailed path reason)
  | .aborts => ({ t with phase := .aborted }, c.drop w')

def launch (f : Facilities) (t : Task) (w : World) (c : Context) (p : Progress) (command : Command)
    (argv args : List String) (path : Path) : Task × World :=
  let invocation : Invocation := ⟨path, args, c, t.spec⟩
  let reply := (executableFor f command.external).run w.host invocation none
  let w' := ((w.note .debug (some t.spec.name) "Resolved executable").recordLaunch
    ⟨command.external, t.spec.name, path, args, t.spec.timeoutSecs⟩).cancelIf reply.cancels
  let waiting (until? : Option Nat) : Task × World :=
    ({ t with phase := .awaiting c p ⟨command.external, invocation, argv, w.clock, until?⟩ }, w')
  match reply.pause with
  | .none => t.settle w' c p command argv path reply
  | .lasting ms => waiting (some (w.clock + ms))
  | .forever => waiting none

def runCommand (f : Facilities) (t : Task) (w : World) (c : Context) (p : Progress)
    (command : Command) : Task × World :=
  match Placeholders.expand c f.posargs command.argv with
  | [] => t.refuse w c p command .empty
  | program :: args =>
    match (executableFor f command.external).resolve w.host c program with
    | .error e => t.refuse w c p command e
    | .ok path => t.launch f w c p command (program :: args) args path

/-- The next command: skipped once the environment has stopped, stopping at a cancellation, run
otherwise. After the last one the context is closed. -/
def proceed (f : Facilities) (t : Task) (w : World) (c : Context) (p : Progress) : Task × World :=
  match t.spec.commands[p.index]? with
  | none =>
    let (t', w') := t.advance w p.status
    ({ t' with phase := .closing c p }, w')
  | some command =>
    if p.stopped then ({ t with phase := .commands c (p.skip command) }, w)
    else if w.cancelled then
      ({ t with phase := .commands c (p.halt.skip command) },
        w.note .info (some t.spec.name) "Run cancelled, skipping remaining commands")
    else t.runCommand f w c p command

/-- Looks after a program that was started: a cancellation cuts it short, otherwise its moment
comes. -/
def attend (f : Facilities) (t : Task) (w : World) (c : Context) (p : Progress) (r : Running) :
    Turn Task :=
  let command := (t.spec.commands[p.index]?).getD (.ofArgv r.argv)
  let ended (cutAt : Option Nat) : Turn Task :=
    let reply := (executableFor f r.executable).run w.host r.invocation cutAt
    let (t', w') := t.settle w c p command r.argv r.invocation.path reply
    .moved t' w'
  if w.cancelled then ended (some (w.clock - r.since))
  else
    match r.until? with
    | some moment => if moment ≤ w.clock then ended none else .blocked (some moment)
    | none => .blocked none

def close (t : Task) (w : World) (c : Context) (p : Progress) : Task × World :=
  match c.teardown w with
  | (w', none) => t.finish w' p.outcomes p.failure
  | (w', some e) =>
    t.finish (w'.emit (.teardownError t.spec.name e.message)) p.outcomes p.failure

/-! ### Steps -/

def stepProvisioning (f : Facilities) (t : Task) (w : World) (s : Provisioning) : Turn Task :=
  let made (r : Task × World) : Turn Task := .moved r.1 r.2
  if w.cancelled && s.stage.waits then
    made (t.provisionFailed (s.abandon f.provisioner w) "run cancelled during provisioning")
  else
    match s.stage with
    | .ready => made (t.provisioned w (s.context f.provisioner))
    | .failed cause => made (t.provisionFailed w cause.message)
    | _ =>
      match s.step f.provisioner f.installer w with
      | .moved s' w' => .moved { t with phase := .provisioning s' } w'
      | .blocked until? => .blocked until?

def stepIn (f : Facilities) (t : Task) (w : World) : Turn Task :=
  let made (r : Task × World) : Turn Task := .moved r.1 r.2
  match t.phase with
  | .fresh => made (t.begin w)
  | .provisioning s => t.stepProvisioning f w s
  | .commands c p => made (t.proceed f w c p)
  | .awaiting c p r => t.attend f w c p r
  | .closing c p => made (t.close w c p)
  | .finished _ | .aborted => .blocked none

/-- One step, counted and made in the name of the environment. -/
def step (f : Facilities) (t : Task) (w : World) : Turn Task :=
  match t.stepIn f { w.tick with span := some t.spec.name } with
  | .moved t' w' => .moved t' { w' with span := none }
  | .blocked until? => .blocked until?

/-- As many rounds as a task can take, waits included. -/
def bound (spec : EnvSpec) : Nat := 8 * (spec.deps.length + spec.commands.length) + 32

end Task

end Testbed
