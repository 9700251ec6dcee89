import Testbed.Context.Record
import Testbed.Installer

/-! Building a context, step by step: take the lock of its name, remove what an earlier run left,
make the layout, hand each source to the installer, write the record. A failure discards what was
built. Whoever gives up in between abandons the work, and that removes the directory too. -/
namespace Testbed

/-- The next step of a provisioning. -/
inductive Stage where
  | waiting
  | clearing
  | makingBin
  | makingTmp
  | installing (rest : List Dependency)
  /-- An install that was started and ends at a moment, or never. -/
  | awaiting (source : Dependency) (rest : List Dependency) (until? : Option Nat)
  | recording
  | discarding (cause : ProvisionError)
  | ready
  | failed (cause : ProvisionError)
deriving DecidableEq, Repr

/-- Whether the step is one during which others go on, so that a cancellation is noticed. -/
def Stage.waits : Stage → Bool
  | .installing _ | .ready | .failed _ => false
  | _ => true

structure Provisioning where
  name : String
  metadata : Metadata
  client : Locks.Client
  stage : Stage
deriving DecidableEq, Repr

namespace Provisioning

def dir (p : Provisioner) (s : Provisioning) : Path := p.envDir s.name

def context (p : Provisioner) (s : Provisioning) : Context :=
  ⟨s.name, s.dir p, p.root, p.keep, s.metadata, s.client⟩

def target (p : Provisioner) (s : Provisioning) : InstallTarget := ⟨s.name, s.dir p, p.root⟩

/-- Gets in line for the lock. -/
def start (w : World) (name : String) (deps : List Dependency) : Provisioning × World :=
  let (client, locks) := Locks.acquire w.locks name
  let w' : World := { w with locks := locks }
  let s (stage : Stage) : Provisioning := ⟨name, Metadata.ofDeclared name deps w.date, client, stage⟩
  if client.held then (s .clearing, w')
  else (s .waiting, w'.note .debug (some name) "Waiting for environment context lock")

def failWith (w : World) (s : Provisioning) (cause : ProvisionError) : Provisioning × World :=
  ({ s with stage := .discarding cause },
    w.note .warn (some s.name) "Provisioning failed, discarding context")

/-- Goes on to a stage after an operation on files, which failed with the cause, if there is one. -/
def goOn (w : World) (s : Provisioning) (path : Path) (next : Stage) :
    Option Host.OsError → Provisioning × World
  | none => ({ s with stage := next }, w)
  | some cause => failWith w s (.context path cause)

def makeDir (w : World) (s : Provisioning) (path : Path) (next : Stage) : Provisioning × World :=
  let (w', cause?) := w.attempt (.makeDirs path)
  goOn w' s path next cause?

def clear (p : Provisioner) (w : World) (s : Provisioning) : Provisioning × World :=
  if w.host.exists? (s.dir p) then
    let (w', cause?) :=
      Context.removeDir (w.note .debug (some s.name) "Removing stale context") (s.dir p)
    goOn w' s (s.dir p) .makingBin cause?
  else ({ s with stage := .makingBin }, w)

/-- Takes over what an install did and judges its exit code. -/
def accept (p : Provisioner) (w : World) (s : Provisioning) (source : Dependency)
    (rest : List Dependency) (reply : InstallReply) : Provisioning × World :=
  let w' := (w.withTree reply.tree).noteAll reply.notes
  match reply.ending with
  | .refused cause => failWith w' s cause
  | .exited code stderr =>
    if p.okCodes.contains code then ({ s with stage := .installing rest }, w')
    else failWith w' s (.installFailed s.name source.display code stderr)

def install (p : Provisioner) (installer : Installer) (w : World) (s : Provisioning)
    (source : Dependency) (rest : List Dependency) : Provisioning × World :=
  let reply := installer w.host (s.target p) source
  let w' := ((w.note .debug (some s.name) "Installing").recordInstall ⟨s.name, source⟩).cancelIf
    reply.cancels
  match reply.pause with
  | .none => accept p w' s source rest reply
  | .lasting ms => ({ s with stage := .awaiting source rest (some (w.clock + ms)) }, w')
  | .forever => ({ s with stage := .awaiting source rest none }, w')

def record (p : Provisioner) (w : World) (s : Provisioning) : Provisioning × World :=
  let path := Metadata.path (s.dir p)
  match w.attempt (.write path (Text.encode s.metadata.text)) with
  | (w', none) =>
    ({ s with stage := .ready }, w'.note .info (some s.name) "Environment provisioned")
  | (w', some cause) => failWith w' s (.context path cause)

/-- Removes what a failure left, kept contexts too, and releases the lock. -/
def discard (p : Provisioner) (w : World) (s : Provisioning) (cause : ProvisionError) :
    Provisioning × World :=
  let w' := match Context.removeDir w (s.dir p) with
    | (w', none) => w'
    | (w', some _) =>
      (Context.removeQuietly w' s.name (s.dir p)).note .warn none "Failed to discard partial context"
  ({ s with stage := .failed cause }, Context.release w' s.client)

def moved : Provisioning × World → Turn Provisioning
  | (s, w) => .moved s w

def step (p : Provisioner) (installer : Installer) (w : World) (s : Provisioning) :
    Turn Provisioning :=
  match s.stage with
  | .waiting =>
    let client := s.client.poll w.locks
    if client.held then .moved { s with client := client, stage := .clearing } w else .blocked none
  | .clearing => moved (clear p w s)
  | .makingBin => moved (makeDir w s ((s.dir p).join "bin") .makingTmp)
  | .makingTmp => moved (makeDir w s ((s.dir p).join "tmp") (.installing s.metadata.sources))
  | .installing [] => .moved { s with stage := .recording } w
  | .installing (source :: rest) => moved (install p installer w s source rest)
  | .awaiting source rest (some moment) =>
    if moment ≤ w.clock then moved (accept p w s source rest (installer w.host (s.target p) source))
    else .blocked (some moment)
  | .awaiting _ _ none => .blocked none
  | .recording => moved (record p w s)
  | .discarding cause => moved (discard p w s cause)
  | .ready | .failed _ => .blocked none

/-- The call on files that a provisioning is waiting for. A stale context is removed only where one
was found. -/
def call? (p : Provisioner) (h : Host) (s : Provisioning) : Option Host.FileCall :=
  match s.stage with
  | .clearing => if h.exists? (s.dir p) then some (.remove (s.dir p)) else none
  | .makingBin => some (.makeDirs ((s.dir p).join "bin"))
  | .makingTmp => some (.makeDirs ((s.dir p).join "tmp"))
  | .recording => some (.write (Metadata.path (s.dir p)) (Text.encode s.metadata.text))
  | .discarding _ => some (.remove (s.dir p))
  | .waiting | .installing _ | .awaiting .. | .ready | .failed _ => none

/-- Stops in the middle: the lock goes back, and once it was held the directory goes too. The call
that was waited for goes on by itself. -/
def abandon (p : Provisioner) (w : World) (s : Provisioning) : World :=
  match s.stage with
  | .ready | .failed _ => w
  | .waiting => Context.release w s.client
  | _ =>
    Context.release (Context.removeQuietly (w.abandon (s.call? p w.host)) s.name (s.dir p)) s.client

/-! ### Alone -/

/-- As many steps as a provisioning of `n` sources can take. -/
def bound (n : Nat) : Nat := 4 * n + 16

/-- Goes on alone, the clock jumping over every wait, until there is nothing left to do. -/
def drive (p : Provisioner) (installer : Installer) : Nat → World → Provisioning → Provisioning × World
  | 0, w, s => (s, w)
  | fuel + 1, w, s =>
    match step p installer w s with
    | .moved s' w' => drive p installer fuel w' s'
    | .blocked (some moment) => drive p installer fuel { w with clock := moment } s
    | .blocked none => (s, w)

/-- Builds a context with nobody else around; `none` when it never ends. -/
def run (p : Provisioner) (installer : Installer) (w : World) (name : String)
    (deps : List Dependency) : Option (Except ProvisionError Context) × World :=
  let (s, w') := start w name deps
  let (s', w'') := drive p installer (bound deps.length) w' s
  match s'.stage with
  | .ready => (some (.ok (s'.context p)), w'')
  | .failed cause => (some (.error cause), w'')
  | _ => (none, w'')

end Provisioning

end Testbed
