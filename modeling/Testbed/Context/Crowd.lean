import Testbed.Context.Provision

/-! Any number of clients that build, use and give up contexts with the same locks, each with a
provisioner of its own. A step makes one call to the file system at most, so that what others do may
come between any two calls. -/
namespace Testbed

/-- How far a client is with a context. -/
inductive Footing where
  | building
  /-- Something stands where the context will be built, and is removed next. -/
  | clearing
  | alive
  /-- The context is torn down next. -/
  | leaving
  /-- The directory is removed as a last resort next, perhaps after discarding it went wrong. -/
  | dropping (discarded : Bool)
  /-- The lock is given back next. -/
  | parting
deriving DecidableEq, Repr

structure Pursuit where
  p : Provisioner
  s : Provisioning
  footing : Footing
deriving DecidableEq, Repr

/-- Clients are numbers; most of them are after nothing. -/
structure Crowd where
  world : World
  pursuits : Nat → Option Pursuit

/-- What a client can do. -/
inductive Errand where
  | start (p : Provisioner) (name : String) (deps : List Dependency)
  /-- The next step, with whatever the installer does this time. -/
  | step (installer : Installer)
  /-- An install that is under way, or a program in a context, changes files. -/
  | work (change : Host.Tree → Host.Tree)
  | abandon
  | teardown
  | drop
  | wait (ms : Nat)

namespace Pursuit

def dir (a : Pursuit) : Path := a.s.dir a.p

def move (a : Pursuit) (footing : Footing) : Pursuit := { a with footing := footing }

/-- The client after a step of its provisioning. -/
def proceed (p : Provisioner) (s : Provisioning) : Pursuit :=
  ⟨p, s, if s.stage = .ready then .alive else .building⟩

/-- The next step, and who is left after it. -/
def step (installer : Installer) (w : World) (a : Pursuit) : Option Pursuit × World :=
  match a.footing with
  | .building =>
    match a.s.stage with
    | .clearing =>
      if w.host.exists? a.dir then
        (some (a.move .clearing), w.note .debug (some a.s.name) "Removing stale context")
      else (some (proceed a.p { a.s with stage := .makingBin }), w)
    | .discarding _ =>
      match Context.removeDir w a.dir with
      | (w', none) => (some (a.move .parting), w')
      | (w', some _) => (some (a.move (.dropping true)), w')
    | _ =>
      match a.s.step a.p installer w with
      | .moved s w' => (some (proceed a.p s), w')
      | .blocked _ => (some a, w)
  | .clearing =>
    let (w', cause?) := Context.removeDir w a.dir
    let (s, w'') := Provisioning.goOn w' a.s a.dir .makingBin cause?
    (some (proceed a.p s), w'')
  | .alive => (some a, w)
  | .leaving =>
    match Context.removeDir w a.dir with
    | (w', none) => (some (a.move .parting), w'.note .debug (some a.s.name) "Context removed")
    | (w', some _) => (some (a.move (.dropping false)), w')
  | .dropping discarded =>
    let w' := Context.removeQuietly w a.s.name a.dir
    (some (a.move .parting),
      if discarded then w'.note .warn none "Failed to discard partial context" else w')
  | .parting => (none, Context.release w a.s.client)

/-- Whether programs of the client may be at work in the context. -/
def works (a : Pursuit) : Bool :=
  match a.footing, a.s.stage with
  | .alive, _ | .building, .awaiting .. => true
  | _, _ => false

/-- Stops in the middle of building or tearing down. -/
def abandon (a : Pursuit) : Pursuit :=
  match a.footing with
  | .building => a.move (if a.s.stage = .waiting then .parting else .dropping false)
  | .clearing | .leaving => a.move (.dropping false)
  | _ => a

def teardown (a : Pursuit) : Pursuit :=
  match a.footing with
  | .alive => a.move (if a.p.keep then .parting else .leaving)
  | _ => a

/-- Gives a complete context up. -/
def drop (a : Pursuit) : Pursuit :=
  match a.footing with
  | .alive => a.move (if a.p.keep then .parting else .dropping false)
  | _ => a

end Pursuit

namespace Crowd

/-- Nobody is after anything, and all locks are free. -/
def start (w : World) : Crowd := ⟨{ w with locks := .empty }, fun _ => none⟩

def put (x : Crowd) (i : Nat) (a? : Option Pursuit) (w : World) : Crowd :=
  ⟨w, fun j => if j = i then a? else x.pursuits j⟩

/-- What makes no sense for a client at the moment is not done. -/
def act (x : Crowd) (i : Nat) (e : Errand) : Crowd :=
  match e, x.pursuits i with
  | .start p name deps, none =>
    let (s, w) := Provisioning.start x.world name deps
    x.put i (some ⟨p, s, .building⟩) w
  | .step installer, some a =>
    let (a?, w) := a.step installer x.world
    x.put i a? w
  | .work change, some a =>
    if a.works then x.put i (some a) (x.world.withTree (change x.world.host.tree)) else x
  | .abandon, some a => x.put i (some a.abandon) x.world
  | .teardown, some a => x.put i (some a.teardown) x.world
  | .drop, some a => x.put i (some a.drop) x.world
  | .wait ms, _ => { x with world := { x.world with clock := x.world.clock + ms } }
  | _, _ => x

/-- After all of this was done. -/
def after (x : Crowd) (errands : List (Nat × Errand)) : Crowd :=
  errands.foldl (fun x d => x.act d.1 d.2) x

end Crowd

end Testbed
