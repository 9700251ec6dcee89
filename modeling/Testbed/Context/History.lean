import Testbed.Context.Provision

/-! Contexts on one provisioner over time: each is built, used and given up, and what is done for
one name comes between what is done for others in any order. A name has one context at a time. -/
namespace Testbed

/-- What has become of a name. -/
inductive Tenure where
  /-- Nobody has it now; whether its last provisioning succeeded, if there was one. -/
  | idle (last? : Option Bool)
  | building (s : Provisioning)
  | alive (c : Context)
deriving Repr

structure Site where
  world : World
  tenures : String → Tenure

/-- What can be done for a name. -/
inductive Deed where
  | start (deps : List Dependency)
  /-- The next step of a provisioning, with whatever the installer does this time. -/
  | step (installer : Installer)
  /-- An install that is under way, or a program in a context, changes files. -/
  | work (change : Host.Tree → Host.Tree)
  | abandon
  | teardown
  | drop
  | wait (ms : Nat)

namespace Tenure

/-- What a provisioning has come to. -/
def ofProvisioning (p : Provisioner) (s : Provisioning) : Tenure :=
  match s.stage with
  | .ready => .alive (s.context p)
  | .failed _ => .idle (some false)
  | _ => .building s

/-- Whether the last provisioning that is over succeeded; `none` while one is going on, too. -/
def last? : Tenure → Option Bool
  | .idle last? => last?
  | .building _ => none
  | .alive _ => some true

def isAlive : Tenure → Bool
  | .alive _ => true
  | _ => false

end Tenure

namespace Site

/-- Nobody has anything yet. -/
def start (w : World) : Site := ⟨w, fun _ => .idle none⟩

def put (x : Site) (name : String) (tenure : Tenure) (w : World) : Site :=
  ⟨w, fun other => if other = name then tenure else x.tenures other⟩

/-- What makes no sense for a name at the moment is not done. -/
def act (p : Provisioner) (x : Site) (name : String) : Deed → Site
  | .start deps =>
    match x.tenures name with
    | .idle _ =>
      let (s, w) := Provisioning.start x.world name deps
      x.put name (.building s) w
    | _ => x
  | .step installer =>
    match x.tenures name with
    | .building s =>
      match s.step p installer x.world with
      | .moved s' w => x.put name (.ofProvisioning p s') w
      | .blocked _ => x
    | _ => x
  | .work change =>
    match x.tenures name with
    | .building s =>
      match s.stage with
      | .awaiting .. => { x with world := x.world.withTree (change x.world.host.tree) }
      | _ => x
    | .alive _ => { x with world := x.world.withTree (change x.world.host.tree) }
    | .idle _ => x
  | .abandon =>
    match x.tenures name with
    | .building s => x.put name (.idle (some false)) (s.abandon p x.world)
    | _ => x
  | .teardown =>
    match x.tenures name with
    | .alive c => x.put name (.idle (some true)) (c.teardown x.world).1
    | _ => x
  | .drop =>
    match x.tenures name with
    | .alive c => x.put name (.idle (some true)) (c.drop x.world)
    | _ => x
  | .wait ms => { x with world := { x.world with clock := x.world.clock + ms } }

/-- After all of this was done. -/
def after (p : Provisioner) (x : Site) (deeds : List (String × Deed)) : Site :=
  deeds.foldl (fun x d => x.act p d.1 d.2) x

end Site

end Testbed
