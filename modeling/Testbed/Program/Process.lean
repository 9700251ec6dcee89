import Testbed.Host.Basic

/-! Starting a program and following it: to its end, to a deadline at which it is killed, or for
ever. What it wrote is kept together with how long someone keeps each of its outputs open, which may
be longer than it lives itself. -/
namespace Testbed.Process

open Host (Location Tree OsError)

/-- What is needed to start a program. -/
structure Order where
  path : String
  argv : List String
  vars : Vars
  cwd : Location
deriving DecidableEq, Repr

inductive Finish where
  /-- Without a code when a signal ended it. -/
  | exited (code : Option Int)
  | killed
  | endless
deriving DecidableEq, Repr

/-- The course of a program, in milliseconds from its start. -/
structure Course where
  tree : Tree
  finish : Finish
  ended : Nat
  stdout : List UInt8
  stdoutUntil : Nat
  stderr : List UInt8
  stderrUntil : Nat

/-- What programs do: one is started among files and followed until it ends, until a deadline or for
ever, or it cannot be started. -/
abbrev Programs := Tree → Order → Option Nat → Except OsError Course

/-- Arguments and variables end at a zero character, so that none may hold one. -/
def holdsNul (argv : List String) (vars : Vars) : Bool :=
  let bad (s : String) : Bool := s.toList.contains (Char.ofNat 0)
  argv.any bad || vars.any (fun v => bad v.1 || bad v.2)

/-- The directory in which a program is started. -/
def startDir (h : Host) (p : Path) : Except OsError Location :=
  match h.stat p with
  | .ok (loc, .directory) => .ok loc
  | .ok _ => .error .notDirectory
  | .error .nulInPath => .error .nulInData
  | .error cause => .error cause

/-- The path of a program that is started by its name: the first in the search path that can be
started. One that may not be executed is only remembered. -/
def search (h : Host) (cwd : Location) (program : String) : Except OsError String :=
  if program.isEmpty then .error .notFound
  else if program.toList.contains '/' then .ok program
  else
    let paths := (Host.searchDirs ((h.vars.get? "PATH").getD "/bin:/usr/bin")).map (fun dir =>
      (dir.join program).text)
    let there (p : String) : Bool := h.tree.exists? cwd p
    match paths.find? (fun p => h.tree.isExecutable cwd p) with
    | some p => .ok p
    | none => .error (if paths.any there then .permissionDenied else .notFound)

/-- Starts a program in a directory and follows it; `find` gives its path there. Text that cannot be
handed over is noticed first. -/
def launch (programs : Programs) (h : Host) (dir : Path) (find : Location → Except OsError String)
    (argv : List String) (vars : Vars) (deadline : Option Nat) : Except OsError Course :=
  if holdsNul argv vars then .error .nulInData
  else
    match startDir h dir with
    | .error cause => .error cause
    | .ok cwd =>
      match find cwd with
      | .error cause => .error cause
      | .ok path => programs h.tree ⟨path, argv, vars, cwd⟩ deadline

end Testbed.Process
