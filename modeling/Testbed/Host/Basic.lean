import Testbed.Host.Files
import Testbed.Path
import Testbed.Vars

/-! A host: its files, the variables that every program inherits, and the directory from which
relative paths are followed. -/
namespace Testbed

structure Host where
  tree : Host.Tree
  vars : Vars
  cwd : Host.Location
deriving Inhabited

namespace Host

def stat (h : Host) (p : Path) : Except OsError (Location × Entry) := h.tree.stat h.cwd p.text

def exists? (h : Host) (p : Path) : Bool := h.tree.exists? h.cwd p.text

def isExecutable (h : Host) (p : Path) : Bool := h.tree.isExecutable h.cwd p.text

def canonical? (h : Host) (p : Path) : Option Location := h.tree.canonical? h.cwd p.text

def read (h : Host) (p : Path) : Except OsError (List UInt8) := h.tree.read h.cwd p.text

def readText (h : Host) (p : Path) : Except OsError String := h.tree.readText h.cwd p.text

/-- The host after an operation on its files. -/
def withTree (h : Host) (r : Except (Fault Tree) Tree) : Except (Fault Host) Host :=
  match r with
  | .ok tree => .ok { h with tree := tree }
  | .error fault => .error ⟨fault.cause, { h with tree := fault.left }⟩

def write (h : Host) (p : Path) (data : List UInt8) : Except (Fault Host) Host :=
  h.withTree ((h.tree.write h.cwd p.text data).mapError (fun cause => ⟨cause, h.tree⟩))

def makeDirAll (h : Host) (p : Path) : Except (Fault Host) Host :=
  h.withTree (h.tree.makeDirAll h.cwd p.text)

def removeTree (h : Host) (p : Path) : Except (Fault Host) Host :=
  h.withTree (h.tree.removeTree h.cwd p.text)

/-- A call that changes files. -/
inductive FileCall where
  | remove (dir : Path)
  | makeDirs (path : Path)
  | write (path : Path) (data : List UInt8)
deriving DecidableEq, Repr

def perform (h : Host) : FileCall → Except (Fault Host) Host
  | .remove dir => h.removeTree dir
  | .makeDirs path => h.makeDirAll path
  | .write path data => h.write path data

/-- The host after a call, whether or not that failed. -/
def after (h : Host) (call : FileCall) : Host :=
  match h.perform call with
  | .ok h' => h'
  | .error fault => fault.left

/-! ### Searching -/

/-- The directories in a list of them that colons separate. -/
def searchDirs (list : String) : List Path :=
  (Text.pieces (· == ':') list.toList).map (fun cs => ⟨String.ofList cs⟩)

/-- The first executable of that name in the directories of the ambient search path. -/
def findInPath? (h : Host) (program : String) : Option Path :=
  match h.vars.get? "PATH" with
  | none => none
  | some list =>
    ((searchDirs list).map (fun dir => dir.join program)).find? (fun p => h.isExecutable p)

end Host

end Testbed
