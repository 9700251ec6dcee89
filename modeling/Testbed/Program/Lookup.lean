import Testbed.Context.Basic
import Testbed.Program.Error

/-! Where the program of a command is found. External programs come from the ambient system, all
others from the context alone. A program with a separator in it is a path, below the root for the
one and below the context for the other. -/
namespace Testbed.Lookup

def isPathLike (program : String) : Bool := program.toList.contains '/'

def ambientHint (program : String) : String :=
  s!"Did you install \"{program}\"? It was not found on PATH."

def isolatedHint (program env : String) : String :=
  s!"Did you install \"{program}\"? It is not installed in environment '{env}'; " ++
    "declare it in deps or add it to allowlist_externals."

/-- Only what can be executed. -/
def usable (h : Host) (p : Path) : Option Path := if h.isExecutable p then some p else none

def ambient? (h : Host) (c : Context) (program : String) : Option Path :=
  if isPathLike program then usable h (c.root.join program) else h.findInPath? program

/-- Whether a path leads to a place inside the context, links resolved on both sides. -/
def isInside (h : Host) (c : Context) (p : Path) : Bool :=
  match h.canonical? p, h.canonical? c.dir with
  | some loc, some dir => dir.isPrefixOf loc
  | _, _ => false

def isolated? (h : Host) (c : Context) (program : String) : Option Path :=
  if isPathLike program then
    let p := c.dir.join program
    if isInside h c p then usable h p else none
  else usable h (c.binDir.join program)

def ambient (h : Host) (c : Context) (program : String) : Except CommandError Path :=
  match ambient? h c program with
  | some p => .ok p
  | none => .error (.notFound program (ambientHint program))

def isolated (h : Host) (c : Context) (program : String) : Except CommandError Path :=
  match isolated? h c program with
  | some p => .ok p
  | none => .error (.notFound program (isolatedHint program c.name))

end Testbed.Lookup
