import Testbed.Config.Parse
import Testbed.Host.Basic

/-! Loading a configuration from a file. The root of the configuration is the directory of the file,
free of links where it can be found. -/
namespace Testbed.Config

/-- The directory that a configuration file stands in. -/
def dirOf (path : Path) : Path :=
  match path.parent? with
  | some dir => if dir.text.isEmpty then ⟨"."⟩ else dir
  | none => ⟨"."⟩

def rootOf (h : Host) (path : Path) : Path :=
  match h.canonical? (dirOf path) with
  | some loc => ⟨Host.Tree.locationText loc⟩
  | none => dirOf path

def readFile (h : Host) (path : Path) : Except Error String :=
  match h.readText path with
  | .ok text => .ok text
  | .error cause => .error (.unreadable path cause)

def load (h : Host) (path : Path) : Except Error Config :=
  match readFile h path with
  | .ok text => parse (rootOf h path) text
  | .error e => .error e

end Testbed.Config
