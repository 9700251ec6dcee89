import Testbed.Host.Tree
import Testbed.Text.Utf8

/-! Operations on files by path. Each looks the path up, and fails the way the system does or gives
a changed tree; those that go on step by step may fail in the middle, and what they did stays.
Directories and files can be entered and read by everyone; the mode of a file only decides whether it
can be executed. -/
namespace Testbed.Host.Tree

/-- What a path leads to, links followed. -/
def stat (t : Tree) (cwd : Location) (path : String) : Except OsError (Location × Entry) :=
  match t.follow true cwd path with
  | .found loc entry => .ok (loc, entry)
  | .free .. => .error .notFound
  | .failed cause => .error cause

/-- What a path names, its own last link not followed. -/
def lstat (t : Tree) (cwd : Location) (path : String) : Except OsError (Location × Entry) :=
  match t.follow false cwd path with
  | .found loc entry => .ok (loc, entry)
  | .free .. => .error .notFound
  | .failed cause => .error cause

def exists? (t : Tree) (cwd : Location) (path : String) : Bool := (t.stat cwd path).isOk

def isDirectory (t : Tree) (cwd : Location) (path : String) : Bool :=
  match t.stat cwd path with
  | .ok (_, .directory) => true
  | _ => false

/-- A regular file that someone may execute. -/
def isExecutable (t : Tree) (cwd : Location) (path : String) : Bool :=
  match t.stat cwd path with
  | .ok (_, .file (.bytes _) mode) | .ok (_, .file (.tool _) mode) => mode &&& 0o111 != 0
  | _ => false

/-- The place that a path leads to, free of links. -/
def canonical? (t : Tree) (cwd : Location) (path : String) : Option Location :=
  match t.stat cwd path with
  | .ok (loc, _) => some loc
  | .error _ => none

def locationText (loc : Location) : String := "/" ++ "/".intercalate loc

/-! ### Contents -/

def bodyOf (t : Tree) (cwd : Location) (path : String) : Except OsError Body :=
  match t.stat cwd path with
  | .ok (_, .file body _) => .ok body
  | .ok (_, .directory) => .error .isDirectory
  | .ok (_, .link _) => .error .tooManyLinks
  | .error cause => .error cause

def dataOf : Body → List UInt8
  | .bytes data => data
  | _ => []

def read (t : Tree) (cwd : Location) (path : String) : Except OsError (List UInt8) :=
  (t.bodyOf cwd path).map dataOf

def readText (t : Tree) (cwd : Location) (path : String) : Except OsError String :=
  match t.read cwd path with
  | .ok data =>
    match Text.decode? data with
    | some text => .ok text
    | none => .error .notUtf8
  | .error cause => .error cause

def newFileMode : Nat := 0o644

/-- Changes the contents of a file; a file that is not there is made, and a device keeps nothing. -/
def update (t : Tree) (cwd : Location) (path : String) (change : List UInt8 → List UInt8) :
    Except OsError (Location × Tree) :=
  match t.follow true cwd path with
  | .found loc (.file (.bytes data) mode) => .ok (loc, t.set loc (.file (.bytes (change data)) mode))
  | .found loc (.file (.tool _) mode) => .ok (loc, t.set loc (.file (.bytes (change [])) mode))
  | .found loc (.file _ _) => .ok (loc, t)
  | .found _ .directory => .error .isDirectory
  | .found _ (.link _) => .error .tooManyLinks
  | .free _ _ true => .error .isDirectory
  | .free parent name false =>
    .ok (parent ++ [name], t.set (parent ++ [name]) (.file (.bytes (change [])) newFileMode))
  | .failed cause => .error cause

def write (t : Tree) (cwd : Location) (path : String) (data : List UInt8) : Except OsError Tree :=
  (t.update cwd path (fun _ => data)).map Prod.snd

def setMode (t : Tree) (cwd : Location) (path : String) (change : Nat → Nat) :
    Except OsError Tree :=
  match t.stat cwd path with
  | .ok (loc, .file body mode) => .ok (t.set loc (.file body (change mode)))
  | .ok _ => .ok t
  | .error cause => .error cause

/-! ### Directories -/

def makeDir (t : Tree) (cwd : Location) (path : String) : Except OsError Tree :=
  match t.follow false cwd path with
  | .found .. => .error .exists
  | .free parent name _ => .ok (t.set (parent ++ [name]) .directory)
  | .failed cause => .error cause

/-- Makes the directory that a path names, unless one is there. -/
def ensureDir (t : Tree) (cwd : Location) (path : String) : Except OsError Tree :=
  match t.makeDir cwd path with
  | .ok t' => .ok t'
  | .error cause => if t.isDirectory cwd path then .ok t else .error cause

/-- The path up to but without its last name. -/
def parentPath (path : String) : String :=
  let cs := path.toList.reverse.dropWhile (· = '/')
  let rest := (cs.dropWhile (· ≠ '/')).dropWhile (· = '/')
  if rest.isEmpty then (if path.toList.head? = some '/' then "/" else "")
  else String.ofList rest.reverse

/-- Makes a directory with all that are missing above it: the lowest first tries, and whoever finds
its parent missing has that one made and tries again. -/
def makeDirs : Nat → Tree → Location → String → Except (Fault Tree) Tree
  | 0, t, _, _ => .error ⟨.notFound, t⟩
  | fuel + 1, t, cwd, path =>
    if path.isEmpty then .ok t
    else
      match t.makeDir cwd path with
      | .ok t' => .ok t'
      | .error .notFound =>
        match makeDirs fuel t cwd (parentPath path) with
        | .ok t' => (t'.ensureDir cwd path).mapError (fun cause => ⟨cause, t'⟩)
        | .error fault => .error fault
      | .error cause => if t.isDirectory cwd path then .ok t else .error ⟨cause, t⟩

def makeDirAll (t : Tree) (cwd : Location) (path : String) : Except (Fault Tree) Tree :=
  makeDirs (path.length + 2) t cwd path

/-- The path without the separators at its end. -/
def unclosed (path : String) : String :=
  String.ofList (path.toList.reverse.dropWhile (· = '/')).reverse

/-- What stands behind the last separator of a path that does not end in one. -/
def lastName (path : String) : String :=
  String.ofList ((unclosed path).toList.reverse.takeWhile (· ≠ '/')).reverse

/-- Removes the empty directory that a path names. One that is named from within, or from below, is
not removed. -/
def removeDir (t : Tree) (cwd : Location) (path : String) : Except OsError Tree :=
  if unclosed path = "" ∧ path ≠ "" then .error .busy
  else
    match t.lstat cwd (unclosed path) with
    | .ok (loc, .directory) =>
      if lastName path = "." then .error .invalidArgument
      else if lastName path = ".." then .error .notEmpty
      else if (t.children loc).isEmpty then .ok (t.erase loc)
      else .error .notEmpty
    | .ok _ => .error .notDirectory
    | .error cause => .error cause

/-- Removes a directory with all that is in it. The directory is emptied first and then removed by
its path, which may have led through what is gone by then: in that case the directory stays. A link
is removed itself; a file is no directory. -/
def removeTree (t : Tree) (cwd : Location) (path : String) : Except (Fault Tree) Tree :=
  match t.lstat cwd path with
  | .ok (loc, .directory) =>
    match (t.hollow loc).removeDir cwd path with
    | .ok t' => .ok t'
    | .error .notFound => .ok (t.hollow loc)
    | .error cause => .error ⟨cause, t.hollow loc⟩
  | .ok (loc, .link _) => .ok (t.erase loc)
  | .ok (_, .file ..) => .error ⟨.notDirectory, t⟩
  | .error cause => .error ⟨cause, t⟩

/-- Removes what is no directory. -/
def removeFile (t : Tree) (cwd : Location) (path : String) : Except OsError Tree :=
  match t.lstat cwd path with
  | .ok (_, .directory) => .error .isDirectory
  | .ok (loc, _) => .ok (t.erase loc)
  | .error cause => .error cause

def makeLink (t : Tree) (cwd : Location) (path target : String) : Except OsError Tree :=
  match t.follow false cwd path with
  | .found .. => .error .exists
  | .free parent name _ => .ok (t.set (parent ++ [name]) (.link target))
  | .failed cause => .error cause

/-! ### Listing -/

def showEntry (loc : Location) (entry : Entry) : String :=
  "/".intercalate loc ++ (if entry = .directory then "/" else "")

/-- Everything below a directory, sorted; directories end in a separator. -/
def listing (t : Tree) (loc : Location) : List String :=
  ((t.below loc).map (fun e => showEntry e.1 e.2)).mergeSort (fun a b => decide (a ≤ b))

end Testbed.Host.Tree
