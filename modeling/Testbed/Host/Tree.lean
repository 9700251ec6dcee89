import Testbed.Host.OsError
import Testbed.Text.Blank

/-! A file tree: what stands at each place, where a place is the list of names that leads there from
the root. The root is always a directory, and a place is reachable when all places above it are
directories. -/
namespace Testbed.Host

abbrev Location := List String

/-- What a file holds: bytes, a program of the system, or one of two devices. -/
inductive Body where
  | bytes (data : List UInt8)
  | tool (name : String)
  | zeros
  | sink
deriving DecidableEq, Repr

inductive Entry where
  | directory
  | file (body : Body) (mode : Nat)
  | link (target : String)
deriving DecidableEq, Repr

structure Tree where
  entries : List (Location × Entry)
deriving DecidableEq, Repr, Inhabited

namespace Tree

def empty : Tree := ⟨[]⟩

def get? (t : Tree) (loc : Location) : Option Entry :=
  if loc = [] then some .directory
  else (t.entries.find? (fun e => e.1 == loc)).map Prod.snd

def set (t : Tree) (loc : Location) (entry : Entry) : Tree :=
  ⟨t.entries.filter (fun e => e.1 != loc) ++ [(loc, entry)]⟩

/-- Without the place and everything below it. -/
def erase (t : Tree) (loc : Location) : Tree :=
  ⟨t.entries.filter (fun e => !loc.isPrefixOf e.1)⟩

/-- Without everything below the place, which itself stays. -/
def hollow (t : Tree) (loc : Location) : Tree :=
  ⟨t.entries.filter (fun e => !(loc.isPrefixOf e.1 && e.1 != loc))⟩

/-- Everything strictly below a place, by the rest of its path. -/
def below (t : Tree) (loc : Location) : List (Location × Entry) :=
  t.entries.filterMap (fun e =>
    if loc.isPrefixOf e.1 && e.1 != loc then some (e.1.drop loc.length, e.2) else none)

/-- The names of what stands directly in a directory. -/
def children (t : Tree) (loc : Location) : List String :=
  (t.below loc).filterMap (fun e =>
    match e.1 with
    | [name] => some name
    | _ => none)

/-! ### Walking a path -/

/-- Where a path leads: to something, to a free place in a directory, or nowhere. `closed` says that
the path to the free place ended in a separator. -/
inductive Walked where
  | found (loc : Location) (entry : Entry)
  | free (parent : Location) (name : String) (closed : Bool)
  | failed (cause : OsError)
deriving DecidableEq, Repr

def namesOf (path : String) : List String :=
  (Text.pieces (· == '/') path.toList).map String.ofList

def maxLinks : Nat := 40

def maxName : Nat := 255

/-- Goes through the names of a path from a place. An empty name and `.` stay, `..` goes up, and
links are followed, the last name's only on demand. -/
def walk (t : Tree) (followLast : Bool) (links : Nat) (loc : Location) (names : List String) :
    Walked :=
  match t.get? loc with
  | none => .failed .notFound
  | some here =>
    match names with
    | [] => .found loc here
    | name :: rest =>
      if here ≠ .directory then .failed .notDirectory
      else if name = "" ∨ name = "." then walk t followLast links loc rest
      else if name = ".." then walk t followLast links loc.dropLast rest
      else if maxName < name.utf8ByteSize then .failed .nameTooLong
      else
        match t.get? (loc ++ [name]) with
        | none =>
          if rest.all (· == "") then .free loc name (!rest.isEmpty) else .failed .notFound
        | some (.link target) =>
          if rest.isEmpty && !followLast then .found (loc ++ [name]) (.link target)
          else
            match links with
            | 0 => .failed .tooManyLinks
            | links' + 1 =>
              let origin := if target.toList.head? = some '/' then [] else loc
              walk t followLast links' origin (namesOf target ++ rest)
        | some _ => walk t followLast links (loc ++ [name]) rest
termination_by (links, names.length)

/-- Follows a path from the directory `cwd`, unless the path is absolute. -/
def follow (t : Tree) (followLast : Bool) (cwd : Location) (path : String) : Walked :=
  if path.toList.contains (Char.ofNat 0) then .failed .nulInPath
  else if path.isEmpty then .failed .notFound
  else
    t.walk followLast maxLinks (if path.toList.head? = some '/' then [] else cwd) (namesOf path)

end Tree

end Testbed.Host
