import Testbed.Text.Blank

/-! File paths as they are written: joining keeps the text of both sides and tidies nothing, and
two paths are alike when they have the same components. -/
namespace Testbed

structure Path where
  text : String
deriving DecidableEq, Repr, Inhabited

namespace Path

instance : ToString Path := ⟨Path.text⟩

def isAbsolute (p : Path) : Bool := p.text.toList.head? = some '/'

/-- An absolute right side replaces the left one; otherwise one separator stands between the two,
also before an empty right side. -/
def join (base : Path) (p : String) : Path :=
  if p.toList.head? = some '/' then ⟨p⟩
  else if base.text.toList.isEmpty || base.text.toList.getLast? = some '/' then ⟨base.text ++ p⟩
  else ⟨base.text ++ "/" ++ p⟩

/-! ### Components -/

inductive Component where
  | root
  | here
  | up
  | name (text : List Char)
deriving DecidableEq, Repr

def Component.ofPiece? : List Char → Option Component
  | [] => none
  | ['.'] => none
  | ['.', '.'] => some .up
  | cs => some (.name cs)

/-- Repeated and trailing separators are no components, and `.` is one only at the very front of a
relative path. -/
def components (p : Path) : List Component :=
  let ps := Text.pieces (· == '/') p.text.toList
  let front : List Component :=
    if p.isAbsolute then [.root] else if ps.head? = some ['.'] then [.here] else []
  front ++ ps.filterMap Component.ofPiece?

/-- Equality of paths up to spelling. -/
def alike (p q : Path) : Bool := p.components == q.components

/-- The last component, when it is a name. -/
def fileName? (p : Path) : Option String :=
  match p.components.getLast? with
  | some (.name cs) => some (String.ofList cs)
  | _ => none

/-- `s` without the separators and single dots that say nothing at its end; `reversed` holds the
text back to front. -/
def dropIdleEnd : Nat → List Char → List Char
  | 0, reversed => reversed
  | fuel + 1, reversed =>
    match reversed with
    | ['/'] => ['/']
    | '/' :: r => dropIdleEnd fuel r
    | '.' :: '/' :: r => dropIdleEnd fuel ('/' :: r)
    | r => r

/-- The path without its last component; `none` for a root and for the empty path. -/
def parent? (p : Path) : Option Path :=
  match p.components.getLast? with
  | none | some .root => none
  | some _ =>
    let n := p.text.length
    let tidy := dropIdleEnd n p.text.toList.reverse
    let rest := dropIdleEnd n (tidy.dropWhile (· ≠ '/'))
    some ⟨String.ofList rest.reverse⟩

end Path

end Testbed
