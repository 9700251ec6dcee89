import Testbed.Host.Tree

/-! Patterns: a star stands for any text, a question mark for one character, and brackets for one of
several. Names that a pattern matches are found in the tree. -/
namespace Testbed.Shell

inductive Atom where
  | any
  | one
  | set (negated : Bool) (ranges : List (Char × Char))
  | char (c : Char)
deriving DecidableEq, Repr

abbrev Pattern := List Atom

/-- A character with whether it may act as part of a pattern. -/
abbrev Glyph := Char × Bool

/-- The ranges up to a closing bracket. -/
def bracketRanges : Nat → List Glyph → Option (List (Char × Char) × List Glyph)
  | 0, _ => none
  | fuel + 1, gs =>
    match gs with
    | [] => none
    | (c, _) :: ('-', true) :: (d, active) :: r =>
      if d = ']' && active then (bracketRanges fuel (('-', true) :: (d, active) :: r)).map (fun p =>
        ((c, c) :: p.1, p.2))
      else (bracketRanges fuel r).map (fun p => ((c, d) :: p.1, p.2))
    | (c, active) :: r =>
      if c = ']' && active then some ([], r)
      else (bracketRanges fuel r).map (fun p => ((c, c) :: p.1, p.2))

def bracket? (gs : List Glyph) : Option (Atom × List Glyph) :=
  let (negated, r) := match gs with
    | ('!', true) :: r => (true, r)
    | _ => (false, gs)
  match r with
  | (']', true) :: r' =>
    (bracketRanges (r'.length + 1) r').map (fun p => (.set negated ((']', ']') :: p.1), p.2))
  | _ => (bracketRanges (r.length + 1) r).map (fun p => (.set negated p.1, p.2))

def patternOf : Nat → List Glyph → Pattern
  | 0, _ => []
  | _, [] => []
  | fuel + 1, (c, active) :: r =>
    if active && c = '*' then .any :: patternOf fuel r
    else if active && c = '?' then .one :: patternOf fuel r
    else if active && c = '[' then
      match bracket? r with
      | some (atom, r') => atom :: patternOf fuel r'
      | none => .char c :: patternOf fuel r
    else .char c :: patternOf fuel r

def Pattern.ofGlyphs (gs : List Glyph) : Pattern := patternOf (gs.length + 1) gs

def Atom.accepts (a : Atom) (c : Char) : Bool :=
  match a with
  | .any | .one => true
  | .set negated ranges => ranges.any (fun r => r.1 ≤ c && c ≤ r.2) != negated
  | .char d => c == d

def Pattern.matchesText (p : Pattern) (cs : List Char) : Bool :=
  match p, cs with
  | [], [] => true
  | [], _ :: _ => false
  | .any :: p', [] => matchesText p' []
  | .any :: p', c :: r => matchesText p' (c :: r) || matchesText (.any :: p') r
  | _ :: _, [] => false
  | a :: p', c :: r => a.accepts c && matchesText p' r
termination_by p.length + cs.length

/-! ### Trimming -/

/-- The lengths of all fronts of a text, shortest first. -/
def cuts (cs : List Char) : List Nat := List.range (cs.length + 1)

def trimFront (p : Pattern) (longest : Bool) (cs : List Char) : List Char :=
  let lengths := if longest then (cuts cs).reverse else cuts cs
  match lengths.find? (fun n => p.matchesText (cs.take n)) with
  | some n => cs.drop n
  | none => cs

def trimBack (p : Pattern) (longest : Bool) (cs : List Char) : List Char :=
  let lengths := if longest then cuts cs else (cuts cs).reverse
  match lengths.find? (fun n => p.matchesText (cs.drop n)) with
  | some n => cs.take n
  | none => cs

/-! ### Names in the tree -/

def isActive (gs : List Glyph) : Bool :=
  gs.any (fun g => g.2 && (g.1 = '*' || g.1 = '?' || g.1 = '['))

def glyphText (gs : List Glyph) : String := String.ofList (gs.map Prod.fst)

/-- The parts of a pattern between separators. -/
def splitGlyphs (gs : List Glyph) : List (List Glyph) :=
  gs.foldr (fun g ps =>
    if g.1 = '/' then [] :: ps
    else match ps with
      | [] => [[g]]
      | p :: rest => (g :: p) :: rest) [[]]

/-- Paths that match, part by part; `front` is the text of the parts before. -/
def expandParts (t : Host.Tree) (cwd : Host.Location) : String → List (List Glyph) → List String
  | front, [] => [front]
  | front, part :: rest =>
    let close (name : String) : String := front ++ name ++ (if rest.isEmpty then "" else "/")
    if isActive part then
      let here := if front.isEmpty then "." else front
      match t.follow true cwd here with
      | .found loc .directory =>
        let names := (t.children loc).mergeSort (fun a b => decide (a ≤ b))
        let hiddenWanted := part.head?.map Prod.fst = some '.'
        let found := names.filter (fun n =>
          (hiddenWanted || n.toList.head? ≠ some '.') &&
            (Pattern.ofGlyphs part).matchesText n.toList)
        found.flatMap (fun n => expandParts t cwd (close n) rest)
      | _ => []
    else expandParts t cwd (close (glyphText part)) rest

/-- The paths that a field stands for; itself when there are none. -/
def expandPaths (t : Host.Tree) (cwd : Host.Location) (gs : List Glyph) : List String :=
  if isActive gs then
    match (expandParts t cwd "" (splitGlyphs gs)).filter (fun p =>
      match t.follow false cwd p with
      | .found .. => true
      | _ => false) with
    | [] => [glyphText gs]
    | found => found
  else [glyphText gs]

end Testbed.Shell
