import Testbed.Shell.Pattern

/-! From an expanded word to fields. What was put in outside quotes is cut at separators; quotes
keep a field even when it is empty. -/
namespace Testbed.Shell

/-- One item of an expanded word. -/
inductive Item where
  | fixed (c : Char)
  /-- Text that stood in the script without quotes. -/
  | plain (c : Char)
  /-- Text that was put in without quotes. -/
  | loose (c : Char)
  /-- The end of a field in any case. -/
  | edge
  /-- A pair of quotes. -/
  | mark
  /-- All positional parameters, of which there are none. -/
  | vanished
deriving DecidableEq, Repr

def Item.glyph? : Item → Option Glyph
  | .fixed c => some (c, false)
  | .plain c | .loose c => some (c, true)
  | _ => none

/-- A field in the making. -/
structure Field where
  glyphs : List Glyph
  marked : Bool
  vanished : Bool
deriving DecidableEq, Repr

def Field.start : Field := ⟨[], false, false⟩

def Field.isThere (f : Field) : Bool := !f.glyphs.isEmpty || (f.marked && !f.vanished)

def Field.finish (f : Field) : List (List Glyph) := if f.isThere then [f.glyphs.reverse] else []

/-- Cuts items into fields at the separators. -/
def cutFields (separators : List Char) : Field → List Item → List (List Glyph)
  | f, [] => f.finish
  | f, item :: rest =>
    match item with
    | .edge => f.finish ++ cutFields separators .start rest
    | .mark => cutFields separators { f with marked := true } rest
    | .vanished => cutFields separators { f with vanished := true } rest
    | .loose c =>
      if separators.contains c then
        if c = ' ' || c = '\t' || c = '\n' then f.finish ++ cutFields separators .start rest
        else [f.glyphs.reverse] ++ cutFields separators .start rest
      else cutFields separators { f with glyphs := (c, true) :: f.glyphs } rest
    | .plain c => cutFields separators { f with glyphs := (c, true) :: f.glyphs } rest
    | .fixed c => cutFields separators { f with glyphs := (c, false) :: f.glyphs } rest

/-- The text of items that are not cut. -/
def itemText (items : List Item) : List Char :=
  items.flatMap (fun item =>
    match item with
    | .edge => [' ']
    | _ => (item.glyph?.map Prod.fst).toList)

def itemGlyphs (items : List Item) : List Glyph :=
  items.flatMap (fun item =>
    match item with
    | .edge => [(' ', false)]
    | _ => item.glyph?.toList)

end Testbed.Shell
