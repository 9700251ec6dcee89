import Testbed.Toml.Basic

/-! Building the table of a document out of its statements. A table remembers how it came to be: by
a header of its own, by being passed through on the way to another, or by a dotted key. No key is
given twice, a header may define a table that was only passed through, and a dotted key may go only
through tables that dotted keys or headers of other tables brought about. -/
namespace Testbed.Toml

inductive Item where
  | value (v : Toml)
  /-- `implicit`: no header of its own yet; `dotted`: brought about by a dotted key. -/
  | table (implicit dotted : Bool) (entries : List (String × Item))
  /-- The tables of one repeated header. -/
  | tables (elements : List (List (String × Item)))
deriving Inhabited

abbrev Entries := List (String × Item)

namespace Entries

def get? (es : Entries) (key : String) : Option Item :=
  (es.find? (fun e => e.1 == key)).map Prod.snd

def set (es : Entries) (key : String) (item : Item) : Entries :=
  if es.any (fun e => e.1 == key) then es.map (fun e => if e.1 == key then (key, item) else e)
  else es ++ [(key, item)]

/-- Changes the table that `path` leads to from a table with the entries `es`; tables that are
missing on the way are made. `change` learns whether the table it gets is a dotted one. A repeated
header leads to its latest table. -/
def modifyAt (dotted : Bool) (change : Bool → Entries → Option Entries) :
    List String → Bool → Entries → Option Entries
  | [], isDotted, es => change isDotted es
  | key :: path, _, es =>
    match es.get? key with
    | none =>
      (modifyAt dotted change path dotted []).map
        (fun sub => es.set key (.table true dotted sub))
    | some (.value _) => none
    | some (.tables elements) =>
      match elements.getLast? with
      | none => none
      | some last =>
        (modifyAt dotted change path false last).map
          (fun sub => es.set key (.tables (elements.dropLast ++ [sub])))
    | some (.table implicit wasDotted sub) =>
      if dotted && !implicit then none
      else
        (modifyAt dotted change path wasDotted sub).map
          (fun sub' => es.set key (.table implicit wasDotted sub'))

/-- Adds one pair below a table; `path` holds the parts of the key before its last one. -/
def insert (path : List String) (key : String) (v : Toml) (isDotted : Bool) (es : Entries) :
    Option Entries :=
  modifyAt true
    (fun endsDotted target =>
      if endsDotted == path.isEmpty then none
      else if (target.get? key).isSome then none
      else some (target ++ [(key, .value v)]))
    path isDotted es

end Entries

/-! ### Statements -/

inductive Statement where
  | pair (path : List String) (key : String) (v : Toml)
  | header (path : List String) (key : String)
  | element (path : List String) (key : String)

/-- A document under construction: its entries, and the path of the header in force. -/
structure Document where
  entries : Entries
  current : List String

namespace Document

def start : Document := ⟨[], []⟩

def openTable (key : String) (es : Entries) : Option Entries :=
  match es.get? key with
  | none => some (es ++ [(key, .table false false [])])
  | some (.table true false sub) => some (es.set key (.table false false sub))
  | some _ => none

def openElement (key : String) (es : Entries) : Option Entries :=
  match es.get? key with
  | none => some (es ++ [(key, .tables [[]])])
  | some (.tables elements) => some (es.set key (.tables (elements ++ [[]])))
  | some _ => none

def add (d : Document) : Statement → Option Document
  | .pair path key v =>
    (d.entries.modifyAt false (fun isDotted es => es.insert path key v isDotted) d.current false).map
      (fun es => { d with entries := es })
  | .header path key =>
    (d.entries.modifyAt false (fun _ es => openTable key es) path false).map
      (fun es => ⟨es, path ++ [key]⟩)
  | .element path key =>
    (d.entries.modifyAt false (fun _ es => openElement key es) path false).map
      (fun es => ⟨es, path ++ [key]⟩)

end Document

/-! ### The finished value -/

mutual

def Item.toToml : Item → Toml
  | .value v => v
  | .table _ _ entries => .table (entryValues entries)
  | .tables elements => .array (elementValues elements)

def entryValues : List (String × Item) → List (String × Toml)
  | [] => []
  | e :: rest => entryValue e :: entryValues rest

def entryValue : String × Item → String × Toml
  | (key, item) => (key, item.toToml)

def elementValues : List (List (String × Item)) → List Toml
  | [] => []
  | es :: rest => .table (entryValues es) :: elementValues rest

end

/-- The value of an inline table from its pairs in order. -/
def inlineTable? (pairs : List (List String × String × Toml)) : Option Toml :=
  (pairs.foldlM (fun (es : Entries) p => es.insert p.1 p.2.1 p.2.2 false) []).map
    (fun es => .table (entryValues es))

end Testbed.Toml
