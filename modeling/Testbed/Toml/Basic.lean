/-! TOML values. Floats keep their text, and date-times one text for all their spellings. The keys
of a table are distinct, and keep the order in which they were first mentioned. -/
namespace Testbed

inductive Toml where
  | string (s : String)
  | integer (n : Int)
  | boolean (b : Bool)
  | float (text : String)
  | dateTime (text : String)
  | array (items : List Toml)
  | table (members : List (String × Toml))
deriving Repr, Inhabited

namespace Toml

def asString? : Toml → Option String
  | .string s => some s
  | _ => none

def asBool? : Toml → Option Bool
  | .boolean b => some b
  | _ => none

/-- An integer with `low ≤ n ≤ high`. -/
def asInt? (low high : Int) : Toml → Option Int
  | .integer n => if low ≤ n ∧ n ≤ high then some n else none
  | _ => none

def asNat? : Toml → Option Nat
  | .integer (.ofNat n) => some n
  | _ => none

def asList? (f : Toml → Option α) : Toml → Option (List α)
  | .array items => items.mapM f
  | _ => none

/-- The key under which a date-time counts as a table of its own. -/
def dateTimeKey : String := "$__toml_private_datetime"

/-- A table whose values are all alike. A date-time is one with a single key, which holds its
text. -/
def asMap? (f : Toml → Option α) : Toml → Option (List (String × α))
  | .table members => members.mapM (fun m => (f m.2).map (fun a => (m.1, a)))
  | .dateTime text => (f (.string text)).map (fun a => [(dateTimeKey, a)])
  | _ => none

/-- A field of a record: its key, and whether an array that stands for the record may end before
it. -/
structure Key where
  name : String
  droppable : Bool
deriving Repr

/-- The fields of a record, in the order of its keys. A table may leave out any key and may hold no
other; an array holds the fields in order and may end early only where the rest is droppable. -/
def record? (keys : List Key) : Toml → Option (List (Option Toml))
  | .table members =>
    if members.all (fun m => keys.any (fun k => k.name == m.1)) then
      some (keys.map (fun k => (members.find? (fun m => m.1 == k.name)).map Prod.snd))
    else none
  | .array items =>
    if items.length ≤ keys.length && (keys.drop items.length).all Key.droppable then
      some (items.map some ++ (keys.drop items.length).map (fun _ => none))
    else none
  | _ => none

/-- A field that may be missing. -/
def optional (f : Toml → Option α) : Option Toml → Option (Option α)
  | some v => (f v).map some
  | none => some none

end Toml

end Testbed
