/-! JSON values. An integer keeps its value; every other number, `-0` among them, keeps its text.
The members of an object keep their order and their repetitions. -/
namespace Testbed

inductive Json where
  | null
  | bool (b : Bool)
  | int (n : Int)
  | real (text : String)
  | string (s : String)
  | array (items : List Json)
  | object (members : List (String × Json))
deriving Repr, Inhabited

namespace Json

def nat (n : Nat) : Json := .int n

def ofOption (f : α → Json) : Option α → Json
  | none => .null
  | some a => f a

def strings (ss : List String) : Json := .array (ss.map .string)

/-- The first member of that name. -/
def get? (j : Json) (key : String) : Option Json :=
  match j with
  | .object members => (members.find? (fun m => m.1 == key)).map Prod.snd
  | _ => none

/-- Every member of that name. -/
def membersNamed (members : List (String × Json)) (key : String) : List Json :=
  (members.filter (fun m => m.1 == key)).map Prod.snd

def asString? : Json → Option String
  | .string s => some s
  | _ => none

def asBool? : Json → Option Bool
  | .bool b => some b
  | _ => none

/-- An integer with `low ≤ n ≤ high`. -/
def asInt? (low high : Int) : Json → Option Int
  | .int n => if low ≤ n ∧ n ≤ high then some n else none
  | _ => none

/-- A natural number below `2 ^ 64`. -/
def asNat64? : Json → Option Nat
  | .int (.ofNat n) => if n < UInt64.size then some n else none
  | _ => none

/-- A signed integer of 32 bits. -/
def asInt32? : Json → Option Int := asInt? (-2147483648) 2147483647

def asList? (f : Json → Option α) : Json → Option (List α)
  | .array items => items.mapM f
  | _ => none

/-- `null` or a value. -/
def asNullable? (f : Json → Option α) : Json → Option (Option α)
  | .null => some none
  | j => (f j).map some

/-! ### Records -/

/-- The members of a record in the order of `keys`: from an array, one element for each key; from an
object, each key at most once, while other members are passed over. -/
def record? (keys : List String) : Json → Option (List (Option Json))
  | .array items => if items.length = keys.length then some (items.map some) else none
  | .object members =>
    keys.mapM (fun key =>
      match membersNamed members key with
      | [] => some none
      | [j] => some (some j)
      | _ => none)
  | _ => none

/-- A member that must be there. -/
def required (f : Json → Option α) : Option Json → Option α
  | some j => f j
  | none => none

/-- A member that may be missing or `null`. -/
def optional (f : Json → Option α) : Option Json → Option (Option α)
  | some j => asNullable? f j
  | none => some none

/-- One of a few words: as a string, or as the only key of an object over `null`. -/
def word? : Json → Option String
  | .string s => some s
  | .object [(s, .null)] => some s
  | _ => none

end Json

end Testbed
