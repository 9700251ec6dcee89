import Testbed.Shell.Arithmetic
import Testbed.Shell.Machine

/-! Putting values into words. Each piece of a word gives items; the items of a word are one text
where one text is wanted, and otherwise fields, each of which may stand for several paths. -/
namespace Testbed.Shell

open Tool (Bytes)

/-- Runs a script and gives what it prints. -/
abbrev Capture := List Char → Act Bytes

/-! ### Values -/

/-- A value in its place: kept as it is in quotes, cut into fields outside. -/
def valueItems (inQuotes : Bool) (cs : List Char) : List Item :=
  if inQuotes then .mark :: cs.map .fixed else cs.map .loose

/-- All positional parameters, each a field of its own. -/
def paramItems (inQuotes : Bool) (params : List String) : List Item :=
  if params.isEmpty then [.vanished]
  else List.intercalate [.edge] (params.map (fun p => valueItems inQuotes p.toList))

/-- All positional parameters as one text. -/
def joinedParams (s : State) : List Char :=
  let between := match s.value? "IFS" with
    | none => [' ']
    | some ifs => ifs.toList.take 1
  List.intercalate between (s.params.map String.toList)

def parameterItems (name : String) (inQuotes : Bool) : Act (List Item) := do
  let s ← getShell
  if name = "@" || (name = "*" && !inQuotes) then return paramItems inQuotes s.params
  else if name = "*" then return valueItems true (joinedParams s)
  else
    match s.parameter? name with
    | some v => return valueItems inQuotes v.toList
    | none =>
      if s.nounset then
        complain s!"{name}: parameter not set"
        leave 2
      else return valueItems inQuotes []

/-- Whether a parameter has a value; with `orEmpty`, one that is not empty. -/
def isGiven (name : String) (orEmpty : Bool) : Act Bool := do
  match (← getShell).parameter? name with
  | some v => return !(orEmpty && v.isEmpty)
  | none => return false

/-- A word in the place of a value. -/
def substituteItems (inQuotes : Bool) (items : List Item) : List Item :=
  let placed (item : Item) : Item :=
    match item with
    | .plain c => if inQuotes then .fixed c else .loose c
    | _ => item
  (if inQuotes then [.mark] else []) ++ items.map placed

def trimText (side : TrimEnd) (longest : Bool) (pattern : List Item) (cs : List Char) : List Char :=
  let p := Pattern.ofGlyphs (itemGlyphs pattern)
  match side with
  | .front => trimFront p longest cs
  | .back => trimBack p longest cs

/-- What a script printed, without newlines at its end. -/
def outputText (bytes : Bytes) : List Char :=
  ((Text.decodeLossy (bytes.filter (· ≠ 0))).toList.reverse.dropWhile (· = '\n')).reverse

/-- The value of an expression, in digits. -/
def compute (expr : List Char) : Act (List Char) := do
  let s ← getShell
  match Arithmetic.evaluate (fun name => (s.value? name).getD "") expr with
  | .ok (n, assigned) =>
    for (name, value) in assigned.reverse do
      modifyShell (fun s => s.set name (toString value))
    return (toString n).toList
  | .error fault =>
    complain (fault.message (String.ofList expr))
    leave 2

/-! ### Words -/

mutual

def pieceItems (capture : Capture) : Piece → Act (List Item)
  | .plain text => return text.map .plain
  | .quoted text => return .mark :: text.map .fixed
  | .value name inQuotes => parameterItems name inQuotes
  | .length name inQuotes => do
    let v := ((← getShell).parameter? name).getD ""
    return valueItems inQuotes (toString v.length).toList
  | .fallback name orEmpty assign word inQuotes => do
    if ← isGiven name orEmpty then parameterItems name inQuotes
    else
      let items ← wordItems capture word
      if assign then
        let text := itemText items
        modifyShell (fun s => s.set name (String.ofList text))
        return valueItems inQuotes text
      else return substituteItems inQuotes items
  | .alternative name orEmpty word inQuotes => do
    if ← isGiven name orEmpty then return substituteItems inQuotes (← wordItems capture word)
    else return valueItems inQuotes []
  | .demand name orEmpty word inQuotes => do
    if ← isGiven name orEmpty then parameterItems name inQuotes
    else
      let text := itemText (← wordItems capture word)
      let default := if orEmpty then "parameter not set or null" else "parameter not set"
      complain s!"{name}: {if word.isEmpty then default else String.ofList text}"
      leave 2
  | .trimmed name side longest pattern inQuotes => do
    let v := ((← getShell).parameter? name).getD ""
    let items ← wordItems capture pattern
    return valueItems inQuotes (trimText side longest items v.toList)
  | .output script inQuotes => do
    return valueItems inQuotes (outputText (← capture script))
  | .misnamed => do
    complain "Bad substitution"
    leave 2
  | .arithmetic expr inQuotes => do
    let items ← wordItems capture expr
    return valueItems inQuotes (← compute (itemText items))

def wordItems (capture : Capture) : List Piece → Act (List Item)
  | [] => return []
  | p :: rest => do
    let here ← pieceItems capture p
    return here ++ (← wordItems capture rest)

end

/-- A word that begins with a tilde begins with the home directory. -/
def homeward (s : State) (word : Word) : Word :=
  match word with
  | .plain ('~' :: text) :: rest =>
    if text.head? = some '/' || (text.isEmpty && rest.isEmpty) then
      .quoted ((s.value? "HOME").getD "~").toList :: .plain text :: rest
    else word
  | _ => word

/-- The text of a word that is not cut. -/
def textOf (capture : Capture) (word : Word) : Act String := do
  let items ← wordItems capture (homeward (← getShell) word)
  return String.ofList (itemText items)

def glyphsOf (capture : Capture) (word : Word) : Act (List Glyph) := do
  return itemGlyphs (← wordItems capture word)

/-- The fields of a word, with patterns replaced by the paths that match. -/
def fieldsOf (capture : Capture) (word : Word) : Act (List String) := do
  let items ← wordItems capture (homeward (← getShell) word)
  let m ← get
  let fields := cutFields m.shell.separators .start items
  if m.shell.noglob then return fields.map (fun f => String.ofList (f.map Prod.fst))
  else return fields.flatMap (expandPaths m.scene.tree m.shell.cwd)

def fieldsOfAll (capture : Capture) : List Word → Act (List String)
  | [] => return []
  | w :: rest => do
    let here ← fieldsOf capture w
    return here ++ (← fieldsOfAll capture rest)

end Testbed.Shell
