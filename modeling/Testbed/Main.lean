import Std.Time.DateTime.Timestamp
import Testbed.CommandLine.Session
import Testbed.Host.Stock
import Testbed.Program.System

/-! The program. A session works on a host as a value, so here one is made of what stands below the
current directory and of some variables, and what the session changed is written back. -/
namespace Testbed.Program

open Host (Location Tree Body Entry)

/-- The variables that a session looks at or hands on. -/
def variableNames : List String :=
  ["PATH", "HOME", "USER", "LANG", "LC_ALL", "TMPDIR", CommandLine.configVariable,
   CommandLine.filterVariable]

def readVars : IO Vars := do
  let mut vars : Vars := []
  for name in variableNames do
    if let some value ← IO.getEnv name then vars := vars.set name value
  return vars

/-- A file that begins as a script does can be executed. -/
def modeOf (data : List UInt8) : Nat := if [35, 33].isPrefixOf data then 0o755 else 0o644

partial def readTree (entries : Array IO.FS.DirEntry) (loc : Location) (t : Tree) : IO Tree := do
  let mut tree := t
  for e in entries do
    let place := loc ++ [e.fileName]
    match (← e.path.metadata.toBaseIO).toOption.map IO.FS.Metadata.type with
    | some .dir => tree ← readTree (← e.path.readDir) place (tree.set place .directory)
    | some .file =>
      let data := (← IO.FS.readBinFile e.path).toList
      tree := tree.set place (.file (.bytes data) (modeOf data))
    | _ => pure ()
  return tree

/-- The directories above a place, and the place itself. -/
def withDirectories (loc : Location) (t : Tree) : Tree :=
  (List.range (loc.length + 1)).foldl (fun t n =>
    let above := loc.take n
    if (t.get? above).isSome then t else t.set above .directory) t

def readHost : IO Host := do
  let here ← IO.currentDir
  let loc := (Tree.namesOf here.toString).filter (fun name => name ≠ "")
  let tree ← readTree (← here.readDir) loc (withDirectories loc Host.Stock.base)
  return ⟨tree, ← readVars, loc⟩

/-! ### Writing back -/

def removeGone (before after : Tree) : IO Unit := do
  for (loc, entry) in before.entries do
    if (after.get? loc).isNone && (before.get? loc.dropLast == after.get? loc.dropLast) then
      let path := Tree.locationText loc
      match entry with
      | .directory => IO.FS.removeDirAll path
      | _ => IO.FS.removeFile path

def writeEntry (loc : Location) (entry : Entry) : IO Unit := do
  let path := Tree.locationText loc
  match entry with
  | .directory => IO.FS.createDirAll path
  | .file (.bytes data) mode =>
    IO.FS.writeBinFile path ⟨data.toArray⟩
    if mode &&& 0o111 ≠ 0 then
      IO.setAccessRights path
        ⟨⟨true, true, true⟩, ⟨true, false, true⟩, ⟨true, false, true⟩⟩
  | _ => pure ()

def writeBack (before after : Tree) : IO Unit := do
  removeGone before after
  for (loc, entry) in after.entries.mergeSort (fun a b => a.1.length ≤ b.1.length) do
    if before.get? loc ≠ some entry then writeEntry loc entry

/-! ### Calling -/

/-- An identifier at random, with the two digits that say so. -/
def randomId : IO Uuid := do
  let mut digits : List (Fin 16) := []
  for left in List.range 32 do
    let n ← IO.rand 0 15
    let digit := if left = 19 then 4 else if left = 15 then 8 + n % 4 else n
    digits := Uuid.lastDigit digit :: digits
  if h : digits.length = 32 then return ⟨digits, h⟩ else return .nil

def logText (json : Bool) (l : CommandLine.LogLine) : String :=
  if json then
    (Json.object [("level", .string l.level.label), ("message", .string l.what),
      ("env", .ofOption .string l.env), ("span", .ofOption .string l.span)]).compact
  else s!"{l.level.label} {l.what}"

def call (args : List String) : IO UInt32 := do
  let host ← readHost
  let now ← Std.Time.Timestamp.now
  let date := Timestamp.ofNanos now.toNanosecondsSinceUnixEpoch.toInt.toNat
  let o := CommandLine.session (.of Shell.programs) (← randomId) date host args
  for line in o.log do
    IO.eprintln (logText o.json line)
  IO.print o.stdout
  if let some failure := o.failure then IO.eprint failure.text
  writeBack host.tree o.host.tree
  return UInt32.ofNat o.code

end Testbed.Program

def main (args : List String) : IO UInt32 := Testbed.Program.call args
