import Testbed.Text.Blank
import Testbed.Tool.Basic

/-! Programs that work on files and directories. -/
namespace Testbed.Tool

open Host (Location Tree OsError Entry Body)

/-! ### Removing -/

def removeOne (c : Call) (recursive force dirs : Bool) (path : String) : FileStep := fun t =>
  match t.lstat c.cwd path with
  | .error e =>
    if force && (e = .notFound || e = .notDirectory) then .ok t
    else .error s!"cannot remove {quote path}: {wording e}"
  | .ok (loc, .directory) =>
    if recursive then .ok (t.erase loc)
    else if dirs then
      if (t.children loc).isEmpty then .ok (t.erase loc)
      else .error s!"cannot remove {quote path}: {wording .notEmpty}"
    else .error s!"cannot remove {quote path}: {wording .isDirectory}"
  | .ok (loc, _) => .ok (t.erase loc)

def rm (c : Call) : Answer :=
  let (opts, paths) := options [] c.args
  let force := has opts 'f'
  if paths.isEmpty then
    if force then .quiet c 0
    else .complain c (missing c "operand") 1
  else
    eachStep c (paths.map (removeOne c (has opts 'r' || has opts 'R') force (has opts 'd')))

def rmdirOne (c : Call) (path : String) : FileStep := fun t =>
  mapError (fun e => s!"failed to remove {quote path}: {wording e}") (t.removeDir c.cwd path)

def rmdir (c : Call) : Answer := eachStep c ((options [] c.args).2.map (rmdirOne c))

/-! ### Making -/

def mkdirOne (c : Call) (parents : Bool) (path : String) : FileStep := fun t =>
  mapError (fun e => s!"cannot create directory {quote path}: {wording e}")
    (if parents then (t.makeDirAll c.cwd path).mapError Host.Fault.cause else t.makeDir c.cwd path)

def mkdir (c : Call) : Answer :=
  let (opts, paths) := options ['m'] c.args
  if paths.isEmpty then .complain c (missing c "operand") 1
  else eachStep c (paths.map (mkdirOne c (has opts 'p')))

def touchOne (c : Call) (noCreate : Bool) (path : String) : FileStep := fun t =>
  match t.stat c.cwd path with
  | .ok _ => .ok t
  | .error .notFound =>
    if noCreate then .ok t
    else mapError (fun e => s!"cannot touch {quote path}: {wording e}") (t.write c.cwd path [])
  | .error e => .error s!"cannot touch {quote path}: {wording e}"

def touch (c : Call) : Answer :=
  let (opts, paths) := options ['t', 'd', 'r'] c.args
  if paths.isEmpty then
    .complain c (missing c "file operand") 1
  else eachStep c (paths.map (touchOne c (has opts 'c')))

/-! ### Modes -/

def octal? (s : String) : Option Nat :=
  let digits := s.toList
  if !digits.isEmpty && digits.all (Text.isDigitIn 8) then some (Text.numberIn 8 digits) else none

def whoMask (cs : List Char) : Nat :=
  let mask (c : Char) : Nat :=
    if c = 'u' then 0o700 else if c = 'g' then 0o070 else if c = 'o' then 0o007 else 0o777
  if cs.isEmpty then 0o777 else cs.foldl (fun m c => m ||| mask c) 0

def permMask (mode : Nat) (cs : List Char) : Nat :=
  let mask (c : Char) : Nat :=
    if c = 'r' then 0o444 else if c = 'w' then 0o222 else if c = 'x' then 0o111
    else if c = 'X' && mode &&& 0o111 != 0 then 0o111 else 0
  cs.foldl (fun m c => m ||| mask c) 0

/-- One clause of a symbolic mode, such as `u+x`. -/
def symbolic? (clause : List Char) : Option (Nat → Nat) :=
  let isWho (c : Char) : Bool := "ugoa".toList.contains c
  let who := clause.takeWhile isWho
  match clause.dropWhile isWho with
  | op :: perms =>
    if (op = '+' || op = '-' || op = '=') && perms.all (fun p => "rwxX".toList.contains p) then
      some (fun mode =>
        let bits := permMask mode perms &&& whoMask who
        if op = '+' then mode ||| bits
        else if op = '-' then mode - (mode &&& bits)
        else (mode - (mode &&& whoMask who)) ||| bits)
    else none
  | [] => none

def modeChange? (spec : String) : Option (Nat → Nat) :=
  match octal? spec with
  | some mode => some (fun _ => mode)
  | none =>
    match (Text.pieces (· == ',') spec.toList).mapM symbolic? with
    | some changes => some (fun mode => changes.foldl (fun m f => f m) mode)
    | none => none

def chmodOne (c : Call) (change : Nat → Nat) (path : String) : FileStep := fun t =>
  mapError (fun e => s!"cannot access {quote path}: {wording e}") (t.setMode c.cwd path change)

def chmod (c : Call) : Answer :=
  let isOption (a : String) : Bool := ["-R", "-f", "-v", "-c"].contains a
  match c.args.dropWhile isOption with
  | spec :: path :: rest =>
    match modeChange? spec with
    | some change => eachStep c ((path :: rest).map (chmodOne c change))
    | none =>
      .complain c (withHint c s!"invalid mode: {quote spec}") 1
  | _ => .complain c (missing c "operand") 1

/-! ### Copying, moving, linking -/

/-- Where a file goes: into a directory under its own name, or to the path itself. -/
def destination (c : Call) (t : Tree) (source target : String) : String :=
  if t.isDirectory c.cwd target then target ++ "/" ++ Tree.lastName source else target

/-- The entries of a tree at `source`, put at `target`. -/
def graft (t : Tree) (source target : Location) (entry : Entry) : Tree :=
  (t.below source).foldl (fun t e => t.set (target ++ e.1) e.2) (t.set target entry)

def placeOf (t : Tree) (cwd : Location) (path : String) : Except OsError Location :=
  match t.follow false cwd path with
  | .found loc _ => .ok loc
  | .free parent name _ => .ok (parent ++ [name])
  | .failed e => .error e

def copyOne (c : Call) (recursive : Bool) (target source : String) : FileStep := fun t =>
  match t.stat c.cwd source with
  | .error e => .error s!"cannot stat {quote source}: {wording e}"
  | .ok (loc, entry) =>
    let dest := destination c t source target
    if entry = .directory && !recursive then
      .error s!"-r not specified; omitting directory {quote source}"
    else
      match entry with
      | .directory =>
        mapError (fun e => s!"cannot create directory {quote dest}: {wording e}")
          ((placeOf t c.cwd dest).map (fun target => graft t loc target entry))
      | .file body mode =>
        match t.update c.cwd dest (fun _ => Tree.dataOf body) with
        | .error e => .error s!"cannot create regular file {quote dest}: {wording e}"
        | .ok (target, t') =>
          .ok (if (t.get? target).isSome then t' else t'.set target (.file body mode))
      | .link _ => .ok t

def moveOne (c : Call) (target source : String) : FileStep := fun t =>
  match t.lstat c.cwd source with
  | .error e => .error s!"cannot stat {quote source}: {wording e}"
  | .ok (loc, entry) =>
    let dest := destination c t source target
    mapError (fun e => s!"cannot move {quote source} to {quote dest}: {wording e}")
      ((placeOf t c.cwd dest).map (fun place =>
        let moved := t.below loc
        let t' := (t.erase loc).erase place
        moved.foldl (fun t e => t.set (place ++ e.1) e.2) (t'.set place entry)))

def linkOne (c : Call) (symbolic force : Bool) (target source : String) : FileStep := fun t =>
  let dest := destination c t source target
  let t := if force then ((t.removeFile c.cwd dest).toOption).getD t else t
  let kind := if symbolic then "symbolic" else "hard"
  let failed (e : OsError) : String := s!"failed to create {kind} link {quote dest}: {wording e}"
  if symbolic then mapError failed (t.makeLink c.cwd dest source)
  else
    match t.stat c.cwd source with
    | .error e => .error s!"failed to access {quote source}: {wording e}"
    | .ok (_, entry) =>
      match t.follow false c.cwd dest with
      | .free parent name _ => .ok (t.set (parent ++ [name]) entry)
      | .found .. => .error (failed .exists)
      | .failed e => .error (failed e)

/-- Several sources go into the last operand. -/
def intoLast (c : Call) (operands : List String) (step : String → String → FileStep) : Answer :=
  match operands.reverse with
  | target :: source :: more => eachStep c (((source :: more).reverse).map (step target))
  | [one] =>
    .complain c (withHint c s!"missing destination file operand after {quote one}") 1
  | [] => .complain c (missing c "file operand") 1

def cp (c : Call) : Answer :=
  let (opts, operands) := options [] c.args
  intoLast c operands (copyOne c (has opts 'r' || has opts 'R' || has opts 'a'))

def mv (c : Call) : Answer := intoLast c (options [] c.args).2 (moveOne c)

def ln (c : Call) : Answer :=
  let (opts, operands) := options [] c.args
  match operands with
  | [source] => eachStep c [linkOne c (has opts 's') (has opts 'f') "." source]
  | _ => intoLast c operands (linkOne c (has opts 's') (has opts 'f'))

/-! ### Looking -/

def sortNames (names : List String) : List String := names.mergeSort (fun a b => decide (a ≤ b))

/-- The lines of one directory. -/
def listed (t : Tree) (loc : Location) (hidden dots : Bool) : List String :=
  let names := sortNames (t.children loc)
  let shown := names.filter (fun n => hidden || n.toList.head? ≠ some '.')
  if dots then "." :: ".." :: shown else shown

def ls (c : Call) : Answer :=
  let (opts, operands) := options [] c.args
  let paths := if operands.isEmpty then ["."] else operands
  let hidden := has opts 'a' || has opts 'A'
  let lines (ls : List String) : String := String.join (ls.map (· ++ "\n"))
  let found := paths.map (fun p => (p, c.tree.stat c.cwd p))
  let complaints := found.filterMap (fun f =>
    match f.2 with
    | .error e => some s!"{c.name}: cannot access {quote f.1}: {wording e}\n"
    | .ok _ => none)
  let isDir (f : String × Except OsError (Location × Entry)) : Bool :=
    match f.2 with
    | .ok (_, .directory) => !has opts 'd'
    | _ => false
  let files := sortNames ((found.filter (fun f => f.2.isOk && !isDir f)).map Prod.fst)
  let dirs := (found.filter isDir).filterMap (fun f =>
    match f.2 with
    | .ok (loc, _) => some (f.1, listed c.tree loc hidden (has opts 'a'))
    | .error _ => none)
  let dirText := match files, dirs, paths with
    | [], [(_, names)], [_] => lines names
    | _, _, _ =>
      (if files.isEmpty || dirs.isEmpty then "" else "\n") ++
        "\n".intercalate (dirs.map (fun d => d.1 ++ ":\n" ++ lines d.2))
  ⟨c.tree, complaints.map (fun t => (2, Text.encode t)) ++
    [(1, Text.encode (lines files ++ dirText))], if complaints.isEmpty then 0 else 2, 0⟩

def pwd (c : Call) : Answer := .ofText c (Tree.locationText c.cwd ++ "\n")

def readlink (c : Call) : Answer :=
  let (opts, paths) := options [] c.args
  match paths with
  | path :: _ =>
    if has opts 'f' || has opts 'e' then
      match c.tree.canonical? c.cwd path with
      | some loc => .ofText c (Tree.locationText loc ++ "\n")
      | none => .quiet c 1
    else
      match c.tree.lstat c.cwd path with
      | .ok (_, .link target) => .ofText c (target ++ "\n")
      | _ => .quiet c 1
  | [] => .complain c (missing c "operand") 1

def realpath (c : Call) : Answer :=
  match (options [] c.args).2 with
  | path :: _ =>
    match c.tree.stat c.cwd path with
    | .ok (loc, _) => .ofText c (Tree.locationText loc ++ "\n")
    | .error e => .complain c s!"{path}: {wording e}" 1
  | [] => .complain c (missing c "operand") 1

def basename (c : Call) : Answer :=
  match c.args with
  | path :: more =>
    let name := if path.toList.all (· = '/') && !path.isEmpty then "/" else Tree.lastName path
    let cut := match more with
      | suffix :: _ =>
        if suffix ≠ name && suffix.toList.isSuffixOf name.toList then
          String.ofList (name.toList.take (name.length - suffix.length))
        else name
      | [] => name
    .ofText c (cut ++ "\n")
  | [] => .complain c (missing c "operand") 1

def dirname (c : Call) : Answer :=
  match c.args with
  | path :: _ =>
    let dir := Tree.parentPath path
    .ofText c ((if dir.isEmpty then "." else dir) ++ "\n")
  | [] => .complain c (missing c "operand") 1

end Testbed.Tool
