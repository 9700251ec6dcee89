import Testbed.Shell.Machine

/-! The commands that the shell runs itself and that run nothing else. -/
namespace Testbed.Shell

open Host (Location Tree OsError Body Entry)
open Tool (Bytes)

/-- Complains, and has a status. -/
def refuse (text : String) (status : Nat) : Act Unit := do
  complain text
  setStatus status

/-- Complains, and ends the shell. -/
def abandon (text : String) : Act Unit := do
  complain text
  leave 2

/-! ### Looking up programs -/

/-- How the shell words a failure to open, make or start something. -/
def nameless (cause : OsError) (missing : String) : String :=
  if cause = .notFound || cause = .notDirectory then missing else Tool.wording cause

/-- The status of a program that could not be started. -/
def startStatus (cause : OsError) : Nat :=
  match cause with
  | .notFound | .notDirectory | .tooManyLinks | .nameTooLong => 127
  | _ => 126

/-- The path of a program, along the search path unless it is a path itself. -/
def findProgram (name : String) : Act (Except OsError String) := do
  if name.toList.contains '/' then return .ok name
  let m ← get
  let dirs := Text.pieces (· == ':') (((m.shell.value? "PATH").getD "/usr/bin:/bin").toList)
  let candidates := dirs.map (fun dir =>
    if dir.isEmpty then name else String.ofList dir ++ "/" ++ name)
  let usable (p : String) : Bool := m.scene.tree.isExecutable m.shell.cwd p
  match candidates.find? usable with
  | some p => return .ok p
  | none =>
    let there := candidates.any (fun p => m.scene.tree.exists? m.shell.cwd p)
    return .error (if there then .permissionDenied else .notFound)

/-- Looks for programs beforehand. -/
def rememberAll (args : List String) : Act Unit := do
  setStatus 0
  for name in args do
    match ← findProgram name with
    | .ok _ => pure ()
    | .error _ => refuse s!"{name}: not found" 1

/-! ### Printing -/

def echo (args : List String) : Act Unit := do
  let (quiet, words) := match args with
    | "-n" :: rest => (true, rest)
    | _ => (false, args)
  let (bytes, stop) := Tool.Format.unescaped (" ".intercalate words)
  writeTo 1 (if quiet || stop then bytes else bytes ++ [10])
  setStatus 0

def printfComplaint (arg : String) (begun : Bool) : String :=
  arg ++ (if begun then ": not completely converted" else ": expected numeric value")

def formatted (args : List String) : Act Unit := do
  match args with
  | [] => refuse "usage: printf format [arg ...]" 2
  | format :: rest =>
    let s := Tool.Format.format printfComplaint format rest
    writeTo 1 s.written
    for text in s.complaints do
      complain text
    setStatus (if s.flawed then 2 else if s.complaints.isEmpty then 0 else 1)

def printf (args : List String) : Act Unit := do
  match args with
  | "--" :: rest => formatted rest
  | first :: rest =>
    match first.toList with
    | '-' :: c :: _ => refuse s!"Illegal option -{c}" 2
    | _ => formatted (first :: rest)
  | [] => formatted []

/-! ### Directories -/

/-- A path with its dots resolved as text. -/
def tidyPath (path : String) : String :=
  let step (seen : List (List Char)) (name : List Char) : List (List Char) :=
    if name.isEmpty || name = ['.'] then seen
    else if name = ['.', '.'] then seen.tail
    else name :: seen
  let names := (Text.pieces (· == '/') path.toList).foldl step []
  Tree.locationText (names.reverse.map String.ofList)

def changeTo (name target : String) (shown : Bool) : Act Unit := do
  let m ← get
  match m.scene.tree.stat m.shell.cwd target with
  | .ok (loc, .directory) =>
    let here := (m.shell.value? "PWD").getD (Tree.locationText m.shell.cwd)
    let path := tidyPath (if target.toList.head? = some '/' then target else here ++ "/" ++ target)
    modifyShell (fun s => ({ s with cwd := loc }.setExported "OLDPWD" here).setExported "PWD" path)
    if shown then print (path ++ "\n")
    setStatus 0
  | _ => refuse s!"can't cd to {name}" 2

def cd (args : List String) : Act Unit := do
  let s ← getShell
  let operands := args.filter (fun a => a ≠ "-P" && a ≠ "-L" && a ≠ "--")
  match operands with
  | [] => changeTo "" ((s.value? "HOME").getD "") false
  | "-" :: _ => changeTo "-" ((s.value? "OLDPWD").getD "") true
  | "" :: _ => setStatus 0
  | target :: _ => changeTo target target false

def pwd (args : List String) : Act Unit := do
  let s ← getShell
  let physical := Tree.locationText s.cwd
  print ((if args.contains "-P" then physical else (s.value? "PWD").getD physical) ++ "\n")
  setStatus 0

/-! ### Variables -/

/-- The name and value of an argument `NAME=VALUE`. -/
def splitAssignment (arg : String) : String × Option String :=
  let name := arg.toList.takeWhile (· ≠ '=')
  match arg.toList.drop name.length with
  | _ :: value => (String.ofList name, some (String.ofList value))
  | [] => (String.ofList name, none)

def export_ (args : List String) : Act Unit := do
  for arg in args.filter (fun a => a ≠ "-p" && a ≠ "--") do
    let (name, value) := splitAssignment arg
    if isName name then
      modifyShell (fun s => s.setExported name (value.getD ((s.value? name).getD "")))
    else abandon s!"{name}: bad variable name"
  setStatus 0

def assignEach (args : List String) : Act Unit := do
  for arg in args do
    let (name, value) := splitAssignment arg
    match value with
    | some v => modifyShell (fun s => s.set name v)
    | none => pure ()
  setStatus 0

/-- Variables that are as before again when the function has returned. -/
def makeOwn (args : List String) : Act Unit := do
  match (← getShell).outside with
  | none => abandon "not in a function"
  | some _ =>
    for arg in args do
      let name := (splitAssignment arg).1
      modifyShell (fun s =>
        { s with outside := s.outside.map (fun own => (name, s.binding? name) :: own) })
    assignEach args

def unset (args : List String) : Act Unit := do
  for arg in args.filter (fun a => a ≠ "-v") do
    modifyShell (fun s =>
      { s.unset arg with functions := s.functions.filter (fun f => f.1 != arg) })
  setStatus 0

def shift (args : List String) : Act Unit := do
  let n := ((args.head?).bind Tool.nat?).getD 1
  let s ← getShell
  if n ≤ s.params.length then
    modifyShell (fun s => { s with params := s.params.drop n })
    setStatus 0
  else abandon "can't shift that many"

def setOption (s : State) (on : Bool) (c : Char) : State :=
  match c with
  | 'e' => { s with errexit := on }
  | 'f' => { s with noglob := on }
  | 'u' => { s with nounset := on }
  | 'x' => { s with xtrace := on }
  | _ => s

/-- The letters of all options; those that change nothing here are taken silently. -/
def optionLetters : List Char := "efImnsxvVECabu".toList

def optionNames : List (String × Char) :=
  [("errexit", 'e'), ("noglob", 'f'), ("ignoreeof", 'I'), ("monitor", 'm'), ("noexec", 'n'),
   ("xtrace", 'x'), ("verbose", 'v'), ("vi", 'V'), ("emacs", 'E'), ("noclobber", 'C'),
   ("allexport", 'a'), ("notify", 'b'), ("nounset", 'u')]

def setOptions : List String → Act Unit
  | [] => setStatus 0
  | arg :: rest =>
    match arg.toList with
    | ['-', '-'] => do
      modifyShell (fun s => { s with params := rest })
      setStatus 0
    | ['-', 'o'] | ['+', 'o'] =>
      match rest with
      | name :: rest' =>
        match optionNames.lookup name with
        | some c => do
          modifyShell (fun s => setOption s (arg = "-o") c)
          setOptions rest'
        | none => abandon s!"Illegal option {arg} {name}"
      | [] => setStatus 0
    | sign :: letters => do
      if (sign = '-' || sign = '+') && !letters.isEmpty then
        match letters.find? (fun c => !optionLetters.contains c) with
        | some c => abandon ("Illegal option " ++ String.ofList [sign, c])
        | none =>
          modifyShell (fun s => letters.foldl (fun s c => setOption s (sign = '-') c) s)
          setOptions rest
      else
        modifyShell (fun s => { s with params := arg :: rest })
        setStatus 0
    | [] => do
      modifyShell (fun s => { s with params := arg :: rest })
      setStatus 0

/-- Takes one line of standard input; what is left stays. -/
def takeLine : Act (Bytes × Bool) := do
  let m ← get
  match m.shell.channel? 0 with
  | some (.buffer n) =>
    let data := m.scene.bufferOf n
    let line := data.takeWhile (· ≠ 10)
    modifyScene (fun s => s.setBuffer n (data.drop (line.length + 1)))
    return (line, line.length < data.length)
  | _ => return ([], false)

/-- The characters of a line, each with whether a backslash was before it. -/
def unescapedLine : List Char → List (Char × Bool)
  | '\\' :: c :: rest => (c, true) :: unescapedLine rest
  | ['\\'] => []
  | c :: rest => (c, false) :: unescapedLine rest
  | [] => []

/-- More lines than are put together to one. -/
def maxLines : Nat := 10000

/-- Takes a line, and the next ones as long as a backslash is at the end. -/
def takeLines : Nat → Act (Bytes × Bool)
  | 0 => return ([], false)
  | fuel + 1 => do
    let (line, whole) ← takeLine
    if whole && (line.reverse.takeWhile (· = 92)).length % 2 = 1 then
      let (more, whole) ← takeLines fuel
      return (line.dropLast ++ more, whole)
    else return (line, whole)

/-- Gives each name a word, and the last one all that is left. -/
def shareOut (blank : Char × Bool → Bool) : List String → List (Char × Bool) → List (String × String)
  | [], _ => []
  | [name], cs =>
    let text := ((cs.dropWhile blank).reverse.dropWhile blank).reverse
    [(name, String.ofList (text.map Prod.fst))]
  | name :: names, cs =>
    let start := cs.dropWhile blank
    let word := start.takeWhile (fun c => !blank c)
    (name, String.ofList (word.map Prod.fst)) :: shareOut blank names (start.drop word.length)

def read (args : List String) : Act Unit := do
  let names := args.filter (fun a => a.toList.head? ≠ some '-')
  let raw := args.contains "-r"
  let (line, whole) ← if raw then takeLine else takeLines maxLines
  let cs := (Text.decodeLossy line).toList
  let text := if raw then cs.map (·, false) else unescapedLine cs
  let separators := (← getShell).separators
  for (name, value) in shareOut (fun c => separators.contains c.1 && !c.2) names text do
    modifyShell (fun s => s.set name value)
  setStatus (if whole then 0 else 1)

/-! ### Conditions and the flow of control -/

def conditionComplaint (fault : Tool.Condition.Fault) : String :=
  match fault with
  | .noNumber text => s!"Illegal number: {text}"
  | .noOperand op => s!"{op}: argument expected"
  | .notClosed => "closing paren expected"
  | .excess last _ => if last.isEmpty then "unexpected operator" else s!"{last}: unexpected operator"

def test (name : String) (args : List String) : Act Unit := do
  let m ← get
  let bracket := name = "["
  if bracket && args.getLast? ≠ some "]" then refuse "missing ]" 2
  else
    let scope : Tool.Condition.Scope := ⟨m.scene.tree, m.shell.cwd, false⟩
    match Tool.Condition.evaluate scope (if bracket then args.dropLast else args) with
    | .ok true => setStatus 0
    | .ok false => setStatus 1
    | .error fault => refuse (conditionComplaint fault) 2

/-- The status that an argument asks for; the last one when there is none. -/
def askedStatus (args : List String) : Act Nat := do
  match args with
  | [] => return (← getShell).status
  | arg :: _ =>
    match Tool.nat? arg with
    | some n => return n % 256
    | none =>
      complain s!"Illegal number: {arg}"
      leave 2

/-- Leaves loops by a stop; where there is no loop nothing happens. -/
def leaveLoops (stop : Nat → Stop) (args : List String) : Act Unit := do
  let wanted := ((args.head?).bind Tool.nat?).getD 1
  let around := (← getShell).loops
  setStatus 0
  if around ≠ 0 then throw (stop (min wanted around))

/-- A text in single quotes, which reads back as it is. -/
def inSingleQuotes (text : String) : String :=
  String.ofList ('\'' :: text.toList.flatMap (fun c =>
    if c = '\'' then ['\'', '"', '\'', '"', '\''] else [c]) ++ ['\''])

/-- Waits for processes in the background. -/
def wait (args : List String) : Act Unit := do
  let s ← getShell
  let wanted := if args.isEmpty then s.jobs
    else s.jobs.filter (fun j => args.contains (toString j.pid))
  for job in wanted do
    pass (job.ends - (← getScene).clock)
  match args.isEmpty, wanted.getLast? with
  | true, _ => setStatus 0
  | false, some job => mourn job.ending
  | false, none => setStatus 127

/-- Sets or takes back what is done at some signals. -/
def trapAt (action : Option String) : List String → Act Unit
  | [] => setStatus 0
  | name :: rest => do
    match trapSignal? name with
    | some n =>
      modifyShell (fun s =>
        let others := s.traps.filter (fun t => t.1 != n)
        { s with traps := (action.map (n, ·)).toList ++ others })
      trapAt action rest
    | none =>
      writeTo 2 (Text.encode s!"trap: {name}: bad trap\n")
      setStatus 1

def trap (args : List String) : Act Unit := do
  let operands := if args.head? = some "--" then args.tail else args
  match operands with
  | [] =>
    let traps := (← getShell).traps.mergeSort (fun a b => a.1 ≤ b.1)
    for (n, action) in traps do
      print s!"trap -- {inSingleQuotes action} {signalName n}\n"
    setStatus 0
  | [name] => trapAt none [name]
  | first :: rest =>
    if (trapSignal? first).isSome then trapAt none operands
    else trapAt (if first = "-" then none else some first) rest

/-! ### By name -/

/-- Commands that need the whole shell. -/
def isOuterCommand (name : String) : Bool :=
  ["eval", ".", "exec", "command", "kill", "type"].contains name

def plainCommand? (name : String) (args : List String) : Option (Act Unit) :=
  match name with
  | ":" | "true" | "umask" | "alias" | "ulimit" | "times" => some (setStatus 0)
  | "hash" => some (rememberAll args)
  | "false" => some (setStatus 1)
  | "echo" => some (echo args)
  | "printf" => some (printf args)
  | "cd" => some (cd args)
  | "pwd" => some (pwd args)
  | "export" => some (export_ args)
  | "readonly" => some (assignEach args)
  | "local" => some (makeOwn args)
  | "unset" => some (unset args)
  | "shift" => some (shift args)
  | "set" => some (setOptions args)
  | "read" => some (read args)
  | "test" | "[" => some (test name args)
  | "wait" => some (wait args)
  | "trap" => some (trap args)
  | "exit" => some (do leave (← askedStatus args))
  | "return" => some (do
      setStatus (← askedStatus args)
      throw .returned)
  | "break" => some (leaveLoops .broke args)
  | "continue" => some (leaveLoops .continued args)
  | _ => none

def isBuiltin (name : String) : Bool := (plainCommand? name []).isSome || isOuterCommand name

end Testbed.Shell
