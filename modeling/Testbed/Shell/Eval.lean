import Testbed.Shell.Process

/-! Evaluating scripts. Every call spends fuel, which bounds how deep calls are nested; a script
that runs out of it counts as one that never ends. Starting a program replaces the shell by it, so
that one which is not the last thing a shell does is started in a process of its own. -/
namespace Testbed.Shell

open Host (Location Tree OsError Body Entry)
open Tool (Bytes)

/-- How a piece of script is evaluated: as the last thing that the shell does, and as a condition
whose failure is no failure of the script. -/
structure Mode where
  last : Bool
  tested : Bool
deriving DecidableEq, Repr

def Mode.plain : Mode := ⟨false, false⟩

/-- Followed by something else. -/
def Mode.before (m : Mode) : Mode := { m with last := false }

/-- As a condition. -/
def Mode.asked : Mode := ⟨false, true⟩

/-! ### Programs -/

/-- The program and its argument that the first line of a script names. -/
def interpreter? (data : Bytes) : Option (String × Option String) :=
  match data with
  | 35 :: 33 :: rest =>
    let line := (Text.decodeLossy (rest.takeWhile (· ≠ 10))).toList
    let isBlankHere (c : Char) : Bool := c = ' ' || c = '\t'
    let start := line.dropWhile isBlankHere
    let program := start.takeWhile (fun c => !isBlankHere c)
    let arg := (start.drop program.length).dropWhile isBlankHere
    let arg := (arg.reverse.dropWhile isBlankHere).reverse
    if program.isEmpty then none
    else some (String.ofList program, if arg.isEmpty then none else some (String.ofList arg))
  | _ => none

/-- Ends the process with what a program of the system answers. -/
def useTool (tool : String) (argv : List String) (vars : Vars) : Act Unit := do
  let m ← get
  let input ← inputOf
  let a := Tool.call tool ⟨argv.headD tool, argv.tail, vars, m.shell.cwd, m.scene.tree, input⟩
  drainInput
  modifyShell (fun s => { s with traps := [] })
  modifyScene (fun s => { s with tree := a.tree })
  for (channel, bytes) in a.writes do
    writeTo channel bytes
  pass a.elapsed
  leave a.status

/-- What the arguments of a shell ask for. -/
structure Startup where
  errexit : Bool
  nounset : Bool
  noglob : Bool
  xtrace : Bool
  command : Bool
  operands : List String
deriving DecidableEq, Repr

def startup : Startup → List String → Startup
  | s, [] => s
  | s, arg :: rest =>
    match arg.toList with
    | ['-', '-'] | ['-'] => { s with operands := rest }
    | '-' :: letters =>
      let has (c : Char) : Bool := letters.contains c
      startup { s with errexit := s.errexit || has 'e', nounset := s.nounset || has 'u',
                       noglob := s.noglob || has 'f', xtrace := s.xtrace || has 'x',
                       command := s.command || has 'c' } rest
    | _ => { s with operands := arg :: rest }

/-- Where a shell that inherits no search path looks. -/
def defaultPath : String := "/usr/local/sbin:/usr/local/bin:/usr/sbin:/usr/bin:/sbin:/bin"

/-- How a variable reaches a program: in one text with its value, of which the first `=` ends the
name. -/
def handedOver (v : String × String) : String × String :=
  let text := v.1.toList ++ '=' :: v.2.toList
  (String.ofList (text.takeWhile (· ≠ '=')), String.ofList ((text.dropWhile (· ≠ '=')).drop 1))

/-- A shell in the place of the one that starts it. -/
def State.fresh (old : State) (name : String) (params : List String) (o : Startup) (vars : Vars)
    (tree : Tree) : State :=
  let handed := Vars.overlay [] (vars.map handedOver)
  let imported := (handed.filter (fun v => isName v.1)).map (fun v => (v.1, Variable.mk v.2 true))
  let s : State :=
    { name := name, params := params, vars := imported, cwd := old.cwd, channels := old.channels,
      status := 0, functions := [], errexit := o.errexit, nounset := o.nounset,
      noglob := o.noglob, xtrace := o.xtrace, traps := [],
      line := 0, pid := old.pid, jobs := [], loops := 0, lastOutput := 0,
      task := none, outside := none, isMain := old.isMain }
  let here : String := Tree.locationText old.cwd
  let kept : Bool := match handed.get? "PWD" with
    | some p => p.toList.head? = some '/' && tree.canonical? [] p = some old.cwd
    | none => false
  let s := if kept then s else s.setExported "PWD" here
  if (s.binding? "PATH").isSome then s else s.set "PATH" defaultPath

/-! ### Evaluation -/

def mayReplace (mode : Mode) : Act Bool := do
  return mode.last && (← getShell).traps.isEmpty

/-- Leaves the shell when a command failed that nobody asked about. -/
def checkFailure (mode : Mode) : Act Unit := do
  let s ← getShell
  if s.errexit && !mode.tested && s.status ≠ 0 then throw .exit

def negate : Act Unit := do
  let s ← getShell
  setStatus (if s.status = 0 then 1 else 0)

/-- Words that are no commands. -/
def isKeyword (name : String) : Bool := reserved.contains name && name ≠ ")" && name ≠ ";;"

/-- Shows a command where complaints went before its redirections. -/
def showCommand (channel : Option Channel) (assigns : List (String × Word)) (words : List String) :
    Act Unit := do
  let s ← getShell
  match s.xtrace, channel with
  | true, some c =>
    let given := assigns.map (fun a => a.1 ++ "=" ++ (s.value? a.1).getD "")
    let text := (s.value? "PS4").getD "+ " ++ " ".intercalate (given ++ words) ++ "\n"
    modifyScene (fun scene => scene.write c (Text.encode text))
  | _, _ => pure ()

/-- Where a name leads that is not a program. -/
def described (name : String) : Act (Option String) := do
  let s ← getShell
  if isKeyword name then return some s!"{name} is a shell keyword"
  else if s.functions.any (fun f => f.1 == name) then return some s!"{name} is a shell function"
  else if isSpecialCommand name then return some s!"{name} is a special shell builtin"
  else if isBuiltin name then return some s!"{name} is a shell builtin"
  else return none

def describe (args : List String) : Act Unit := do
  setStatus 0
  for name in args do
    match ← described name with
    | some text => print (text ++ "\n")
    | none =>
      match ← findProgram name with
      | .ok path => print s!"{name} is {path}\n"
      | .error _ =>
        print s!"{name}: not found\n"
        setStatus 127

def whereIs (name : String) : Act Unit := do
  match ← described name with
  | some _ =>
    print (name ++ "\n")
    setStatus 0
  | none =>
    match ← findProgram name with
    | .ok path =>
      print (path ++ "\n")
      setStatus 0
    | .error _ => setStatus 127

/-- The signal and the targets of a kill. -/
def killArguments (args : List String) : Option Nat × List String :=
  match args with
  | "-s" :: name :: rest => (signalNumber? name, if (signalNumber? name).isSome then rest else [name])
  | arg :: rest =>
    match arg.toList with
    | '-' :: name =>
      let n := signalNumber? (String.ofList name)
      (n, if n.isSome then rest else [String.ofList name])
    | _ => (some 15, arg :: rest)
  | [] => (some 15, [])

mutual

/-- Replaces the shell by a program. Comes back only when that fails. -/
def execute : Nat → String → List String → Vars → Act OsError
  | 0, _, _, _ => throw .stuck
  | fuel + 1, path, argv, vars => do
    let m ← get
    match m.scene.tree.stat m.shell.cwd path with
    | .error cause => return cause
    | .ok (_, .file body mode) =>
      if mode &&& 0o111 = 0 then return .permissionDenied
      else
        match body with
        | .tool "dash" =>
          startShell fuel argv vars
          leave (← getShell).status
        | .tool "env" => startEnv fuel argv.tail vars
        | .tool name =>
          useTool name argv vars
          return .execFormat
        | .bytes data =>
          match interpreter? data with
          | some (program, arg) => execute fuel program (program :: arg.toList ++ path :: argv.tail) vars
          | none => return .execFormat
        | _ => return .permissionDenied
    | .ok _ => return .permissionDenied

/-- The program that starts another one with other variables. -/
def startEnv : Nat → List String → Vars → Act OsError
  | 0, _, _ => throw .stuck
  | _, [], vars => do
    print (String.join (vars.map (fun v => s!"{v.1}={v.2}\n")))
    leave 0
  | fuel + 1, arg :: rest, vars => do
    match arg, splitAssignment arg with
    | "-i", _ => startEnv fuel rest []
    | "-u", _ => startEnv fuel rest.tail (vars.filter (fun v => some v.1 ≠ rest.head?))
    | _, (name, some value) => startEnv fuel rest (Vars.set name value vars)
    | _, (_, none) =>
      modifyShell (fun s =>
        { s.setExported "PATH" ((vars.get? "PATH").getD "/bin:/usr/bin") with traps := [] })
      let found ← findProgram arg
      let cause ← match found with
        | .ok path => execute fuel path (arg :: rest) vars
        | .error cause => pure cause
      writeTo 2 (Text.encode s!"env: {Tool.quote arg}: {Tool.wording cause}\n")
      leave (startStatus cause)

/-- Runs a shell to its end. -/
def startShell : Nat → List String → Vars → Act Unit
  | 0, _, _ => throw .stuck
  | fuel + 1, argv, vars => do
    let called := argv.headD "sh"
    let o := startup ⟨false, false, false, false, false, []⟩ argv.tail
    let tree := (← getScene).tree
    let begin (name : String) (params : List String) : Act Unit :=
      modifyShell (fun s => s.fresh name params o vars tree)
    begin called []
    match o.command, o.operands with
    | true, [] =>
      complain "-c requires an argument"
      leave 2
    | true, text :: rest =>
      begin (rest.headD called) rest.tail
      runAll fuel true text.toList
    | false, [] =>
      match ← inputOf with
      | .data bytes =>
        drainInput
        runAll fuel false (Text.decodeLossy bytes).toList
      | .zeros => throw .stuck
    | false, file :: rest =>
      let m ← get
      match m.scene.tree.bodyOf m.shell.cwd file with
      | .ok body =>
        begin file rest
        runAll fuel false (Text.decodeLossy (Tree.dataOf body)).toList
      | .error cause =>
        let reason := nameless cause "No such file"
        complain s!"cannot open {file}: {reason}"
        leave 2

/-- A whole script as the work of a shell, with what it wants done at its exit. -/
def runAll : Nat → Bool → List Char → Act Unit
  | 0, _, _ => throw .stuck
  | fuel + 1, replaces, text => do
    tryCatch (runText fuel replaces 1 text) (fun stop =>
      match stop with
      | .exit | .returned | .broke _ | .continued _ => pure ()
      | _ => throw stop)
    atExit fuel

/-- Does what is wanted at the exit of the shell. -/
def atExit : Nat → Act Unit
  | 0 => throw .stuck
  | fuel + 1 => do
    let s ← getShell
    match s.traps.find? (fun t => t.1 == 0) with
    | some (_, action) =>
      modifyShell (fun s => { s with traps := [] })
      tryCatch
        (do
          runText fuel false 1 action.toList
          setStatus s.status)
        (fun stop =>
          match stop with
          | .exit | .returned => pure ()
          | _ => throw stop)
    | none => pure ()

/-- The commands of a text, up to a fault in it. -/
def runText : Nat → Bool → Nat → List Char → Act Unit
  | 0, _, _, _ => throw .stuck
  | fuel + 1, replaces, line, text => do
    let parsed := parse line text
    runCommands fuel (replaces && parsed.fault.isNone) parsed.commands
    match parsed.fault with
    | some fault =>
      modifyShell (fun s => { s with line := fault.line })
      complain s!"Syntax error: {fault.reason}"
      leave 2
    | none => pure ()

def runCommands : Nat → Bool → List Script → Act Unit
  | 0, _, _ => throw .stuck
  | _, _, [] => pure ()
  | fuel + 1, replaces, c :: rest => do
    eval fuel ⟨replaces && rest.isEmpty, false⟩ c
    runCommands fuel replaces rest

/-- What a script prints. -/
def capture : Nat → Capture
  | 0, _ => throw .stuck
  | fuel + 1, text => do
    let line := (← getShell).line
    captured (do
      runText fuel true line text
      atExit fuel)

/-- Evaluates one command. -/
def eval : Nat → Mode → Script → Act Unit
  | 0, _, _ => throw .stuck
  | fuel + 1, mode, script => do
    match script with
    | .nothing => setStatus 0
    | .simple line assigns words redirects =>
      modifyShell (fun s => { s with line := line, lastOutput := 0 })
      let fields ← fieldsOfAll (capture fuel) words
      match fields with
      | [] =>
        let errors := (← getShell).channel? 2
        withRedirects (capture fuel) false redirects (do
          assign (capture fuel) false assigns
          showCommand errors assigns []
          setStatus (← getShell).lastOutput)
      | name :: args => runSimple fuel mode assigns redirects name args
      checkFailure mode
    | .pipeline negated [part] =>
      eval fuel (if negated then .asked else mode) part
      if negated then negate
    | .pipeline negated parts =>
      let start := (← getScene).clock
      inPipeline start start none (parts.map (fun part => do
        eval fuel ⟨true, mode.tested⟩ part
        atExit fuel))
      if negated then negate else checkFailure mode
    | .both first second =>
      eval fuel .asked first
      if (← getShell).status = 0 then eval fuel mode second
    | .either first second =>
      eval fuel .asked first
      if (← getShell).status ≠ 0 then eval fuel mode second
    | .sequence first second =>
      eval fuel mode.before first
      eval fuel mode second
    | .background body =>
      inBackground (do
        eval fuel ⟨true, mode.tested⟩ body
        atExit fuel)
    | .branch condition yes no =>
      eval fuel .asked condition
      if (← getShell).status = 0 then eval fuel mode yes else eval fuel mode no
    | .repeated holds condition body =>
      inLoop (whileGoing maxTurns (do
        let before := (← getShell).status
        eval fuel .asked condition
        if ((← getShell).status = 0) = holds then
          eval fuel mode.before body
          return true
        else
          setStatus before
          return false))
    | .each name words body =>
      let values ← match words with
        | some words => fieldsOfAll (capture fuel) words
        | none => pure (← getShell).params
      setStatus 0
      inLoop (eachValue (fun value => do
        modifyShell (fun s => s.set name value)
        eval fuel mode.before body) values)
    | .choose subject arms =>
      let text ← textOf (capture fuel) subject
      choose fuel mode text.toList arms
    | .apart body redirects =>
      let inner : Act Unit := withRedirects (capture fuel) true redirects (do
        eval fuel ⟨true, mode.tested⟩ body
        atExit fuel)
      if ← mayReplace mode then
        inner
        throw .exit
      else
        mourn (← fork inner)
        checkFailure mode
    | .together body redirects =>
      if redirects.isEmpty then eval fuel mode body
      else withRedirects (capture fuel) false redirects (eval fuel mode.before body)
    | .define name body =>
      modifyShell (fun s =>
        { s with functions := (name, body) :: s.functions.filter (fun f => f.1 != name) })
      setStatus 0

/-- The first arm with a pattern that matches. -/
def choose : Nat → Mode → List Char → List (List Word × Script) → Act Unit
  | 0, _, _, _ => throw .stuck
  | _, _, _, [] => setStatus 0
  | fuel + 1, mode, text, (patterns, body) :: rest => do
    if ← matchesAny fuel text patterns then eval fuel mode body
    else choose fuel mode text rest

def matchesAny : Nat → List Char → List Word → Act Bool
  | 0, _, _ => throw .stuck
  | _, _, [] => return false
  | fuel + 1, text, word :: rest => do
    let pattern := Pattern.ofGlyphs (← glyphsOf (capture fuel) word)
    if pattern.matchesText text then return true else matchesAny fuel text rest

/-- A command with a name. -/
def runSimple : Nat → Mode → List (String × Word) → List Redirect → String → List String → Act Unit
  | 0, _, _, _, _, _ => throw .stuck
  | fuel + 1, mode, assigns, redirects, name, args => do
    let errors := (← getShell).channel? 2
    let present : Act Unit := showCommand errors assigns (name :: args)
    if name = "exec" then
      if ← redirectAll (capture fuel) redirects then
        assign (capture fuel) true assigns
        present
        match args with
        | [] => setStatus 0
        | program :: rest => asTask name (replaceBy fuel program (program :: rest))
      else throw .exit
    else if isSpecialCommand name then
      withRedirects (capture fuel) true redirects (do
        assign (capture fuel) false assigns
        present
        runBuiltin fuel mode name args)
    else
      withRedirects (capture fuel) false redirects
        (withAssigns (capture fuel) assigns (do
          present
          dispatch fuel mode true name args))

/-- Functions come before builtin commands, and programs last. -/
def dispatch : Nat → Mode → Bool → String → List String → Act Unit
  | 0, _, _, _, _ => throw .stuck
  | fuel + 1, mode, functions, name, args => do
    let s ← getShell
    match s.functions.find? (fun f => functions && f.1 == name) with
    | some (_, body) => calling args (eval fuel ⟨false, mode.tested⟩ body)
    | none =>
      if isBuiltin name then runBuiltin fuel mode name args
      else
        match ← findProgram name with
        | .error cause =>
          let reason := nameless cause "not found"
          complain s!"{name}: {reason}"
          setStatus (startStatus cause)
        | .ok path =>
          let start : Act Unit := becomeProgram fuel path name (name :: args)
          if ← mayReplace mode then start
          else
            let pid ← freshNumber
            mourn (← fork (do
              modifyShell (fun s => { s with pid := pid })
              start))

/-- Becomes a program that was found; one that is no program is a script for the shell. -/
def becomeProgram : Nat → String → String → List String → Act Unit
  | 0, _, _, _ => throw .stuck
  | fuel + 1, path, name, argv => do
    let vars := (← getShell).inherited
    match ← execute fuel path argv vars with
    | .execFormat =>
      startShell fuel ("/bin/sh" :: path :: argv.tail) vars
      leave (← getShell).status
    | cause =>
      let reason := nameless cause "not found"
      complain s!"{name}: {reason}"
      leave (startStatus cause)

def replaceBy : Nat → String → List String → Act Unit
  | 0, _, _ => throw .stuck
  | fuel + 1, program, argv => do
    match ← findProgram program with
    | .ok path => becomeProgram fuel path program argv
    | .error cause =>
      let reason := nameless cause "not found"
      complain s!"{program}: {reason}"
      leave (startStatus cause)

def runBuiltin : Nat → Mode → String → List String → Act Unit
  | 0, _, _, _ => throw .stuck
  | fuel + 1, mode, name, args => do
    match plainCommand? name args with
    | some act => asTask name act
    | none =>
      match name, args with
      | "eval", _ => asTask name (do
        setStatus 0
        runText fuel false 1 (" ".intercalate args).toList)
      | ".", file :: _ => asTask name (source fuel file)
      | "command", "-v" :: target :: _ => whereIs target
      | "command", "-V" :: targets => describe targets
      | "command", "--" :: target :: rest => dispatch fuel mode false target rest
      | "command", target :: rest => dispatch fuel mode false target rest
      | "type", _ => describe args
      | "kill", _ => asTask name (kill fuel args)
      | _, _ => setStatus 0

/-- Runs a file in this shell. -/
def source : Nat → String → Act Unit
  | 0, _ => throw .stuck
  | fuel + 1, file => do
    let m ← get
    let dirs := Text.pieces (· == ':') (((m.shell.value? "PATH").getD "").toList)
    let candidates := if file.toList.contains '/' then [file]
      else dirs.map (fun dir => if dir.isEmpty then file else String.ofList dir ++ "/" ++ file)
    match candidates.find? (fun p => (m.scene.tree.bodyOf m.shell.cwd p).isOk) with
    | some path =>
      let data := ((m.scene.tree.read m.shell.cwd path).toOption).getD []
      setStatus 0
      asTask path (tryCatch (runText fuel false 1 (Text.decodeLossy data).toList) (fun stop =>
        match stop with
        | .returned => pure ()
        | _ => throw stop))
    | none =>
      if file.toList.contains '/' then abandon s!"cannot open {file}: No such file"
      else abandon s!"{file}: not found"

/-- Sends a signal: to the shell itself, or to one of its processes in the background. -/
def kill : Nat → List String → Act Unit
  | 0, _ => throw .stuck
  | fuel + 1, args => do
    match killArguments args with
    | (none, name :: _) => refuse ("Illegal option -" ++ String.ofList (name.toList.take 1)) 2
    | (_, []) =>
      refuse ("Usage: kill [-s sigspec | -signum | -sigspec] [pid | job]... or\n" ++
        "kill -l [exitstatus]") 2
    | (some signal, targets) =>
      setStatus 0
      killEach fuel signal targets

def killEach : Nat → Nat → List String → Act Unit
  | 0, _, _ => throw .stuck
  | _, _, [] => pure ()
  | fuel + 1, signal, target :: rest => do
    let s ← getShell
    if target = toString s.pid then receive fuel signal
    else
      match s.jobs.find? (fun j => toString j.pid == target) with
      | some job => killJob job.pid signal
      | none => refuse "No such process\n" 1
    killEach fuel signal rest

/-- A signal arrives at the shell. -/
def receive : Nat → Nat → Act Unit
  | 0, _ => throw .stuck
  | fuel + 1, signal => do
    let s ← getShell
    match s.traps.find? (fun t => t.1 == signal && signal ≠ 0 && signal ≠ 9) with
    | some (_, action) =>
      modifyShell (fun s => { s with task := none })
      runText fuel false 1 action.toList
      setStatus s.status
    | none => if isHarmless signal then pure () else throw (.killed signal)

end

end Testbed.Shell
