import Testbed.Shell.Builtin
import Testbed.Shell.Expansion
import Testbed.Text.Replace

/-! Processes and channels around a piece of script: a process of its own, a process in the
background, redirections that end with what they are for, assignments that end with it, and loops.
The piece of script itself is an argument everywhere. -/
namespace Testbed.Shell

open Host (Location Tree OsError Body Entry)
open Tool (Bytes)

/-! ### Processes -/

/-- Runs a process to its end. What stops the whole program is passed on. -/
def toEnd (body : Act Unit) : Act Ending :=
  tryCatch
    (do
      body
      return .exited (← getShell).status)
    (fun stop =>
      match stop with
      | .killed signal => return .killed signal
      | .cut | .stuck => throw stop
      | .exit | .broke _ | .continued _ | .returned => do
        return .exited (← getShell).status)

/-- A process of its own: nothing that it does to its shell stays. A process that waits for it keeps
its own channels open meanwhile. -/
def fork (body : Act Unit) : Act Ending := do
  let before ← getShell
  modifyShell (fun s => { s with isMain := false, traps := [], jobs := [] })
  let ending ← toEnd body
  modifyShell (fun _ => before)
  let now := (← getScene).clock
  if !before.isMain then modifyScene (fun s => s.hold before.pid before.channels now)
  return ending

/-- Longer than anything is waited for. -/
def forever : Nat := 1000000000000

/-- A process in the background goes its own way from now on, out of reach of the deadline. The
clock goes back to where it was, and what it wrote stands at its time. -/
def inBackground (body : Act Unit) : Act Unit := do
  let scene ← getScene
  let start := scene.clock
  let pid ← freshNumber
  modifyScene (fun s => { s with deadline := none })
  let ending ← tryCatch
    (fork (do
      modifyShell (fun s => s.setChannel 0 .sink)
      body))
    (fun _ => do
      modifyScene (fun s => { s with clock := start + forever })
      return .exited 0)
  let ends := (← getScene).clock
  let own (h : Hold) : Hold := if scene.holds.contains h then h else { h with pid := pid }
  modifyScene (fun s => { s with clock := start, deadline := scene.deadline, holds := s.holds.map own })
  modifyShell (fun s => { s with jobs := s.jobs ++ [⟨pid, ends, ending⟩] })
  setStatus 0

/-- Ends a process in the background at once. -/
def killJob (pid signal : Nat) : Act Unit := do
  let now := (← getScene).clock
  let shorten (h : Hold) : Hold := if h.pid = pid then { h with ends := min h.ends now } else h
  modifyScene (fun s => { s with holds := s.holds.map shorten })
  let stopped (j : BackgroundJob) : BackgroundJob :=
    if j.pid = pid && now < j.ends then ⟨pid, now, .killed signal⟩ else j
  modifyShell (fun s => { s with jobs := s.jobs.map stopped })

/-! ### Pipelines -/

/-- Runs the parts one after the other, each from the moment at which all of them start, each
reading what the one before wrote. All have ended when the last of them has. -/
def inPipeline (start latest : Nat) (input : Option Channel) : List (Act Unit) → Act Unit
  | [] => modifyScene (fun s => { s with clock := latest })
  | part :: rest => do
    let output ← if rest.isEmpty then pure none else (some <$> freshNumber)
    modifyScene (fun s => { s with clock := start })
    let ending ← fork (do
      match input with
      | some c => modifyShell (fun s => s.setChannel 0 c)
      | none => pure ()
      match output with
      | some n => modifyShell (fun s => s.setChannel 1 (.buffer n))
      | none => pure ()
      part)
    mourn ending
    inPipeline start (max latest (← getScene).clock) (output.map .buffer) rest

/-- What a process writes to its standard output. -/
def captured (body : Act Unit) : Act Bytes := do
  let n ← freshNumber
  let ending ← fork (do
    modifyShell (fun s => s.setChannel 1 (.buffer n))
    body)
  let status := (← getShell).status
  mourn ending
  modifyShell (fun s => { s with status := status, lastOutput := ending.status })
  return (← getScene).bufferOf n

/-! ### Redirections -/

/-- The channel that a path of a device names. -/
def deviceChannel? (path : String) : Option Nat :=
  match path with
  | "/dev/stdin" => some 0
  | "/dev/stdout" => some 1
  | "/dev/stderr" => some 2
  | _ =>
    match Text.stripStart? "/dev/fd/".toList path.toList with
    | some digits => Tool.nat? (String.ofList digits)
    | none => none

def channelOf (loc : Location) (entry : Option Entry) : Channel :=
  match entry with
  | some (.file .sink _) | some (.file .zeros _) => .sink
  | _ => .file loc

/-- Opens a file to read: what is in it now. -/
def openToRead (path : String) : Act (Except String Channel) := do
  let m ← get
  match m.scene.tree.stat m.shell.cwd path with
  | .ok (_, .file .zeros _) => return .ok .zeros
  | .ok (_, .file .sink _) => return .ok .sink
  | .ok (_, .file (.bytes data) _) =>
    let n ← freshNumber
    modifyScene (fun s => s.setBuffer n data)
    return .ok (.buffer n)
  | .ok _ => return .ok .sink
  | .error cause =>
    let reason := nameless cause "No such file"
    return .error s!"cannot open {path}: {reason}"

def openToWrite (path : String) (append : Bool) : Act (Except String Channel) := do
  let m ← get
  match m.scene.tree.update m.shell.cwd path (fun data => if append then data else []) with
  | .ok (loc, tree) =>
    modifyScene (fun s => { s with tree := tree })
    return .ok (channelOf loc (tree.get? loc))
  | .error cause =>
    let reason := nameless cause "Directory nonexistent"
    return .error s!"cannot create {path}: {reason}"

def opened (path : String) (toOpen : Act (Except String Channel)) : Act (Except String Channel) := do
  match deviceChannel? path with
  | some n =>
    match (← getShell).channel? n with
    | some c => return .ok c
    | none => return .error s!"cannot open {path}: No such file"
  | none => toOpen

def redirect (capture : Capture) (r : Redirect) : Act (Except String Unit) := do
  let lead (c : Except String Channel) : Act (Except String Unit) := do
    match c with
    | .ok c =>
      modifyShell (fun s => s.setChannel r.channel c)
      return .ok ()
    | .error text => return .error text
  match r.op with
  | .here body =>
    let text ← textOf capture body
    let n ← freshNumber
    modifyScene (fun s => s.setBuffer n (Text.encode text))
    lead (.ok (.buffer n))
  | .duplicate =>
    let target ← textOf capture r.target
    match target, Tool.nat? target with
    | "-", _ =>
      modifyShell (fun s => s.dropChannel r.channel)
      return .ok ()
    | _, some n =>
      match (← getShell).channel? n with
      | some c => lead (.ok c)
      | none => return .error s!"{n}: Bad file descriptor"
    | _, none => return .error s!"Bad fd number: {target}"
  | .read =>
    let path ← textOf capture r.target
    lead (← opened path (openToRead path))
  | .write =>
    let path ← textOf capture r.target
    lead (← opened path (openToWrite path false))
  | .append =>
    let path ← textOf capture r.target
    lead (← opened path (openToWrite path true))

/-- Makes all redirections; the first that fails is complained about. -/
def redirectAll (capture : Capture) : List Redirect → Act Bool
  | [] => return true
  | r :: rest => do
    match ← redirect capture r with
    | .ok _ => redirectAll capture rest
    | .error text =>
      complain text
      setStatus 2
      return false

/-- Puts something back, whichever way the body ends. -/
def finally_ (body after : Act Unit) : Act Unit := do
  tryCatch body (fun stop => do
    after
    throw stop)
  after

/-- Runs with redirections. `strict` leaves the shell when one fails. -/
def withRedirects (capture : Capture) (strict : Bool) (rs : List Redirect) (body : Act Unit) :
    Act Unit := do
  if rs.isEmpty then body
  else
    let channels := (← getShell).channels
    let restore : Act Unit := modifyShell (fun s => { s with channels := channels })
    finally_
      (do
        if ← redirectAll capture rs then body
        else if strict then throw .exit)
      restore

/-- Complaints are those of a builtin command or a file. -/
def asTask (name : String) (body : Act Unit) : Act Unit := do
  let before := (← getShell).task
  modifyShell (fun s => { s with task := some name })
  finally_ body (modifyShell (fun s => { s with task := before }))

/-! ### Assignments -/

def assign (capture : Capture) (exported : Bool) : List (String × Word) → Act Unit
  | [] => pure ()
  | (name, word) :: rest => do
    let value ← textOf capture word
    modifyShell (fun s => if exported then s.setExported name value else s.set name value)
    assign capture exported rest

/-- Runs with assignments that hold for the body only and are seen by the programs it starts. -/
def withAssigns (capture : Capture) (assigns : List (String × Word)) (body : Act Unit) : Act Unit := do
  if assigns.isEmpty then body
  else
    let before := (← getShell).vars
    let names := assigns.map Prod.fst
    let restore : Act Unit := modifyShell (fun s =>
      { s with vars := before.filter (fun v => names.contains v.1) ++
          s.vars.filter (fun v => !names.contains v.1) })
    finally_
      (do
        assign capture true assigns
        body)
      restore

/-! ### Loops -/

/-- One turn of a loop; whether it goes on. -/
def loopTurn (body : Act Bool) : Act Bool :=
  tryCatch body (fun stop =>
    match stop with
    | .broke n => if n ≤ 1 then return false else throw (.broke (n - 1))
    | .continued n => if n ≤ 1 then return true else throw (.continued (n - 1))
    | _ => throw stop)

def inLoop (body : Act Unit) : Act Unit := do
  let loops := (← getShell).loops
  modifyShell (fun s => { s with loops := loops + 1 })
  finally_ body (modifyShell (fun s => { s with loops := loops }))

/-- More turns than a loop that ends takes. -/
def maxTurns : Nat := 100000

/-- Turns until one says that it was the last. -/
def whileGoing : Nat → Act Bool → Act Unit
  | 0, _ => throw .stuck
  | fuel + 1, body => do
    if ← loopTurn body then whileGoing fuel body

/-- One turn for each value. -/
def eachValue (body : String → Act Unit) : List String → Act Unit
  | [] => pure ()
  | value :: rest => do
    let goOn ← loopTurn (do
      body value
      return true)
    if goOn then eachValue body rest

/-! ### Functions -/

/-- Calls a function: its parameters and some variables are its own, and a return ends it. -/
def calling (args : List String) (body : Act Unit) : Act Unit := do
  let before ← getShell
  let restore : Act Unit := modifyShell (fun s =>
    let s := (s.outside.getD []).foldl (fun s own => s.putBack own.1 own.2) s
    { s with params := before.params, loops := before.loops, outside := before.outside })
  modifyShell (fun s => { s with params := args, loops := 0, outside := some [] })
  finally_
    (tryCatch body (fun stop =>
      match stop with
      | .returned => pure ()
      | _ => throw stop))
    restore

end Testbed.Shell
