import Testbed.Shell.Fields
import Testbed.Shell.Parser
import Testbed.Tool.Catalog

/-! What a script works on. The scene is shared by all processes that one program starts: files, a
clock, numbered buffers that take what is written, and who keeps a buffer open until when. The rest
belongs to one shell. -/
namespace Testbed.Shell

open Host (Location Tree OsError Body Entry)
open Tool (Bytes)

/-- Where a channel of a process leads. -/
inductive Channel where
  | buffer (n : Nat)
  | file (loc : Location)
  | sink
  | zeros
deriving DecidableEq, Repr

/-- How a process ended. -/
inductive Ending where
  | exited (status : Nat)
  | killed (signal : Nat)
deriving DecidableEq, Repr

/-- The status by which a shell knows how a process ended. -/
def Ending.status : Ending → Nat
  | .exited n => n
  | .killed signal => 128 + signal

/-- A process in the background, with when and how it ends. -/
structure BackgroundJob where
  pid : Nat
  ends : Nat
  ending : Ending
deriving DecidableEq, Repr

/-- A process that keeps a buffer open until a moment. -/
structure Hold where
  pid : Nat
  buffer : Nat
  ends : Nat
deriving DecidableEq, Repr

/-- What was written to a buffer at one moment. -/
structure Chunk where
  time : Nat
  bytes : Bytes
deriving DecidableEq, Repr

structure Scene where
  tree : Tree
  clock : Nat
  /-- When the program is killed from outside. -/
  deadline : Option Nat
  /-- The chunks of each buffer, the last that was written first. -/
  buffers : List (Nat × List Chunk)
  holds : List Hold
  /-- The next number for a buffer or a process. -/
  next : Nat

structure Variable where
  value : String
  exported : Bool
deriving DecidableEq, Repr

structure State where
  /-- The name by which the shell complains. -/
  name : String
  params : List String
  vars : List (String × Variable)
  cwd : Location
  channels : List (Nat × Channel)
  status : Nat
  functions : List (String × Script)
  /-- Leave when a command fails. -/
  errexit : Bool
  /-- Complain about parameters that are not set. -/
  nounset : Bool
  /-- Take patterns for paths as they are. -/
  noglob : Bool
  /-- Show each command before it is run. -/
  xtrace : Bool
  /-- What is done at a signal, and under zero at the exit. -/
  traps : List (Nat × String)
  line : Nat
  pid : Nat
  jobs : List BackgroundJob
  /-- How many loops are around the current command. -/
  loops : Nat
  /-- The status of the last script whose output was put into a word. -/
  lastOutput : Nat
  /-- The builtin command or the file that is at work, for complaints. -/
  task : Option String
  /-- In a function, what the variables that it made its own are outside. -/
  outside : Option (List (String × Option Variable))
  /-- This is the process that was started, not one that it started itself. -/
  isMain : Bool

structure Machine where
  shell : State
  scene : Scene

/-- Why a script does not go on. -/
inductive Stop where
  | exit
  | killed (signal : Nat)
  /-- The deadline was reached. -/
  | cut
  /-- It goes on for ever. -/
  | stuck
  | broke (levels : Nat)
  | continued (levels : Nat)
  | returned
deriving DecidableEq, Repr

abbrev Act := ExceptT Stop (StateM Machine)

/-! ### The scene -/

/-- The numbers of the buffers that every program starts with. -/
def stdinBuffer : Nat := 0

def stdoutBuffer : Nat := 1

def stderrBuffer : Nat := 2

namespace Scene

def chunks (s : Scene) (n : Nat) : List Chunk :=
  ((s.buffers.find? (fun b => b.1 == n)).map Prod.snd).getD []

def setChunks (s : Scene) (n : Nat) (cs : List Chunk) : Scene :=
  { s with buffers := (n, cs) :: s.buffers.filter (fun b => b.1 != n) }

/-- What is in a buffer, in the order of time. -/
def bufferOf (s : Scene) (n : Nat) : Bytes :=
  ((s.chunks n).reverse.mergeSort (fun a b => a.time ≤ b.time)).flatMap Chunk.bytes

def setBuffer (s : Scene) (n : Nat) (bs : Bytes) : Scene := s.setChunks n [⟨s.clock, bs⟩]

/-- Writes to wherever a channel leads. -/
def write (s : Scene) (c : Channel) (bs : Bytes) : Scene :=
  match c with
  | .buffer n => s.setChunks n (⟨s.clock, bs⟩ :: s.chunks n)
  | .file loc =>
    match s.tree.get? loc with
    | some (.file (.bytes data) mode) =>
      { s with tree := s.tree.set loc (.file (.bytes (data ++ bs)) mode) }
    | _ => s
  | .sink | .zeros => s

/-- A number that is not taken. -/
def fresh (s : Scene) : Nat × Scene := (s.next, { s with next := s.next + 1 })

def hold (s : Scene) (pid : Nat) (channels : List (Nat × Channel)) (ends : Nat) : Scene :=
  let held := channels.filterMap (fun c =>
    match c.2 with
    | .buffer n => some (Hold.mk pid n ends)
    | _ => none)
  { s with holds := s.holds ++ held }

/-- Until when a buffer is kept open. -/
def heldUntil (s : Scene) (buffer : Nat) : Nat :=
  ((s.holds.filter (fun h => h.buffer == buffer)).map Hold.ends).foldl max 0

end Scene

/-! ### The shell -/

namespace State

def channel? (s : State) (n : Nat) : Option Channel :=
  (s.channels.find? (fun c => c.1 == n)).map Prod.snd

def setChannel (s : State) (n : Nat) (c : Channel) : State :=
  { s with channels := (n, c) :: s.channels.filter (fun x => x.1 != n) }

def dropChannel (s : State) (n : Nat) : State :=
  { s with channels := s.channels.filter (fun x => x.1 != n) }

def binding? (s : State) (name : String) : Option Variable :=
  (s.vars.find? (fun v => v.1 == name)).map Prod.snd

def value? (s : State) (name : String) : Option String := (s.binding? name).map Variable.value

def set (s : State) (name value : String) : State :=
  let exported := ((s.binding? name).map Variable.exported).getD false
  { s with vars := (name, ⟨value, exported⟩) :: s.vars.filter (fun v => v.1 != name) }

def setExported (s : State) (name value : String) : State :=
  { s with vars := (name, ⟨value, true⟩) :: s.vars.filter (fun v => v.1 != name) }

def unset (s : State) (name : String) : State :=
  { s with vars := s.vars.filter (fun v => v.1 != name) }

/-- A variable as it was, or none. -/
def putBack (s : State) (name : String) (old : Option Variable) : State :=
  let without := s.unset name
  match old with
  | some v => { without with vars := (name, v) :: without.vars }
  | none => without

/-- The variables that a program started here inherits. -/
def inherited (s : State) : Vars :=
  Vars.overlay [] ((s.vars.filter (fun v => v.2.exported)).map (fun v => (v.1, v.2.value)))

/-- The letters of the options that are on. -/
def letters (s : State) : List Char :=
  [(s.errexit, 'e'), (s.noglob, 'f'), (s.xtrace, 'x'), (s.nounset, 'u')].filterMap (fun o =>
    if o.1 then some o.2 else none)

/-- The value of a parameter, by name or by its special character. -/
def parameter? (s : State) (name : String) : Option String :=
  match name with
  | "#" => some (toString s.params.length)
  | "?" => some (toString s.status)
  | "$" => some (toString s.pid)
  | "!" => (s.jobs.getLast?).map (fun j => toString j.pid)
  | "-" => some (String.ofList (s.letters))
  | "0" => some s.name
  | "@" | "*" => if s.params.isEmpty then none else some (" ".intercalate s.params)
  | _ =>
    match Tool.nat? name with
    | some (n + 1) => s.params[n]?
    | _ => s.value? name

def separators (s : State) : List Char := ((s.value? "IFS").getD " \t\n").toList

end State

/-! ### Acting -/

def getShell : Act State := do return (← get).shell

def getScene : Act Scene := do return (← get).scene

def modifyShell (f : State → State) : Act Unit := modify (fun m => { m with shell := f m.shell })

def modifyScene (f : Scene → Scene) : Act Unit := modify (fun m => { m with scene := f m.scene })

def setStatus (n : Nat) : Act Unit := modifyShell (fun s => { s with status := n })

def freshNumber : Act Nat := do
  let (n, scene) := (← getScene).fresh
  modifyScene (fun _ => scene)
  return n

/-- Writes to a channel of the shell; one that is closed takes nothing. -/
def writeTo (channel : Nat) (bs : Bytes) : Act Unit := do
  match (← getShell).channel? channel with
  | some c => modifyScene (fun s => s.write c bs)
  | none => pure ()

def print (text : String) : Act Unit := writeTo 1 (Text.encode text)

/-- Complains with the name of the shell, the line and what is at work. -/
def complain (text : String) : Act Unit := do
  let s ← getShell
  let parts := [s.name, toString s.line] ++ s.task.toList ++ [text]
  writeTo 2 (Text.encode (": ".intercalate parts ++ "\n"))

/-- Leaves the shell with a status. -/
def leave (status : Nat) : Act α := do
  setStatus status
  throw .exit

/-- Lets time pass. At the deadline the program is killed; when it is not the program itself that
was waiting but a process of its own, that one lives on. -/
def pass (ms : Nat) : Act Unit := do
  let m ← get
  let ends := m.scene.clock + ms
  if !m.shell.isMain then modifyScene (fun s => s.hold m.shell.pid m.shell.channels ends)
  match m.scene.deadline with
  | some d =>
    if d < ends then
      modifyScene (fun s => { s with clock := max s.clock d })
      throw .cut
    else modifyScene (fun s => { s with clock := ends })
  | none => modifyScene (fun s => { s with clock := ends })

/-- What standard input gives now. -/
def inputOf : Act Tool.Input := do
  let m ← get
  match m.shell.channel? 0 with
  | some (.buffer n) => return .data (m.scene.bufferOf n)
  | some (.file loc) =>
    match m.scene.tree.get? loc with
    | some (.file body _) => return .data (Tree.dataOf body)
    | _ => return .data []
  | some .zeros => return .zeros
  | some .sink | none => return .data []

/-- Uses up what standard input gives. -/
def drainInput : Act Unit := do
  match (← getShell).channel? 0 with
  | some (.buffer n) => modifyScene (fun s => s.setBuffer n [])
  | _ => pure ()

/-! ### Signals -/

def signals : List (String × Nat) :=
  [("HUP", 1), ("INT", 2), ("QUIT", 3), ("ILL", 4), ("TRAP", 5), ("ABRT", 6), ("BUS", 7),
   ("FPE", 8), ("KILL", 9), ("USR1", 10), ("SEGV", 11), ("USR2", 12), ("PIPE", 13), ("ALRM", 14),
   ("TERM", 15), ("CHLD", 17), ("CONT", 18), ("STOP", 19), ("TSTP", 20), ("URG", 23),
   ("WINCH", 28)]

def signalNumber? (text : String) : Option Nat :=
  match Tool.nat? text with
  | some n => if n < 65 then some n else none
  | none =>
    let name := if "SIG".toList.isPrefixOf text.toList then
      String.ofList (text.toList.drop 3) else text
    (signals.find? (fun s => s.1 == name)).map Prod.snd

/-- The signal of a trap; the exit of the shell counts as one. -/
def trapSignal? (text : String) : Option Nat :=
  if text = "EXIT" then some 0 else signalNumber? text

def signalName (n : Nat) : String :=
  if n = 0 then "EXIT" else ((signals.find? (fun s => s.2 == n)).map Prod.fst).getD (toString n)

/-- Signals that do nothing unless they are trapped. -/
def isHarmless (n : Nat) : Bool := [0, 17, 18, 23, 28].contains n

/-- What is said of a process that a signal ended. -/
def obituary (n : Nat) : String :=
  match n with
  | 1 => "Hangup"
  | 3 => "Quit"
  | 4 => "Illegal instruction"
  | 5 => "Trace/breakpoint trap"
  | 6 => "Aborted"
  | 7 => "Bus error"
  | 8 => "Floating point exception"
  | 9 => "Killed"
  | 10 => "User defined signal 1"
  | 11 => "Segmentation fault"
  | 12 => "User defined signal 2"
  | 14 => "Alarm clock"
  | 15 => "Terminated"
  | _ => ""

/-- The status of a process that was waited for; one that a signal ended is mentioned. -/
def mourn (ending : Ending) : Act Unit := do
  match ending with
  | .exited _ => pure ()
  | .killed signal =>
    if obituary signal ≠ "" then writeTo 2 (Text.encode (obituary signal ++ "\n"))
  setStatus ending.status

end Testbed.Shell
