import Testbed.CommandLine.Failure
import Testbed.CommandLine.Help
import Testbed.CommandLine.LogFilter
import Testbed.CommandLine.Order
import Testbed.Config.Json
import Testbed.Config.Load
import Testbed.Program.Install
import Testbed.Program.Spawn
import Testbed.Report.Gate
import Testbed.Report.Json
import Testbed.Report.Render

/-! A session: one call of the program on a host, from its arguments to its exit code. -/
namespace Testbed.CommandLine

/-- What a session leaves behind. -/
structure Outcome where
  code : Nat
  stdout : String
  failure : Option Failure
  log : List LogLine
  /-- Whether log lines are written as JSON. -/
  json : Bool
  host : Host

/-- What carrying out an action leaves behind; everything that was said is in the world's
journal. -/
structure Done where
  code : Nat
  stdout : String
  failure : Option Failure
  world : World

/-- The executables that a session runs commands with, and the programs that its installer starts. -/
structure Executables where
  ambient : Executable
  isolated : Executable
  programs : Process.Programs

/-- Commands and installers start programs of one system. -/
def Executables.of (programs : Process.Programs) : Executables :=
  ⟨.ambient programs, .isolated programs, programs⟩

/-! ### Showing -/

def listLine (c : Config) (spec : EnvSpec) : String :=
  let marker := if c.defaultSelection.contains spec.name then "*" else " "
  match spec.description with
  | some description => s!"{marker} {spec.name} - {description}\n"
  | none => s!"{marker} {spec.name}\n"

def listing (c : Config) : String := String.join (c.environments.map (listLine c))

/-- The configuration, or one of its environments, as JSON. -/
def shownConfig (c : Config) (env : Option String) : Except Failure String :=
  match env with
  | none => .ok (c.toJson.pretty ++ "\n")
  | some name =>
    match c.find? name with
    | some spec => .ok (spec.toJson.pretty ++ "\n")
    | none => .error (.unknownEnvironment name)

/-! ### Running -/

def facilities (x : Executables) (c : Config) (o : RunOptions) : Facilities :=
  ⟨Run.provisioner c o, Installer.ofTemplate x.programs c.settings.installCommand, x.ambient,
    x.isolated, o.posargs⟩

/-- What a run prints on each environment and on the whole. -/
def printed (r : Report) : String :=
  String.join (r.environments.map EnvResult.render) ++ r.summary

/-- The exit code of a run: zero when the verdict is good, and otherwise the report's own as far as
one byte holds it. -/
def exitCode (r : Report) : Nat :=
  if (Verdict.ofReport r).passed then 0 else (max 1 (min 255 r.exitCode)).toNat

/-- The exit code of a program that broke off. -/
def brokenCode : Nat := 101

def noteViolations (w : World) (r : Report) : World :=
  (Verdict.ofReport r).violations.foldl (fun w _ => w.note .info none "Gate violation") w

/-- Writes the report where it was asked for; a report that cannot be written is a failure. -/
def deliver (r : Report) (report : Option Path) (w : World) : Done :=
  match report with
  | none => ⟨exitCode r, printed r, none, w⟩
  | some path =>
    match w.attempt (.write path (Text.encode r.text)) with
    | (w', none) => ⟨exitCode r, printed r ++ s!"Report written to {path.text}\n", none, w'⟩
    | (w', some cause) => ⟨1, printed r, some (.report path cause), w'⟩

def carryOutRun (x : Executables) (runId : Uuid) (c : Config) (s : Selection) (o : RunOptions)
    (report : Option Path) (w : World) : Done :=
  match Run.run (facilities x c o) c s o runId w with
  | (.ended (.refused cause), w') => ⟨1, "", some (.refusedRun cause), w'⟩
  | (.ended (.reported r), w') => deliver r report (noteViolations w' r)
  | (.ended .broken, w') | (.going _, w') => ⟨brokenCode, "", none, w'⟩

/-! ### Sessions -/

def act (x : Executables) (runId : Uuid) (c : Config) (a : Action) (w : World) : Done :=
  match a with
  | .run selection options report => carryOutRun x runId c selection options report w
  | .list => ⟨0, listing c, none, w⟩
  | .showConfig env =>
    match shownConfig c env with
    | .ok text => ⟨0, text, none, w⟩
    | .error e => ⟨1, "", some e, w⟩

/-- Loads the configuration and does what was ordered. -/
def carryOut (x : Executables) (runId : Uuid) (order : Order) (w : World) : Done :=
  match Config.readFile w.host order.config with
  | .error e => ⟨1, "", some (.configuration order.config e), w⟩
  | .ok text =>
    let w' := w.note .debug none "Loading configuration"
    match Config.parse (Config.rootOf w.host order.config) text with
    | .error e => ⟨1, "", some (.configuration order.config e), w'⟩
    | .ok c => act x runId c order.action w'

def halted (h : Host) (e : Halt) : Outcome :=
  match e with
  | .usage => ⟨2, "", none, [], false, h⟩
  | .help topic => ⟨0, helpOf topic, none, [], false, h⟩
  | .version => ⟨0, version ++ "\n", none, [], false, h⟩

/-- A call of the program with some arguments at some date. -/
def session (x : Executables) (runId : Uuid) (date : Timestamp) (h : Host) (args : List String) :
    Outcome :=
  match parse h.vars args with
  | .error e => halted h e
  | .ok order =>
    let d := carryOut x runId order { World.start h with date := date }
    let level := logLevel h.vars (Level.ofSwitches order.verbose order.quiet)
    ⟨d.code, d.stdout, d.failure, logged level d.world.journal, order.json, d.world.host⟩

end Testbed.CommandLine
