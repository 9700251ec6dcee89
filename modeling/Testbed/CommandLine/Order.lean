import Testbed.CommandLine.Option
import Testbed.Level
import Testbed.Run.Basic
import Testbed.Vars

/-! What a command line orders: which configuration to use, how much to say, and what to do. Some
options belong to every command and may stand before or after its name; what stands after it
wins. -/
namespace Testbed.CommandLine

def defaultConfig : String := "envrun.toml"

/-- The variable that names another configuration. -/
def configVariable : String := "ENVRUN_CONFIG"

inductive Action where
  | run (selection : Selection) (options : RunOptions) (report : Option Path)
  | list
  | showConfig (env : Option String)
deriving DecidableEq, Repr

structure Order where
  config : Path
  verbose : Bool
  quiet : Bool
  json : Bool
  action : Action
deriving DecidableEq, Repr

/-! ### Options -/

def helpSpec : OptionSpec := ⟨"help", some 'h', .help, false⟩

def commonSpecs : List OptionSpec :=
  [⟨"config", some 'c', .path, false⟩, ⟨"verbose", some 'v', .switch, false⟩,
   ⟨"quiet", some 'q', .switch, false⟩, ⟨"json", none, .switch, false⟩, helpSpec]

def versionSpec : OptionSpec := ⟨"version", some 'V', .version, false⟩

def runSpecs : List OptionSpec :=
  [⟨"env", some 'e', .text, true⟩, ⟨"parallel", some 'p', .count, false⟩,
   ⟨"continue-on-error", none, .switch, false⟩, ⟨"keep-envs", none, .switch, false⟩,
   ⟨"report-json", none, .path, false⟩]

def showConfigSpecs : List OptionSpec := [⟨"env", some 'e', .text, false⟩]

/-- The commands and their own options. -/
def commands : List (String × List OptionSpec) :=
  [("run", runSpecs), ("list", []), ("show-config", showConfigSpecs)]

def specsOf? (name : String) : Option (List OptionSpec) :=
  (commands.find? (fun c => c.1 == name)).map Prod.snd

/-! ### Checks -/

/-- What is asked of the options on either side of a command's name: not to be loud and quiet at
once, and a configuration from the ambient variable only if it names one. -/
def isSound (vars : Vars) (g : Given) : Bool :=
  !(g.has "verbose" && g.has "quiet") &&
    (g.has "config" || (vars.get? configVariable) != some "")

/-- A value that is given after the name of the command wins over one given before it. -/
def latest? (before after : Given) (name : String) : Option String :=
  ((after.values name).getLast?).or (before.values name).getLast?

def actionOf (name : String) (g : Given) (trailing : List String) : Action :=
  let switch (option : String) : Option Bool := if g.has option then some true else none
  if name = "run" then
    .run (.ofArgs (g.values "env"))
      ⟨((g.values "parallel").head?).bind count?, switch "continue-on-error", switch "keep-envs",
        trailing⟩
      (((g.values "report-json").head?).map Path.mk)
  else if name = "list" then .list
  else .showConfig (g.values "env").head?

def orderOf (vars : Vars) (before after : Given) (action : Action) : Order :=
  { config := ⟨((latest? before after "config").or (vars.get? configVariable)).getD defaultConfig⟩
    verbose := before.has "verbose" || after.has "verbose"
    quiet := before.has "quiet" || after.has "quiet"
    json := before.has "json" || after.has "json"
    action := action }

/-! ### Commands -/

/-- The arguments after the name of a command. Only a run takes arguments after the mark. -/
def parseCommand (vars : Vars) (before : Given) (name : String) (args : List String) :
    Except Halt Order :=
  match specsOf? name with
  | none => .error .usage
  | some specs =>
    match read (specs ++ commonSpecs) [] none args with
    | .error (.help _) => .error (.help (some name))
    | .error e => .error e
    | .ok r =>
      let trailing := r.trailing.getD []
      if r.word.isSome || (name ≠ "run" && !trailing.isEmpty) then .error .usage
      else if isSound vars r.given && isSound vars before then
        .ok (orderOf vars before r.given (actionOf name r.given trailing))
      else .error .usage

/-- Asking for help by a command of that name. -/
def parseHelp : List String → Halt
  | [] => .help none
  | [topic] => if (specsOf? topic).isSome || topic = "help" then .help (some topic) else .usage
  | _ => .usage

/-- Reads a command line, the program's own name left out. -/
def parse (vars : Vars) (args : List String) : Except Halt Order :=
  match read (versionSpec :: commonSpecs) [] none args with
  | .error e => .error e
  | .ok ⟨before, _, some (name, rest)⟩ =>
    if name = "help" then .error (parseHelp rest) else parseCommand vars before name rest
  | .ok ⟨_, _, none⟩ => .error .usage

end Testbed.CommandLine
