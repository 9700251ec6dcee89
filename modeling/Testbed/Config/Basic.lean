import Testbed.Command.Basic
import Testbed.Dependency.Basic
import Testbed.Host.OsError
import Testbed.Text.Quoted
import Testbed.Vars

/-! A configuration: global settings and the declared environments, merged and validated. -/
namespace Testbed

structure Settings where
  workDir : Path
  envlist : Option (List String)
  parallel : Nat
  keepEnvs : Bool
  installCommand : List String
  okCodes : List Int
deriving DecidableEq, Repr

/-- One environment, with the shared base merged in. -/
structure EnvSpec where
  name : String
  description : Option String
  deps : List Dependency
  commands : List Command
  allowlist : List String
  setenv : Vars
  changeDir : Option Path
  continueOnError : Bool
  /-- Zero for no limit. -/
  timeoutSecs : Nat
deriving DecidableEq, Repr

/-- Without commands there is nothing to provision or run. -/
def EnvSpec.isNoop (spec : EnvSpec) : Bool := spec.commands.isEmpty

structure Config where
  root : Path
  settings : Settings
  environments : List EnvSpec
deriving DecidableEq, Repr

namespace Config

/-- The word that selects every environment. -/
def everything : String := "ALL"

def names (c : Config) : List String := c.environments.map EnvSpec.name

def find? (c : Config) (name : String) : Option EnvSpec :=
  c.environments.find? (fun spec => spec.name == name)

/-- The environments of a run that names none. -/
def defaultSelection (c : Config) : List String := c.settings.envlist.getD c.names

/-! ### Faults -/

/-- Values that are well formed and yet not allowed. -/
inductive Fault where
  | noParallelism
  | noInstallCommand
  | noOkCodes
  | namedBase
  | missingName (position : Nat)
  | reservedName
  | malformedName (name : String)
  | unreadableDep (table raw : String)
  | unreadableCommand (table : String) (cause : Command.LineError)
  | undeclaredInEnvlist (name : String)
deriving DecidableEq, Repr

def Fault.field : Fault → String
  | .noParallelism => "settings.parallel"
  | .noInstallCommand => "settings.install_command"
  | .noOkCodes => "settings.install_ok_codes"
  | .namedBase => "default.name"
  | .missingName position => s!"env[{position}].name"
  | .reservedName | .malformedName _ => "env.name"
  | .unreadableDep table _ => table ++ ".deps"
  | .unreadableCommand table _ => table ++ ".commands"
  | .undeclaredInEnvlist _ => "settings.envlist"

def Fault.reason : Fault → String
  | .noParallelism => "must be at least 1"
  | .noInstallCommand | .noOkCodes => "must not be empty"
  | .namedBase => "the [default] table cannot be named"
  | .missingName _ => "missing environment name"
  | .reservedName => s!"'{everything}' is reserved"
  | .malformedName name => s!"'{name}' must match [A-Za-z0-9][A-Za-z0-9._-]*"
  | .unreadableDep _ raw => s!"cannot parse '{raw}'"
  | .unreadableCommand _ cause => cause.reason
  | .undeclaredInEnvlist name => s!"'{name}' is not a declared environment"

inductive Error where
  | malformed
  | duplicateEnvironment (name : String)
  | unknownReference (env command reference : String)
  | invalid (fault : Fault)
  | unreadable (path : Path) (cause : Host.OsError)
deriving DecidableEq, Repr

def Error.message : Error → String
  | .malformed => "malformed configuration:"
  | .duplicateEnvironment name => s!"environment '{name}' is declared more than once"
  | .unknownReference env command reference =>
    s!"environment '{env}': command `{command}` requires '{reference}', which no dependency source declares"
  | .invalid fault => s!"invalid value for {fault.field}: {fault.reason}"
  | .unreadable path cause =>
    "cannot read configuration " ++ Text.quoted path.text ++ ": " ++ cause.message

end Config

end Testbed
