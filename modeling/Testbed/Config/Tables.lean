import Testbed.Path
import Testbed.Toml.Basic

/-! The tables of a configuration file as they are written, before merging and validation. Every
record may also be written as an array of its fields in order. -/
namespace Testbed.Config

structure SettingsTable where
  workDir : Option Path
  envlist : Option (List String)
  parallel : Option Nat
  keepEnvs : Option Bool
  installCommand : Option (List String)
  okCodes : Option (List Int)
deriving Repr

/-- How the argument vector of a command is written. -/
inductive Run where
  | line (text : String)
  | argv (args : List String)
deriving DecidableEq, Repr

structure CommandEntry where
  run : Run
  external : Bool
  requires : List String
deriving DecidableEq, Repr

structure EnvTable where
  name : Option String
  description : Option String
  deps : List String
  commands : List CommandEntry
  allowlist : List String
  setenv : List (String × String)
  changeDir : Option Path
  continueOnError : Option Bool
  timeoutSecs : Option Nat
deriving Repr

structure File where
  settings : SettingsTable
  base : EnvTable
  envs : List EnvTable
deriving Repr

def SettingsTable.empty : SettingsTable := ⟨none, none, none, none, none, none⟩

def EnvTable.empty : EnvTable := ⟨none, none, [], [], [], [], none, none, none⟩

/-! ### Decoding -/

open Toml (optional)

def strings? : Toml → Option (List String) := Toml.asList? Toml.asString?

def path? (v : Toml) : Option Path := (Toml.asString? v).map Path.mk

def exitCode? : Toml → Option Int := Toml.asInt? (-2147483648) 2147483647

def settingsKeys : List Toml.Key :=
  [⟨"work_dir", false⟩, ⟨"envlist", false⟩, ⟨"parallel", false⟩, ⟨"keep_envs", false⟩,
   ⟨"install_command", false⟩, ⟨"install_ok_codes", false⟩]

def SettingsTable.ofToml? (v : Toml) : Option SettingsTable := do
  match ← Toml.record? settingsKeys v with
  | [workDir, envlist, parallel, keepEnvs, installCommand, okCodes] =>
    some {
      workDir := ← optional path? workDir
      envlist := ← optional strings? envlist
      parallel := ← optional Toml.asNat? parallel
      keepEnvs := ← optional Toml.asBool? keepEnvs
      installCommand := ← optional strings? installCommand
      okCodes := ← optional (Toml.asList? exitCode?) okCodes }
  | _ => none

def Run.ofToml? : Toml → Option Run
  | .string s => some (.line s)
  | v => (strings? v).map .argv

def commandKeys : List Toml.Key := [⟨"run", false⟩, ⟨"external", true⟩, ⟨"requires", true⟩]

/-- A command is a line, an array of strings, or a record. What can be read as one of the first two
is not read as a record. -/
def CommandEntry.ofToml? (v : Toml) : Option CommandEntry :=
  match Run.ofToml? v with
  | some run => some ⟨run, false, []⟩
  | none => do
    match ← Toml.record? commandKeys v with
    | [some run, external, requires] =>
      some {
        run := ← Run.ofToml? run
        external := (← optional Toml.asBool? external).getD false
        requires := (← optional strings? requires).getD [] }
    | _ => none

def envKeys : List Toml.Key :=
  [⟨"name", false⟩, ⟨"description", false⟩, ⟨"deps", true⟩, ⟨"commands", true⟩,
   ⟨"allowlist_externals", true⟩, ⟨"setenv", true⟩, ⟨"change_dir", false⟩,
   ⟨"continue_on_error", false⟩, ⟨"timeout_secs", false⟩]

def EnvTable.ofToml? (v : Toml) : Option EnvTable := do
  match ← Toml.record? envKeys v with
  | [name, description, deps, commands, allowlist, setenv, changeDir, continueOnError, timeout] =>
    some {
      name := ← optional Toml.asString? name
      description := ← optional Toml.asString? description
      deps := (← optional strings? deps).getD []
      commands := (← optional (Toml.asList? CommandEntry.ofToml?) commands).getD []
      allowlist := (← optional strings? allowlist).getD []
      setenv := (← optional (Toml.asMap? Toml.asString?) setenv).getD []
      changeDir := ← optional path? changeDir
      continueOnError := ← optional Toml.asBool? continueOnError
      timeoutSecs := ← optional Toml.asNat? timeout }
  | _ => none

def fileKeys : List Toml.Key := [⟨"settings", true⟩, ⟨"default", true⟩, ⟨"env", true⟩]

def File.ofToml? (v : Toml) : Option File := do
  match ← Toml.record? fileKeys v with
  | [settings, base, envs] =>
    some {
      settings := (← optional SettingsTable.ofToml? settings).getD .empty
      base := (← optional EnvTable.ofToml? base).getD .empty
      envs := (← optional (Toml.asList? EnvTable.ofToml?) envs).getD [] }
  | _ => none

end Testbed.Config
