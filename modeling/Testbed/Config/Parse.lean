import Testbed.Config.Merge
import Testbed.InstallCommand
import Testbed.Toml.Reader

/-! From the text of a configuration file to a configuration. The settings are checked first, then
the base, then the environments in order, and last the default selection. -/
namespace Testbed.Config

def resolveSettings (root : Path) (t : SettingsTable) : Except Error Settings := do
  let parallel := t.parallel.getD 1
  let installCommand := t.installCommand.getD InstallCommand.default
  let okCodes := t.okCodes.getD [0]
  if parallel = 0 then .error (.invalid .noParallelism)
  else if installCommand.isEmpty then .error (.invalid .noInstallCommand)
  else if okCodes.isEmpty then .error (.invalid .noOkCodes)
  else
    .ok {
      workDir := root.join ((t.workDir.map Path.text).getD ".envrun")
      envlist := t.envlist
      parallel := parallel
      keepEnvs := t.keepEnvs.getD false
      installCommand := installCommand
      okCodes := okCodes }

/-- Environment names start with a letter or digit and go on with those, dots, dashes and
underscores. -/
def isIdentifier (name : String) : Bool :=
  match name.toList with
  | c :: r => Dependency.isAlnum c && r.all Dependency.isNameChar
  | [] => false

def checkName (name : String) : Except Error Unit :=
  if name = everything then .error (.invalid .reservedName)
  else if isIdentifier name then .ok ()
  else .error (.invalid (.malformedName name))

/-- Merges the environments that stand from `position` on; `seen` holds the names before them. -/
def mergeEnvs (base : Layer) : Nat → List String → List EnvTable → Except Error (List EnvSpec)
  | _, _, [] => .ok []
  | position, seen, t :: rest => do
    let name ← match t.name with
      | some name => Except.ok name
      | none => .error (.invalid (.missingName position))
    checkName name
    if seen.contains name then .error (.duplicateEnvironment name)
    let spec ← mergeEnv base name t
    let specs ← mergeEnvs base (position + 1) (name :: seen) rest
    .ok (spec :: specs)

def checkEnvlist (declared : List String) (envlist : Option (List String)) : Except Error Unit :=
  match (envlist.getD []).find? (fun name => !declared.contains name) with
  | some name => .error (.invalid (.undeclaredInEnvlist name))
  | none => .ok ()

/-- The configuration of a decoded file. -/
def ofFile (root : Path) (file : File) : Except Error Config := do
  let settings ← resolveSettings root file.settings
  let base ← readBase file.base
  let environments ← mergeEnvs base 0 [] file.envs
  checkEnvlist (environments.map EnvSpec.name) settings.envlist
  .ok ⟨root, settings, environments⟩

def parse (root : Path) (text : String) : Except Error Config :=
  match (Toml.parse? text).bind File.ofToml? with
  | some file => ofFile root file
  | none => .error .malformed

end Testbed.Config
