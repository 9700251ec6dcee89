import Testbed.Config.Basic
import Testbed.Config.Tables

/-! Merging the shared base table into an environment's own. Single values of the environment
replace those of the base; dependencies, commands and the allow-list are appended to the base's, an
allow-list entry only if it is new; variables are merged by name. Whether a command may use an
ambient program, and whether its packages are declared, is decided after merging. -/
namespace Testbed.Config

/-- A table with its dependencies and commands read. -/
structure Layer where
  description : Option String
  deps : List Dependency
  commands : List Command
  allowlist : List String
  setenv : List (String × String)
  changeDir : Option Path
  continueOnError : Option Bool
  timeoutSecs : Option Nat
deriving Repr

def readDep (table raw : String) : Except Error Dependency :=
  match Dependency.parse? raw with
  | some d => .ok d
  | none => .error (.invalid (.unreadableDep table raw))

def isBlankWord (s : String) : Bool := s.toList.all Text.isBlank

def argvOf (table : String) : Run → Except Error (List String)
  | .argv args => .ok args
  | .line text =>
    match Command.splitLine text with
    | .ok args => .ok args
    | .error cause => .error (.invalid (.unreadableCommand table cause))

def readCommand (table : String) (entry : CommandEntry) : Except Error Command := do
  let argv ← argvOf table entry.run
  if isBlankWord (argv.headD "") then .error (.invalid (.unreadableCommand table .empty))
  else .ok ⟨argv, entry.external, entry.requires.map Dependency.normalizeName⟩

def readLayer (table : String) (t : EnvTable) : Except Error Layer := do
  let deps ← t.deps.mapM (readDep table)
  let commands ← t.commands.mapM (readCommand table)
  .ok ⟨t.description, deps, commands, t.allowlist, t.setenv, t.changeDir, t.continueOnError,
    t.timeoutSecs⟩

/-- The base is a layer without a name. -/
def readBase (t : EnvTable) : Except Error Layer :=
  if t.name.isSome then .error (.invalid .namedBase) else readLayer "default" t

/-! ### Merging -/

def addNew (entries : List String) (entry : String) : List String :=
  if entries.contains entry then entries else entries ++ [entry]

/-- The environment before its commands are looked at. -/
def overlay (base own : Layer) (name : String) : EnvSpec where
  name := name
  description := own.description <|> base.description
  deps := base.deps ++ own.deps
  commands := base.commands ++ own.commands
  allowlist := own.allowlist.foldl addNew base.allowlist
  setenv := Vars.overlay (Vars.overlay [] base.setenv) own.setenv
  changeDir := own.changeDir <|> base.changeDir
  continueOnError := (own.continueOnError <|> base.continueOnError).getD false
  timeoutSecs := (own.timeoutSecs <|> base.timeoutSecs).getD 0

def allowAll : String := "*"

/-- An entry admits a program that it equals; a bare program also by the entry's last component. -/
def admits (program entry : String) : Bool :=
  entry == allowAll || entry == program ||
    (!program.toList.contains '/' && (Path.mk entry).fileName? == some program)

def isAllowlisted (allowlist : List String) (program : String) : Bool :=
  allowlist.any (admits program)

/-- The package names that an environment declares. -/
def declaredNames (deps : List Dependency) : List String :=
  (deps.filterMap Dependency.packageName?).map Dependency.normalizeName

def checkRequires (spec : EnvSpec) (c : Command) : Except Error Unit :=
  match c.requires.find? (fun r => !(declaredNames spec.deps).contains r) with
  | some reference => .error (.unknownReference spec.name c.display reference)
  | none => .ok ()

def markExternal (allowlist : List String) (c : Command) : Command :=
  if isAllowlisted allowlist c.program then { c with external := true } else c

def finalize (spec : EnvSpec) : Except Error EnvSpec := do
  spec.commands.forM (checkRequires spec)
  .ok { spec with commands := spec.commands.map (markExternal spec.allowlist) }

def mergeEnv (base : Layer) (name : String) (t : EnvTable) : Except Error EnvSpec := do
  let own ← readLayer ("env." ++ name) t
  finalize (overlay base own name)

end Testbed.Config
