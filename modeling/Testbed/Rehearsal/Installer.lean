import Testbed.Installer

/-! An installer for rehearsals. It follows rules, by the display of the source: it may cancel the
run, hang, or refuse to start; otherwise it writes a script named after the package and ends with a
code. -/
namespace Testbed.Rehearsal

structure InstallRule where
  cancels : Bool
  hangs : Bool
  unavailable : Option String
  /-- The body of the script. -/
  body : String
  exitCode : Int
  stderr : String
deriving DecidableEq, Repr

def InstallRule.plain : InstallRule := ⟨false, false, none, "exit 0", 0, ""⟩

def scriptMode : Nat := 0o755

def scriptText (body : String) : String := "#!/bin/sh\n" ++ body ++ "\n"

/-- The tree with a script at a path; a script that cannot be written is left out. -/
def writeScript (h : Host) (path : Path) (body : String) : Host.Tree :=
  match h.write path (Text.encode (scriptText body)) with
  | .ok h' => ((h'.tree.setMode h.cwd path.text (fun _ => scriptMode)).toOption).getD h'.tree
  | .error _ => h.tree

def install (rule : InstallRule) (h : Host) (target : InstallTarget) (source : Dependency) :
    InstallReply :=
  let reply (tree : Host.Tree) (pause : Pause) (ending : InstallEnd) : InstallReply :=
    ⟨tree, [], rule.cancels, pause, ending⟩
  if rule.hangs then reply h.tree .forever (.exited 0 "")
  else
    match rule.unavailable with
    | some reason => reply h.tree .none (.refused (.installerUnavailable "scripted" reason))
    | none =>
      let tree := match source.declaredName? with
        | some name => writeScript h ((target.envDir.join "bin").join name) rule.body
        | none => h.tree
      reply tree .none (.exited rule.exitCode rule.stderr)

/-- The installer that follows a table of rules. -/
def installer (rules : List (String × InstallRule)) : Installer := fun h target source =>
  let rule := match rules.find? (fun r => r.1 == source.display) with
    | some (_, rule) => rule
    | none => .plain
  install rule h target source

end Testbed.Rehearsal
