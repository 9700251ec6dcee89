import Testbed.Program.Executable

/-! Programs for rehearsals. A program with a rule is found at a place of its own and ends as the
rule says, without being run; all others are left to the executable that is rehearsed. -/
namespace Testbed.Rehearsal

structure ProgramRule where
  cancels : Bool
  aborts : Bool
  /-- The program is found and run after all. -/
  real : Bool
  launchError : Option String
  outcome : ExitOutcome
deriving DecidableEq, Repr

abbrev ProgramRules := List (String × ProgramRule)

def ProgramRules.find? (rules : ProgramRules) (name : String) : Option ProgramRule :=
  (List.find? (fun r => r.1 == name) rules).map Prod.snd

/-- Where programs with a rule are found. -/
def stage : Path := ⟨"/scripted"⟩

def resolve (rules : ProgramRules) (inner : Executable) (h : Host) (c : Context)
    (program : String) : Except CommandError Path :=
  match rules.find? program with
  | some rule => if rule.real then inner.resolve h c program else .ok (stage.join program)
  | none => inner.resolve h c program

def perform (rule : ProgramRule) (inner : Executable) (h : Host) (i : Invocation)
    (cutAt : Option Nat) : RunReply :=
  let ended (e : RunEnd) : RunReply := ⟨h.tree, [], rule.cancels, .none, e⟩
  if rule.aborts then ended .aborts
  else if rule.real then
    let reply := inner.run h i cutAt
    { reply with cancels := reply.cancels || rule.cancels }
  else
    match rule.launchError with
    | some reason => ended (.launchFailed reason)
    | none => ended (.exited rule.outcome)

def run (rules : ProgramRules) (inner : Executable) (h : Host) (i : Invocation)
    (cutAt : Option Nat) : RunReply :=
  match (i.path.fileName?).bind rules.find? with
  | some rule => perform rule inner h i cutAt
  | none => inner.run h i cutAt

/-- An executable in which some programs follow rules. -/
def executable (rules : ProgramRules) (inner : Executable) : Executable :=
  ⟨resolve rules inner, run rules inner⟩

end Testbed.Rehearsal
