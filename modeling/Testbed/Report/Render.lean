import Testbed.Report.Basic
import Testbed.Seconds
import Testbed.Text.Blank

/-! A report for its reader: a line for each command with the output of those that failed, and a
summary with one row for each environment. -/
namespace Testbed

/-! ### Commands -/

def CommandOutcome.describe (o : CommandOutcome) : String :=
  match o.status with
  | .passed => s!"passed ({o.durationMs}ms)"
  | .failed =>
    match o.exitCode with
    | some code => s!"failed with exit code {code} ({o.durationMs}ms)"
    | none => s!"terminated by signal ({o.durationMs}ms)"
  | .timedOut => s!"timed out after {o.durationMs}ms"
  | .cancelled => "cancelled"
  | .skipped => "skipped"
  | .error => "could not run: " ++ o.error.getD "unknown error"

/-- Captured output under its label, without the blanks at its end; nothing when nothing is left. -/
def renderOutput (label text : String) : String :=
  let shown := Text.trimEnd text.toList
  if shown.isEmpty then ""
  else
    s!"  --- {label} ---\n" ++
      String.join ((Text.lines shown).map (fun line => "  " ++ String.ofList line ++ "\n"))

def CommandOutcome.render (env : String) (o : CommandOutcome) : String :=
  s!"{env}: commands[{o.index}] `{o.display}` {o.describe}\n" ++
    if !o.isPassed && !o.isSkipped then renderOutput "stdout" o.stdout ++ renderOutput "stderr" o.stderr
    else ""

def EnvResult.render (r : EnvResult) : String :=
  String.join (r.outcomes.map (CommandOutcome.render r.name)) ++
    match r.status, r.failure with
    | .provisionFailed, some failure => s!"{r.name}: provisioning failed: {failure}\n"
    | _, _ => ""

/-! ### Summary -/

namespace Report

/-- `text` in the middle of `width` columns; an odd rest goes to the right. -/
def centre (fill : Char) (width : Nat) (text : String) : String :=
  let rest := width - text.length
  String.ofList (List.replicate (rest / 2) fill) ++ text ++
    String.ofList (List.replicate (rest - rest / 2) fill)

def padRight (width : Nat) (text : String) : String :=
  text ++ String.ofList (List.replicate (width - text.length) ' ')

/-- The widest name, measured in bytes. -/
def nameWidth (r : Report) : Nat := (r.names.map String.utf8ByteSize).foldl max 0

def countsOf (e : EnvResult) : String :=
  if e.status = .skipped then ""
  else
    s!" ({e.passedCount} passed, {e.failedCount} failed, {e.skippedCount} skipped, " ++
      Seconds.render e.durationMs ++ "s)"

def row (width : Nat) (e : EnvResult) : String :=
  let mark := if e.succeeded then "✓" else "✗"
  s!"  {mark} {padRight width e.name}  {e.status.category}{countsOf e}\n"

def verdictLine (r : Report) : String :=
  let failed := r.environments.countP (fun e => !e.succeeded)
  let total := r.environments.length
  if failed = 0 then s!":) all {total} environment(s) succeeded\n"
  else s!":( {failed} of {total} environment(s) did not succeed\n"

def summary (r : Report) : String :=
  centre '_' 60 " summary " ++ "\n" ++ String.join (r.environments.map (row r.nameWidth)) ++
    r.verdictLine

end Report

end Testbed
