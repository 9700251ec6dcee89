import Testbed.Json.Reader
import Testbed.Json.Writer
import Testbed.Report.Basic

/-! Reports as JSON. What is written has every member, in a fixed order; what is read may leave out
the members that can be `null` and may hold others, and a record may be an array of its members. -/
namespace Testbed

def CommandOutcome.toJson (o : CommandOutcome) : Json :=
  .object [("index", .nat o.index), ("display", .string o.display),
    ("status", .string o.status.label), ("exit_code", .ofOption .int o.exitCode),
    ("duration_ms", .nat o.durationMs), ("stdout", .string o.stdout), ("stderr", .string o.stderr),
    ("error", .ofOption .string o.error)]

def EnvResult.toJson (r : EnvResult) : Json :=
  .object [("name", .string r.name), ("status", .string r.status.label),
    ("outcomes", .array (r.outcomes.map CommandOutcome.toJson)),
    ("failure", .ofOption .string r.failure), ("duration_ms", .nat r.durationMs)]

def Report.toJson (r : Report) : Json :=
  .object [("run_id", .string r.runId.render), ("started_at", .string r.startedAt.render),
    ("duration_ms", .nat r.durationMs),
    ("environments", .array (r.environments.map EnvResult.toJson)), ("exit_code", .int r.exitCode)]

/-- The text of a report file. -/
def Report.text (r : Report) : String := r.toJson.pretty

/-! ### Reading -/

open Json (required optional asString? asNat64? asInt32? asList? word?)

def CommandOutcome.ofJson? (j : Json) : Option CommandOutcome := do
  match ← Json.record? ["index", "display", "status", "exit_code", "duration_ms", "stdout", "stderr",
      "error"] j with
  | [index, display, status, exitCode, duration, stdout, stderr, error] =>
    some {
      index := ← required asNat64? index
      display := ← required asString? display
      status := ← (required word? status).bind CommandStatus.ofLabel?
      exitCode := ← optional asInt32? exitCode
      durationMs := ← required asNat64? duration
      stdout := ← required asString? stdout
      stderr := ← required asString? stderr
      error := ← optional asString? error }
  | _ => none

def EnvResult.ofJson? (j : Json) : Option EnvResult := do
  match ← Json.record? ["name", "status", "outcomes", "failure", "duration_ms"] j with
  | [name, status, outcomes, failure, duration] =>
    some {
      name := ← required asString? name
      status := ← (required word? status).bind Lifecycle.ofLabel?
      outcomes := ← required (asList? CommandOutcome.ofJson?) outcomes
      failure := ← optional asString? failure
      durationMs := ← required asNat64? duration }
  | _ => none

def Report.ofJson? (j : Json) : Option Report := do
  match ← Json.record? ["run_id", "started_at", "duration_ms", "environments", "exit_code"] j with
  | [runId, startedAt, duration, environments, exitCode] =>
    some {
      runId := ← Uuid.parse? (← required asString? runId)
      startedAt := ← Timestamp.parse? (← required asString? startedAt)
      durationMs := ← required asNat64? duration
      environments := ← required (asList? EnvResult.ofJson?) environments
      exitCode := ← required asInt32? exitCode }
  | _ => none

def Report.parse? (text : String) : Option Report := (Json.parse? text).bind Report.ofJson?

end Testbed
