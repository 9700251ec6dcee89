import Testbed.Proofs.Host.Files
import Testbed.Proofs.Json.RoundTrip
import Testbed.Proofs.Timestamp
import Testbed.Proofs.Uuid
import Testbed.Report.Json

/-! A report is read back from the text that is written of it. A record is read by its members' names,
each of which it has once, and every member is read as what it was written from. -/
namespace Testbed

/-! ### Reports -/

theorem CommandStatus.ofLabel?_label (c : CommandStatus) : ofLabel? c.label = some c := by
  cases c <;> decide

theorem Lifecycle.ofLabel?_label (l : Lifecycle) : ofLabel? l.label = some l := by
  cases l <;> decide

/-- Its numbers fit their fields: 64 bits for an index and a duration, 32 with a sign for an exit
code. -/
structure CommandOutcome.InRange (o : CommandOutcome) : Prop where
  index : o.index < UInt64.size
  exitCode : ∀ c ∈ o.exitCode, -2147483648 ≤ c ∧ c ≤ 2147483647
  durationMs : o.durationMs < UInt64.size

structure EnvResult.InRange (r : EnvResult) : Prop where
  outcomes : ∀ o ∈ r.outcomes, o.InRange
  durationMs : r.durationMs < UInt64.size

/-- Its numbers fit their fields, and it starts at a moment of a year of four digits. -/
structure Report.InRange (r : Report) : Prop where
  startedAt : r.startedAt.Dated
  durationMs : r.durationMs < UInt64.size
  environments : ∀ e ∈ r.environments, e.InRange
  exitCode : -2147483648 ≤ r.exitCode ∧ r.exitCode ≤ 2147483647

theorem CommandOutcome.ofJson?_toJson {o : CommandOutcome} (h : o.InRange) :
    ofJson? o.toJson = some o := by
  have hindex := Json.asNat64?_nat h.index
  have hduration := Json.asNat64?_nat h.durationMs
  have hcode : Json.asNullable? Json.asInt32? (.ofOption .int o.exitCode) = some o.exitCode :=
    Json.asNullable?_ofOption fun c hc => ⟨Json.noConfusion, Json.asInt32?_int (h.exitCode c hc)⟩
  have herror : Json.asNullable? Json.asString? (.ofOption .string o.error) = some o.error :=
    Json.asNullable?_ofOption fun s _ => ⟨Json.noConfusion, rfl⟩
  rw [ofJson?, toJson, Json.record?_object (by rfl) (by decide)]
  simp only [List.map_cons, List.map_nil, Json.required, Json.optional, Json.asString?, Json.word?,
    CommandStatus.ofLabel?_label, hindex, hduration, hcode, herror, Option.bind_eq_bind,
    Option.bind_some]

theorem EnvResult.ofJson?_toJson {r : EnvResult} (h : r.InRange) : ofJson? r.toJson = some r := by
  have hduration := Json.asNat64?_nat h.durationMs
  have houtcomes : Json.asList? CommandOutcome.ofJson? (.array (r.outcomes.map CommandOutcome.toJson)) =
      some r.outcomes :=
    Json.asList?_map fun o ho => CommandOutcome.ofJson?_toJson (h.outcomes o ho)
  have hfailure : Json.asNullable? Json.asString? (.ofOption .string r.failure) = some r.failure :=
    Json.asNullable?_ofOption fun s _ => ⟨Json.noConfusion, rfl⟩
  rw [ofJson?, toJson, Json.record?_object (by rfl) (by decide)]
  simp only [List.map_cons, List.map_nil, Json.required, Json.optional, Json.asString?, Json.word?,
    Lifecycle.ofLabel?_label, houtcomes, hduration, hfailure, Option.bind_eq_bind, Option.bind_some]

theorem Report.ofJson?_toJson {r : Report} (h : r.InRange) : ofJson? r.toJson = some r := by
  have hduration := Json.asNat64?_nat h.durationMs
  have henvironments : Json.asList? EnvResult.ofJson? (.array (r.environments.map EnvResult.toJson)) =
      some r.environments :=
    Json.asList?_map fun e he => EnvResult.ofJson?_toJson (h.environments e he)
  rw [ofJson?, toJson, Json.record?_object (by rfl) (by decide)]
  simp only [List.map_cons, List.map_nil, Json.required, Json.asString?, Uuid.parse?_render,
    Timestamp.parse?_render h.startedAt.onCalendar, henvironments, hduration,
    Json.asInt32?_int h.exitCode, Option.bind_eq_bind, Option.bind_some]

/-! ### The text of a report -/

theorem CommandOutcome.exact_toJson (o : CommandOutcome) : o.toJson.Exact := by
  refine .object ?_
  simp only [List.forall_mem_cons]
  exact ⟨.int _, .string _, .string _, .ofOption .int _, .int _, .string _, .string _,
    .ofOption .string _, List.forall_mem_nil _⟩

theorem EnvResult.exact_toJson (r : EnvResult) : r.toJson.Exact := by
  refine .object ?_
  simp only [List.forall_mem_cons]
  exact ⟨.string _, .string _, .map CommandOutcome.exact_toJson _, .ofOption .string _, .int _, List.forall_mem_nil _⟩

theorem Report.exact_toJson (r : Report) : r.toJson.Exact := by
  refine .object ?_
  simp only [List.forall_mem_cons]
  exact ⟨.string _, .string _, .int _, .map EnvResult.exact_toJson _, .int _, List.forall_mem_nil _⟩

/-- A report is read back from its text, and from the file that the text was written to. -/
theorem Report.read_written {r : Report} (hr : r.InRange) :
    parse? r.text = some r ∧
      ∀ {h h' : Host} {path : Path}, h.tree.Keeps h.cwd path.text →
        h.write path (Text.encode r.text) = .ok h' →
          (h'.readText path).toOption.bind parse? = some r := by
  have htext : parse? r.text = some r := by
    rw [parse?, text, Json.parse?_pretty r.exact_toJson, Option.bind_some, ofJson?_toJson hr]
  refine ⟨htext, fun hkeeps hwrite => ?_⟩
  rw [Host.readText_write hkeeps hwrite, Except.toOption, Option.bind_some, htext]

/-- At a leap second, with text that must be escaped, numbers at their bounds, and a moment whose
fraction needs all its digits. -/
def Report.pressed : Report where
  runId := ⟨List.replicate 31 (Uuid.lastDigit 10) ++ [Uuid.lastDigit 15], rfl⟩
  startedAt := ⟨2016, 12, 31, 23, 59, 60, 120000001⟩
  durationMs := 18446744073709551615
  environments :=
    [⟨"\"é\\😀", .failed,
      [⟨18446744073709551615, "a\x00\x08\x0c\n\r\t\x1f\x7f", .timedOut, none, 0, "", "\uffff", some ""⟩,
        ⟨1, "", .failed, some (-2147483648), 7, "\x7b\x7d[],:", "null", none⟩],
      some "commands failed", 0⟩,
      .skipped ""]
  exitCode := 2147483647

theorem Report.inRange_pressed : pressed.InRange where
  startedAt := ⟨by decide, by decide, by decide, by decide, by decide, by decide, by decide⟩
  durationMs := by decide
  environments := by
    simp only [pressed, List.forall_mem_cons]
    refine ⟨⟨?_, by decide⟩, ⟨List.forall_mem_nil _, by decide⟩, List.forall_mem_nil _⟩
    simp only [List.forall_mem_cons]
    exact ⟨⟨by decide, nofun, by decide⟩, ⟨by decide, by simp, by decide⟩, List.forall_mem_nil _⟩
  exitCode := by decide

theorem Report.read_written_pressed :
    let bare : Host := ⟨.empty, [], []⟩
    pressed.InRange ∧ parse? pressed.text = some pressed ∧
      ∃ h', bare.write ⟨"report.json"⟩ (Text.encode pressed.text) = .ok h' ∧
        (h'.readText ⟨"report.json"⟩).toOption.bind parse? = some pressed := by
  intro bare
  have hfree : bare.tree.follow true bare.cwd "report.json" = .free [] "report.json" false := by
    have hnames : Host.Tree.namesOf "report.json" = ["report.json"] := by decide
    rw [Host.Tree.follow_names (by decide) (by decide) (by decide), hnames,
      Host.Tree.walk_plain (Host.Tree.get?_root _) ⟨by decide, by decide, by decide⟩ (by decide)]
    rfl
  have hkeeps : bare.tree.Keeps bare.cwd "report.json" := by
    intro body hbody
    rw [Host.Tree.bodyOf, Host.Tree.stat, hfree] at hbody
    cases hbody
  have hwrite : bare.write ⟨"report.json"⟩ (Text.encode pressed.text) =
      .ok ⟨bare.tree.set ["report.json"]
        (.file (.bytes (Text.encode pressed.text)) Host.Tree.newFileMode), [], []⟩ := by
    rw [Host.write, Host.Tree.write, Host.Tree.update, hfree]
    rfl
  obtain ⟨htext, hfile⟩ := read_written inRange_pressed
  exact ⟨inRange_pressed, htext, _, hwrite, hfile hkeeps hwrite⟩

end Testbed
