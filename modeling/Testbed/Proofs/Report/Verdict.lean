import Testbed.CommandLine.Session
import Testbed.Proofs.Run.Ending
import Testbed.Proofs.Run.WellFormed
import Testbed.Proofs.Text.Blank

/-! Whoever tells how a run ended tells the same. The exit code of the report, the gate, the summary
and the exit code of the program each look at the entries themselves, and they agree, whatever the
entries are. -/
namespace Testbed

/-! ### Counts of outcomes -/

/-- Every outcome is counted once. -/
theorem EnvResult.counts_add (e : EnvResult) :
    e.passedCount + e.failedCount + e.skippedCount = e.outcomes.length := by
  unfold passedCount failedCount skippedCount
  induction e.outcomes with
  | nil => rfl
  | cons o os ih =>
    have hboth : ¬ (o.isPassed = true ∧ o.isSkipped = true) := by
      simp only [CommandOutcome.isPassed, CommandOutcome.isSkipped, beq_iff_eq]
      rintro ⟨hp, hs⟩
      rw [hp] at hs
      cases hs
    simp only [List.countP_cons, List.length_cons]
    cases hp : o.isPassed <;> cases hs : o.isSkipped
    case true.true => exact absurd ⟨hp, hs⟩ hboth
    all_goals simp only [Bool.not_true, Bool.not_false, Bool.and_true, Bool.and_false, if_true,
      Bool.false_eq_true, if_false]
    all_goals omega

namespace Report

/-- How many entries did not succeed. -/
def missed (r : Report) : Nat := r.environments.countP fun e => !e.succeeded

theorem missed_eq_zero {r : Report} :
    r.missed = 0 ↔ r.environments.all EnvResult.succeeded = true := by
  simp [missed]

/-! ### Lines of the summary -/

/-- The lines of the summary as they are read. -/
def summaryLines (r : Report) : List String := (Text.lines r.summary.toList).map String.ofList

/-- It begins as the row of an entry that did not succeed. -/
def isCrossed (line : String) : Bool := [' ', ' ', '✗', ' '].isPrefixOf line.toList

/-- A row without its line end. -/
def rowText (width : Nat) (e : EnvResult) : String :=
  (if e.succeeded then "  ✓ " else "  ✗ ") ++ padRight width e.name ++ "  " ++ e.status.category ++
    countsOf e

/-- The last line when every environment succeeded. -/
def goodVerdict (r : Report) : String := s!":) all {r.environments.length} environment(s) succeeded"

/-- The last line otherwise. -/
def badVerdict (r : Report) : String :=
  s!":( {r.missed} of {r.environments.length} environment(s) did not succeed"

/-- A piece of a text that is put together. -/
theorem toString_string (s : String) : toString s = s := rfl

theorem toList_append_newline (s : String) : (s ++ "\n").toList = s.toList ++ ['\n'] := by
  rw [String.toList_append]
  rfl

theorem row_eq (width : Nat) (e : EnvResult) : row width e = rowText width e ++ "\n" := by
  apply String.toList_injective
  unfold row rowText
  cases e.succeeded <;> simp [toString_string]

theorem verdictLine_eq (r : Report) :
    r.verdictLine = (if r.missed = 0 then r.goodVerdict else r.badVerdict) ++ "\n" := by
  apply String.toList_injective
  change (if r.missed = 0 then _ else _ : String).toList = _
  split <;> simp [goodVerdict, badVerdict, missed, toString_string]

theorem isCrossed_rowText (width : Nat) (e : EnvResult) (rest : String) :
    isCrossed (rowText width e ++ rest) = !e.succeeded := by
  unfold isCrossed rowText
  cases e.succeeded <;> simp [List.isPrefixOf]

/-! ### Line ends -/

theorem newline_notMem_toString (n : Nat) : '\n' ∉ (toString n).toList := by
  rw [Nat.toString_eq_repr, Nat.toList_repr]
  intro h
  exact absurd (Nat.isDigit_of_mem_toDigits (by decide) (by decide) h) (by decide)

theorem newline_notMem_seconds (ms : Nat) : '\n' ∉ (Seconds.render ms).toList := by
  have hn := newline_notMem_toString
  unfold Seconds.render Seconds.twoDigits
  dsimp only
  split <;> simp [-Nat.toString_eq_repr, toString_string, hn]

theorem newline_notMem_category (l : Lifecycle) : '\n' ∉ l.category.toList := by
  cases l <;> decide

theorem newline_notMem_rowText {width : Nat} {e : EnvResult} (h : '\n' ∉ e.name.toList) :
    '\n' ∉ (rowText width e).toList := by
  have hn := newline_notMem_toString
  have hcounts : '\n' ∉ (countsOf e).toList := by
    unfold countsOf
    split <;> simp [-Nat.toString_eq_repr, toString_string, hn, newline_notMem_seconds]
  unfold rowText padRight
  split <;> simp [h, hcounts, newline_notMem_category]

theorem lines_verdictLine (r : Report) : Text.lines r.verdictLine.toList =
    [(if r.missed = 0 then r.goodVerdict else r.badVerdict).toList] := by
  have hn := newline_notMem_toString
  have hline : '\n' ∉ (if r.missed = 0 then r.goodVerdict else r.badVerdict).toList := by
    unfold goodVerdict badVerdict
    split <;> simp [-Nat.toString_eq_repr, toString_string, hn]
  have hlast : (if r.missed = 0 then r.goodVerdict else r.badVerdict).toList.getLast? =
      some 'd' := by
    unfold goodVerdict badVerdict
    split <;> simp [toString_string, List.getLast?_cons]
  rw [verdictLine_eq, toList_append_newline, Text.lines_of_line hline, Text.dropReturn, hlast]
  rfl

theorem lines_rows (width : Nat) (es : List EnvResult) (t : List Char) :
    Text.lines ((String.join (es.map (row width))).toList ++ t) =
      (es.flatMap fun e => Text.lines (row width e).toList) ++ Text.lines t := by
  induction es with
  | nil => simp
  | cons e es ih =>
    have hrow : (row width e).toList = (rowText width e).toList ++ ['\n'] := by
      rw [row_eq, toList_append_newline]
    rw [String.toList_join, List.map_cons, List.flatMap_cons, ← String.toList_join,
      List.append_assoc, hrow, Text.lines_append_finished, ih, List.flatMap_cons, hrow,
      List.append_assoc]

/-- The heading, what the rows show, and the verdict. -/
theorem summaryLines_eq (r : Report) : r.summaryLines =
    centre '_' 60 " summary " ::
      ((r.environments.flatMap fun e => Text.lines (row r.nameWidth e).toList).map String.ofList ++
        [if r.missed = 0 then r.goodVerdict else r.badVerdict]) := by
  have hhead : Text.lines ((centre '_' 60 " summary ").toList ++ ['\n']) =
      [(centre '_' 60 " summary ").toList] := by decide
  have htext : r.summary.toList = (centre '_' 60 " summary ").toList ++ ['\n'] ++
      ((String.join (r.environments.map (row r.nameWidth))).toList ++ r.verdictLine.toList) := by
    simp [summary]
  rw [summaryLines, htext, Text.lines_append_finished, hhead, lines_rows, lines_verdictLine]
  simp

theorem summaryLines_getLast? (r : Report) : r.summaryLines.getLast? =
    some (if r.missed = 0 then r.goodVerdict else r.badVerdict) := by
  rw [summaryLines_eq, ← List.cons_append, List.getLast?_concat]

/-- A name within one line takes one line of the summary. -/
theorem countP_isCrossed_row {width : Nat} {e : EnvResult} (h : '\n' ∉ e.name.toList) :
    ((Text.lines (row width e).toList).map String.ofList).countP isCrossed =
      if e.succeeded then 0 else 1 := by
  have hcross : isCrossed (String.ofList (Text.dropReturn (rowText width e).toList)) =
      !e.succeeded := by
    have hcross : '\r' ∉ [' ', ' ', '✗', ' '] := by decide
    rw [← isCrossed_rowText width e "", String.append_empty]
    unfold isCrossed
    rw [String.toList_ofList, Text.isPrefixOf_dropReturn hcross]
  rw [row_eq, toList_append_newline, Text.lines_of_line (newline_notMem_rowText h), List.map_singleton,
    List.countP_singleton, hcross]
  cases e.succeeded <;> rfl

theorem countP_isCrossed_rows {width : Nat} {es : List EnvResult}
    (h : ∀ e ∈ es, '\n' ∉ e.name.toList) :
    ((es.flatMap fun e => Text.lines (row width e).toList).map String.ofList).countP isCrossed =
      es.countP fun e => !e.succeeded := by
  induction es with
  | nil => rfl
  | cons e es ih =>
    rw [List.flatMap_cons, List.map_append, List.countP_append,
      countP_isCrossed_row (h e List.mem_cons_self),
      ih fun d hd => h d (List.mem_cons_of_mem e hd), List.countP_cons, Nat.add_comm]
    cases e.succeeded <;> rfl

theorem countP_isCrossed_summaryLines {r : Report}
    (h : ∀ e ∈ r.environments, '\n' ∉ e.name.toList) :
    r.summaryLines.countP isCrossed = r.missed := by
  have hhead : isCrossed (centre '_' 60 " summary ") = false := by decide
  have hverdict : isCrossed (if r.missed = 0 then r.goodVerdict else r.badVerdict) = false := by
    unfold isCrossed goodVerdict badVerdict
    split <;> simp [toString_string, List.isPrefixOf]
  rw [summaryLines_eq, List.countP_cons, List.countP_append, countP_isCrossed_rows h,
    List.countP_singleton, hhead, hverdict]
  rfl

theorem goodVerdict_ne_badVerdict (r : Report) : r.goodVerdict ≠ r.badVerdict := by
  intro h
  have hchars := congrArg String.toList h
  simp [goodVerdict, badVerdict, toString_string] at hchars

/-! ### The gate -/

theorem length_violations (r : Report) : (Verdict.ofReport r).violations.length = r.missed := by
  rw [Verdict.ofReport_violations, List.length_map, missed, List.countP_eq_length_filter]

theorem passed_iff (r : Report) : (Verdict.ofReport r).passed = true ↔ r.missed = 0 := by
  unfold Verdict.ofReport missed
  dsimp only
  split
  next h => simpa using h
  next h => simpa using h

theorem message_of_missed {r : Report} (h : r.missed ≠ 0) : (Verdict.ofReport r).message =
    s!"{r.missed} of {r.environments.length} environment(s) did not succeed" := by
  have hviolations := length_violations r
  rw [← hviolations] at h ⊢
  unfold Verdict.ofReport at h ⊢
  dsimp only at h ⊢
  split at h
  next => exact absurd rfl h
  next hne => rw [if_neg hne]

/-! ### The program -/

open CommandLine

/-- The report is asked for in no file, or in one that can be written. -/
def IsWritten (r : Report) (report : Option Path) (w : World) : Prop :=
  ∀ path ∈ report, ∃ h, w.host.write path (Text.encode r.text) = .ok h

theorem deliver_of_isWritten {r : Report} {report : Option Path} {w : World}
    (h : r.IsWritten report w) :
    (deliver r report w).failure = none ∧ (deliver r report w).code = CommandLine.exitCode r := by
  cases report with
  | none => exact ⟨rfl, rfl⟩
  | some path =>
    obtain ⟨host, hhost⟩ := h path rfl
    rw [deliver, World.attempt_ok w (.write path (Text.encode r.text)) hhost]
    exact ⟨rfl, rfl⟩

/-! ### Agreement -/

/-- What is told of a run in which not every environment succeeded: one violation for each that did
not, and their number. -/
structure Blamed (r : Report) : Prop where
  exit : r.exitCode = 1
  program : ∀ report w, r.IsWritten report w → (deliver r report w).code = 1
  violations : (Verdict.ofReport r).violations =
    (r.environments.filter fun e => !e.succeeded).map Verdict.violation
  violations_length : (Verdict.ofReport r).violations.length = r.missed
  message : (Verdict.ofReport r).message =
    s!"{r.missed} of {r.environments.length} environment(s) did not succeed"
  lastLine : r.summaryLines.getLast? = some r.badVerdict
  rows : (r.environments.map (row r.nameWidth)).countP isCrossed = r.missed
  lines : (∀ e ∈ r.environments, '\n' ∉ e.name.toList) → r.summaryLines.countP isCrossed = r.missed

/-- All who tell how a run ended tell the same. -/
structure Unanimous (r : Report) : Prop where
  gate : r.exitCode = 0 ↔ (Verdict.ofReport r).passed = true
  summary : r.exitCode = 0 ↔ r.summaryLines.getLast? = some r.goodVerdict
  program : ∀ report w, r.IsWritten report w →
    (deliver r report w).failure = none ∧ (r.exitCode = 0 ↔ (deliver r report w).code = 0)
  blamed : r.exitCode ≠ 0 → r.Blamed

section Exit

variable {r : Report} (hexit : r.exitCode = if r.missed = 0 then 0 else 1)
include hexit

theorem exitCode_eq_zero : r.exitCode = 0 ↔ r.missed = 0 := by
  rw [hexit]
  split <;> simp_all

theorem program_exitCode : (CommandLine.exitCode r : Int) = r.exitCode := by
  have hpassed := passed_iff r
  unfold CommandLine.exitCode
  by_cases h : r.missed = 0
  · rw [if_pos (hpassed.2 h), hexit, if_pos h]
    rfl
  · rw [if_neg fun hp => h (hpassed.1 hp), hexit, if_neg h]
    rfl

theorem Blamed.of_missed (h : r.missed ≠ 0) : r.Blamed := by
  have hone : r.exitCode = 1 := by rw [hexit, if_neg h]
  refine ⟨hone, fun report w hw => ?_, Verdict.ofReport_violations r, length_violations r,
    message_of_missed h, ?_, ?_, countP_isCrossed_summaryLines⟩
  · rw [(deliver_of_isWritten hw).2]
    have hcode := program_exitCode hexit
    omega
  · rw [summaryLines_getLast?, if_neg h]
  · rw [List.countP_map, missed]
    exact List.countP_congr fun e _ => by rw [Function.comp_apply, row_eq, isCrossed_rowText]

theorem Unanimous.of_exitCode : r.Unanimous where
  gate := (exitCode_eq_zero hexit).trans (passed_iff r).symm
  summary := by
    rw [exitCode_eq_zero hexit, summaryLines_getLast?, Option.some_inj]
    split
    next h => exact iff_of_true h rfl
    next h => exact iff_of_false h (goodVerdict_ne_badVerdict r).symm
  program report w hw := by
    have hcode := program_exitCode hexit
    refine ⟨(deliver_of_isWritten hw).1, ?_⟩
    rw [(deliver_of_isWritten hw).2]
    omega
  blamed hne := .of_missed hexit fun h => hne ((exitCode_eq_zero hexit).2 h)

end Exit

variable (runId : Uuid) (startedAt : Timestamp) (durationMs : Nat) (results : List EnvResult)

theorem exitCode_ofResults : (ofResults runId startedAt durationMs results).exitCode =
    if (ofResults runId startedAt durationMs results).missed = 0 then 0 else 1 := by
  have hmissed := missed_eq_zero (r := ofResults runId startedAt durationMs results)
  simp only [hmissed]
  rfl

/-- A run reports its results and nothing else. -/
theorem eq_ofResults_of_run {f : Facilities} {c : Config} {s : Selection} {o : RunOptions}
    {runId : Uuid} {w w' : World} {r : Report}
    (h : Run.run f c s o runId w = (.ended (.reported r), w')) :
    ∃ startedAt durationMs results, r = ofResults runId startedAt durationMs results := by
  have hb := Run.begin_begins c s o w
  rw [Run.run] at h
  generalize Run.begin c s o w = x at hb h
  cases hb with
  | refuse | overflow => cases h
  | go =>
    dsimp only at h
    unfold Run.conclude at h
    split at h
    · cases h
    · split at h
      · cases h
        exact ⟨_, _, _, rfl⟩
      · cases h

end Report
end Testbed
