import Testbed.Proofs.Config.Merging
import Testbed.Proofs.Vars

/-! Moving settings of an environment into the base, where other environments find them too. The
environment itself stays what it was: sources, commands and allow-list entries keep their order when
a front part of each is moved, single values and variables are found in either table, and which
commands are external is decided by both allow-lists together, wherever a command stands. Only an
entry that the allow-list repeats may be kept or dropped on the way. -/
namespace Testbed.Config

/-! ### Allow-lists -/

theorem eraseDups_addNew (entries own : List String) (entry : String) :
    (addNew entries entry ++ own).eraseDups = (entries ++ entry :: own).eraseDups := by
  rw [addNew]
  split
  next h =>
    rw [List.eraseDups_append, List.eraseDups_append, List.cons_removeAll, h]
    rfl
  next => rw [List.append_assoc, List.singleton_append]

/-- Merged allow-lists differ from the two, one behind the other, in repeated entries only. -/
theorem eraseDups_foldl_addNew (own entries : List String) :
    (own.foldl addNew entries).eraseDups = (entries ++ own).eraseDups := by
  induction own generalizing entries with
  | nil => rw [List.append_nil, List.foldl_nil]
  | cons entry own ih => rw [List.foldl_cons, ih, eraseDups_addNew]

theorem markExternal_congr {entries entries' : List String}
    (h : ∀ entry, entry ∈ entries ↔ entry ∈ entries') :
    markExternal entries = markExternal entries' := by
  funext c
  have hlisted : isAllowlisted entries c.program = isAllowlisted entries' c.program := by
    rw [Bool.eq_iff_iff, isAllowlisted, isAllowlisted, List.any_eq_true, List.any_eq_true]
    simp only [h]
  rw [markExternal, markExternal, hlisted]

/-! ### Splits -/

/-- A table that is split into a base and a rest: lists are cut in two, and every single value and
every variable stands in either part or in both, where the rest decides. The name stays where it
is. -/
structure EnvTable.Splits (whole base own : EnvTable) : Prop where
  unnamed : base.name = none
  name : own.name = whole.name
  description : whole.description = (own.description <|> base.description)
  deps : whole.deps = base.deps ++ own.deps
  commands : whole.commands = base.commands ++ own.commands
  allowlist : whole.allowlist = base.allowlist ++ own.allowlist
  setenv : ∀ name value, Vars.Assigns whole.setenv name value ↔
    Vars.Assigns own.setenv name value ∨
      name ∉ own.setenv.map Prod.fst ∧ Vars.Assigns base.setenv name value
  changeDir : whole.changeDir = (own.changeDir <|> base.changeDir)
  continueOnError : whole.continueOnError = (own.continueOnError <|> base.continueOnError)
  timeoutSecs : whole.timeoutSecs = (own.timeoutSecs <|> base.timeoutSecs)

/-- The same environment up to repeated entries of the allow-list. -/
structure Alike (spec spec' : EnvSpec) : Prop where
  rest : spec' = { spec with allowlist := spec'.allowlist }
  allowlist : spec'.allowlist.eraseDups = spec.allowlist.eraseDups

variable {whole base own : EnvTable} {lb lo : Layer}

/-- The layer of a table when its sources and commands are read as these. -/
def EnvTable.layer (t : EnvTable) (deps : List Dependency) (commands : List Command) : Layer :=
  ⟨t.description, deps, commands, t.allowlist, t.setenv, t.changeDir, t.continueOnError,
    t.timeoutSecs⟩

/-- The sources and commands of two layers with all else of a table. -/
def joined (whole : EnvTable) (lb lo : Layer) : Layer :=
  whole.layer (lb.deps ++ lo.deps) (lb.commands ++ lo.commands)

theorem EnvTable.Splits.reads_iff (h : whole.Splits base own) {l : Layer} :
    whole.Reads l ↔ ∃ lb lo, base.Reads lb ∧ own.Reads lo ∧ l = joined whole lb lo := by
  constructor
  · rintro ⟨hdeps, hcommands, hrest⟩
    rw [h.deps, forall₂_append_left_iff] at hdeps
    rw [h.commands, forall₂_append_left_iff] at hcommands
    obtain ⟨bdeps, odeps, hsplit, hbdeps, hodeps⟩ := hdeps
    obtain ⟨bcommands, ocommands, hsplit', hbcommands, hocommands⟩ := hcommands
    refine ⟨base.layer bdeps bcommands, own.layer odeps ocommands, ⟨hbdeps, hbcommands, rfl⟩,
      ⟨hodeps, hocommands, rfl⟩, ?_⟩
    rw [hrest, hsplit, hsplit']
    rfl
  · rintro ⟨lb, lo, hb, ho, rfl⟩
    refine ⟨?_, ?_, rfl⟩
    · rw [h.deps]
      exact List.rel_append hb.deps ho.deps
    · rw [h.commands]
      exact List.rel_append hb.commands ho.commands

theorem empty_reads_iff {l : Layer} : EnvTable.empty.Reads l ↔ l = EnvTable.empty.layer [] [] := by
  constructor
  · rintro ⟨hdeps, hcommands, hrest⟩
    rw [hrest, List.forall₂_nil_left_iff.1 hdeps, List.forall₂_nil_left_iff.1 hcommands]
    rfl
  · rintro rfl
    exact ⟨.nil, .nil, rfl⟩

theorem EnvTable.Splits.overlay_setenv (h : whole.Splits base own) :
    Vars.overlay (Vars.overlay [] base.setenv) own.setenv = Vars.overlay [] whole.setenv := by
  -- Both ascend, so it is enough that every name has the same value.
  have hnil : Vars.Ascending [] := List.Pairwise.nil
  apply ((hnil.overlay _).overlay _).ext (hnil.overlay _)
  intro name
  ext value
  have hnone : Vars.get? [] name ≠ some value := nofun
  simp only [Vars.get?_overlay_eq_some_iff, h.setenv, hnone, and_false, or_false]

/-! ### Merging -/

/-- Both ways the same is merged, but for the allow-list. -/
theorem EnvTable.Splits.merged_eq (h : whole.Splits base own) (hb : base.Reads lb)
    (ho : own.Reads lo) (name : String) :
    merged lb lo name = { merged (EnvTable.empty.layer [] []) (joined whole lb lo) name with
      allowlist := own.allowlist.foldl addNew base.allowlist } := by
  -- A mark asks only whether there is an entry, not where it stands or how often.
  have hmarks : markExternal (own.allowlist.foldl addNew base.allowlist) =
      markExternal (whole.allowlist.foldl addNew []) := by
    apply markExternal_congr
    intro entry
    rw [mem_foldl_addNew, mem_foldl_addNew, h.allowlist, List.nil_append]
  rw [hb.rest, ho.rest]
  simp only [merged, overlay, joined, EnvTable.layer, EnvTable.empty, hmarks, h.description,
    h.changeDir, h.continueOnError, h.timeoutSecs, h.overlay_setenv, Option.orElse_eq_orElse,
    Option.orElse_eq_or, Option.or_none, List.nil_append]
  rfl

/-- What is merged from the parts is what is merged from the whole over an empty base, under the
allow-list of the parts. -/
theorem EnvTable.Splits.mergeTables_ok_iff (h : whole.Splits base own) {name : String}
    {spec' : EnvSpec} : mergeTables base own name = .ok spec' ↔
      ∃ spec, mergeTables .empty whole name = .ok spec ∧
        spec' = { spec with allowlist := own.allowlist.foldl addNew base.allowlist } := by
  simp only [Config.mergeTables_ok_iff, empty_reads_iff, h.reads_iff]
  constructor
  · rintro ⟨-, lb, lo, hb, ho, hrequires, rfl⟩
    exact ⟨_, ⟨rfl, _, _, rfl, ⟨lb, lo, hb, ho, rfl⟩, hrequires, rfl⟩, h.merged_eq hb ho name⟩
  · rintro ⟨_, ⟨-, _, _, rfl, ⟨lb, lo, hb, ho, rfl⟩, hrequires, rfl⟩, rfl⟩
    exact ⟨h.unnamed, lb, lo, hb, ho, hrequires, (h.merged_eq hb ho name).symm⟩

theorem EnvTable.Splits.alike (h : whole.Splits base own) {name : String} {spec spec' : EnvSpec}
    (hspec : mergeTables .empty whole name = .ok spec)
    (hspec' : mergeTables base own name = .ok spec') : Alike spec spec' := by
  obtain ⟨_, hmerged, rfl⟩ := h.mergeTables_ok_iff.1 hspec'
  obtain rfl := Except.ok.inj (hmerged.symm.trans hspec)
  obtain ⟨-, lb, lo, hb, ho, -, rfl⟩ := Config.mergeTables_ok_iff.1 hspec
  have hallowlist : (merged lb lo name).allowlist = whole.allowlist.foldl addNew [] := by
    rw [empty_reads_iff.1 hb, ho.rest]
    rfl
  refine ⟨rfl, ?_⟩
  rw [hallowlist, eraseDups_foldl_addNew, eraseDups_foldl_addNew, h.allowlist]
  rfl

/-- Whatever part of an environment is moved into an empty base, the environment is merged as before
or fails as before. Where a command may use an external program does not depend on the table that it
or an entry of the allow-list stands in. -/
theorem hoisting_keeps_environment (h : whole.Splits base own) (name : String) :
    ((∃ spec, mergeTables base own name = .ok spec) ↔
      ∃ spec, mergeTables .empty whole name = .ok spec) ∧
    ∀ spec spec', mergeTables .empty whole name = .ok spec →
      mergeTables base own name = .ok spec' →
        Alike spec spec' ∧ ∀ (i : Nat) (command : Command), spec'.commands[i]? = some command →
          ∃ entry, whole.commands[i]? = some entry ∧ entry.Reads command ∧
            (command.external = true ↔ Allowed base own entry command.program) := by
  refine ⟨?_, fun spec spec' hspec hspec' => ⟨h.alike hspec hspec', fun i command hcommand => ?_⟩⟩
  · simp only [h.mergeTables_ok_iff]
    constructor
    · rintro ⟨_, spec, hspec, -⟩
      exact ⟨spec, hspec⟩
    · rintro ⟨spec, hspec⟩
      exact ⟨_, spec, hspec, rfl⟩
  · have hmerges := merges_of_mergeTables hspec'
    obtain ⟨entry, hentry, hreads, hexternal⟩ := getElem?_of_forall₂ hmerges.commands hcommand
    refine ⟨entry, ?_, hreads, hmerges.external_iff hexternal⟩
    rw [h.commands, hentry]

/-- An environment whose allow-list admits the first of its commands, and only that. -/
def formatting : EnvTable :=
  ⟨some "fmt", some "format", ["Black==24.1", "-r dev.txt"],
    [⟨.line "git diff", false, []⟩, ⟨.argv ["black", "."], false, ["BLACK"]⟩],
    ["tox", "tox", "/usr/bin/git"], [("A", "1"), ("B", "3")], none, none, some 5⟩

/-- The commands with all of the allow-list but what admits one of them. -/
def formattingBase : EnvTable :=
  ⟨none, some "check", ["Black==24.1"], formatting.commands, ["tox", "tox"],
    [("A", "1"), ("B", "2")], none, none, some 5⟩

def formattingRest : EnvTable :=
  ⟨some "fmt", some "format", ["-r dev.txt"], [], ["/usr/bin/git"], [("B", "3")], none, none, none⟩

theorem splits_formatting : formatting.Splits formattingBase formattingRest where
  unnamed := rfl
  name := rfl
  description := rfl
  deps := rfl
  commands := rfl
  allowlist := rfl
  setenv name value := by
    have hwhole : Vars.Ascending formatting.setenv := by decide
    have hbase : Vars.Ascending formattingBase.setenv := by decide
    have hrest : Vars.Ascending formattingRest.setenv := by decide
    rw [hwhole.assigns_iff, hbase.assigns_iff, hrest.assigns_iff]
    simp only [formatting, formattingBase, formattingRest, List.mem_cons, Prod.mk.injEq,
      List.not_mem_nil, or_false, List.map_cons, List.map_nil]
    grind
  changeDir := rfl
  continueOnError := rfl
  timeoutSecs := rfl

def formattingSpec (allowlist : List String) : EnvSpec :=
  ⟨"fmt", some "format", [.package "black" "Black==24.1", .manifest ⟨"dev.txt"⟩],
    [⟨["git", "diff"], true, []⟩, ⟨["black", "."], false, ["black"]⟩], allowlist,
    [("A", "1"), ("B", "3")], none, false, 5⟩

/-- A repeated entry is kept in the base, where it is dropped otherwise. -/
theorem hoisting_keeps_formatting : formatting.Splits formattingBase formattingRest ∧
    mergeTables .empty formatting "fmt" = .ok (formattingSpec ["tox", "/usr/bin/git"]) ∧
    mergeTables formattingBase formattingRest "fmt" =
      .ok (formattingSpec ["tox", "tox", "/usr/bin/git"]) ∧
    Alike (formattingSpec ["tox", "/usr/bin/git"])
      (formattingSpec ["tox", "tox", "/usr/bin/git"]) ∧
    Allowed formattingBase formattingRest ⟨.line "git diff", false, []⟩ "git" ∧
    ¬ Allowed formattingBase formattingRest ⟨.argv ["black", "."], false, ["BLACK"]⟩ "black" := by
  have hspec : mergeTables .empty formatting "fmt" =
      .ok (formattingSpec ["tox", "/usr/bin/git"]) := rfl
  have hspec' : mergeTables formattingBase formattingRest "fmt" =
      .ok (formattingSpec ["tox", "tox", "/usr/bin/git"]) := rfl
  obtain ⟨halike, hcommands⟩ :=
    (hoisting_keeps_environment splits_formatting "fmt").2 _ _ hspec hspec'
  refine ⟨splits_formatting, hspec, hspec', halike, ?_, ?_⟩
  · obtain ⟨entry, hentry, -, hexternal⟩ := hcommands 0 _ rfl
    obtain rfl := Option.some.inj hentry
    exact hexternal.1 rfl
  · obtain ⟨entry, hentry, -, hexternal⟩ := hcommands 1 _ rfl
    obtain rfl := Option.some.inj hentry
    exact fun hallowed => Bool.false_ne_true (hexternal.2 hallowed)

end Testbed.Config
