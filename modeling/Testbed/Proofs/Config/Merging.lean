import Testbed.Config.Merge
import Testbed.Proofs.Config.Checks
import Testbed.Proofs.Dependency.Name

/-! What is read from a table and what becomes of it over the base. A command keeps its argument
vector and the packages it requires; whether it is external, and whether its packages are declared,
depends on both tables. -/
namespace Testbed.Config

/-! ### Reading a table -/

/-- How a command is written and the argument vector that it stands for. -/
inductive Run.Means : Run → List String → Prop
  | line {text : String} {argv : List String} (h : Command.splitLine text = .ok argv) :
      Means (.line text) argv
  | argv (args : List String) : Means (.argv args) args

/-- A command as it is read from an entry of a table, but for where its program comes from. -/
structure CommandEntry.Reads (entry : CommandEntry) (c : Command) : Prop where
  means : entry.run.Means c.argv
  program : ∃ word args, c.argv = word :: args ∧ ∃ letter ∈ word.toList, Text.isBlank letter = false
  requires : c.requires = entry.requires.map Dependency.normalizeName

theorem argvOf_ok_iff {table : String} {run : Run} {argv : List String} :
    argvOf table run = .ok argv ↔ run.Means argv := by
  cases run with
  | argv args =>
    rw [argvOf]
    constructor
    · rintro ⟨⟩
      exact .argv _
    · rintro ⟨⟩
      rfl
  | line text =>
    rw [argvOf]
    split
    next args h =>
      constructor
      · rintro ⟨⟩
        exact .line h
      · rintro (⟨h'⟩ | _)
        rw [h] at h'
        cases h'
        rfl
    next cause h =>
      constructor
      · nofun
      · rintro (⟨h'⟩ | _)
        rw [h] at h'
        cases h'

theorem isBlankWord_headD {argv : List String} : isBlankWord (argv.headD "") = false ↔
    ∃ word args, argv = word :: args ∧ ∃ letter ∈ word.toList, Text.isBlank letter = false := by
  cases argv with
  | nil => simp [isBlankWord]
  | cons word args => simp [isBlankWord]

theorem readCommand_ok_iff {table : String} {entry : CommandEntry} {c : Command} :
    readCommand table entry = .ok c ↔ entry.Reads c ∧ c.external = entry.external := by
  rw [readCommand, bind_ok_iff]
  constructor
  · rintro ⟨argv, hargv, h⟩
    split at h
    · cases h
    next hblank =>
      cases h
      exact ⟨⟨argvOf_ok_iff.1 hargv, isBlankWord_headD.1 (by simpa using hblank), rfl⟩, rfl⟩
  · rintro ⟨⟨hmeans, hprogram, hrequires⟩, hexternal⟩
    refine ⟨c.argv, argvOf_ok_iff.2 hmeans, ?_⟩
    rw [isBlankWord_headD.2 hprogram, if_neg Bool.false_ne_true, ← hrequires, ← hexternal]

theorem readDep_ok_iff {table raw : String} {d : Dependency} :
    readDep table raw = .ok d ↔ Dependency.parse? raw = some d := by
  unfold readDep
  split
  next h => simp [h]
  next h => simp [h]

/-- A layer as it is read from a table. -/
structure EnvTable.Reads (t : EnvTable) (l : Layer) : Prop where
  deps : List.Forall₂ (fun raw d => Dependency.parse? raw = some d) t.deps l.deps
  commands : List.Forall₂ (fun entry c => entry.Reads c ∧ c.external = entry.external)
    t.commands l.commands
  rest : l = ⟨t.description, l.deps, l.commands, t.allowlist, t.setenv, t.changeDir,
    t.continueOnError, t.timeoutSecs⟩

/-- The name of the table only matters for what is said about it. -/
theorem readLayer_ok_iff {table : String} {t : EnvTable} {l : Layer} :
    readLayer table t = .ok l ↔ t.Reads l := by
  simp only [readLayer, bind_ok_iff, mapM_ok_iff, readDep_ok_iff, readCommand_ok_iff]
  constructor
  · rintro ⟨deps, hdeps, commands, hcommands, ⟨⟩⟩
    exact ⟨hdeps, hcommands, rfl⟩
  · rintro ⟨hdeps, hcommands, hrest⟩
    exact ⟨l.deps, hdeps, l.commands, hcommands, by rw [← hrest]⟩

theorem readBase_ok_iff {t : EnvTable} {l : Layer} :
    readBase t = .ok l ↔ t.name = none ∧ t.Reads l := by
  unfold readBase
  split
  next h => simp [Option.isSome_iff_ne_none.1 h]
  next h => simp [readLayer_ok_iff, Option.not_isSome_iff_eq_none.1 h]

/-- Nothing but the sources and the commands of a table can be unreadable. -/
theorem EnvTable.exists_reads_iff {t : EnvTable} : (∃ l, t.Reads l) ↔
    (∀ raw ∈ t.deps, ∃ d, Dependency.parse? raw = some d) ∧
      ∀ entry ∈ t.commands, ∃ c, entry.Reads c := by
  constructor
  · rintro ⟨l, hdeps, hcommands, -⟩
    refine ⟨exists_forall₂_iff.1 ⟨_, hdeps⟩, ?_⟩
    exact exists_forall₂_iff.1 ⟨_, hcommands.imp fun _ _ h => h.1⟩
  · rintro ⟨hdeps, hcommands⟩
    obtain ⟨deps, hdeps⟩ := exists_forall₂_iff.2 hdeps
    have hown : ∀ entry ∈ t.commands, ∃ c : Command,
        entry.Reads c ∧ c.external = entry.external := by
      intro entry hentry
      obtain ⟨c, hmeans, hprogram, hrequires⟩ := hcommands entry hentry
      exact ⟨{ c with external := entry.external }, ⟨hmeans, hprogram, hrequires⟩, rfl⟩
    obtain ⟨commands, hcommands⟩ := exists_forall₂_iff.2 hown
    exact ⟨⟨t.description, deps, commands, t.allowlist, t.setenv, t.changeDir, t.continueOnError,
      t.timeoutSecs⟩, hdeps, hcommands, rfl⟩

/-! ### Over the base -/

theorem mem_foldl_addNew {entries own : List String} {entry : String} :
    entry ∈ own.foldl addNew entries ↔ entry ∈ entries ++ own := by
  induction own generalizing entries with
  | nil => simp
  | cons new own ih =>
    rw [List.foldl_cons, ih, addNew]
    split
    next h =>
      have hnew : new ∈ entries := by simpa using h
      simp only [List.mem_append, List.mem_cons]
      grind
    next => simp

/-- Two tables ask for a package when one of their sources declares it, whatever its spelling. -/
def Declares (sources : List String) (reference : String) : Prop :=
  ∃ raw ∈ sources, ∃ name requirement, Dependency.parse? raw = some (.package name requirement) ∧
    Dependency.normalizeName reference = name

/-- An environment that is merged from its own table over the base. -/
structure Merges (base own : EnvTable) (spec : EnvSpec) : Prop where
  name : own.name = some spec.name
  deps : List.Forall₂ (fun raw d => Dependency.parse? raw = some d) (base.deps ++ own.deps) spec.deps
  allowlist : ∀ entry, entry ∈ spec.allowlist ↔ entry ∈ base.allowlist ++ own.allowlist
  commands : List.Forall₂ (fun entry c => entry.Reads c ∧
      (c.external = true ↔ entry.external = true ∨ isAllowlisted spec.allowlist c.program = true))
    (base.commands ++ own.commands) spec.commands

theorem mem_declaredNames {deps : List Dependency} {reference : String} :
    reference ∈ declaredNames deps ↔ ∃ d ∈ deps, ∃ name requirement, d = .package name requirement ∧
      Dependency.normalizeName name = reference := by
  simp only [declaredNames, List.mem_map, List.mem_filterMap]
  constructor
  · rintro ⟨name, ⟨d, hd, hname⟩, rfl⟩
    cases d with
    | manifest path => cases hname
    | package name' requirement =>
      cases hname
      exact ⟨_, hd, name, requirement, rfl, rfl⟩
  · rintro ⟨_, hd, name, requirement, rfl, rfl⟩
    exact ⟨name, ⟨_, hd, rfl⟩, rfl⟩

theorem checkRequires_ok_iff {spec : EnvSpec} {c : Command} :
    checkRequires spec c = .ok () ↔ ∀ reference ∈ c.requires, reference ∈ declaredNames spec.deps := by
  unfold checkRequires
  split
  next reference h =>
    refine iff_of_false nofun fun hall => ?_
    have := List.find?_some h
    simp [hall reference (List.mem_of_find?_eq_some h)] at this
  next h => simpa using h

theorem finalize_ok_iff {spec spec' : EnvSpec} : finalize spec = .ok spec' ↔
    (∀ c ∈ spec.commands, ∀ reference ∈ c.requires, reference ∈ declaredNames spec.deps) ∧
      spec' = { spec with commands := spec.commands.map (markExternal spec.allowlist) } := by
  rw [finalize, bind_ok_iff]
  constructor
  · rintro ⟨⟨⟩, h, ⟨⟩⟩
    exact ⟨fun c hc => checkRequires_ok_iff.1 (forM_ok_iff.1 h c hc), rfl⟩
  · rintro ⟨h, rfl⟩
    exact ⟨(), forM_ok_iff.2 fun c hc => checkRequires_ok_iff.2 (h c hc), rfl⟩

theorem markExternal_external (allowlist : List String) (c : Command) :
    (markExternal allowlist c).external = true ↔
      c.external = true ∨ isAllowlisted allowlist c.program = true := by
  unfold markExternal
  split <;> simp_all

theorem markExternal_argv (allowlist : List String) (c : Command) :
    (markExternal allowlist c).argv = c.argv := by
  unfold markExternal
  split <;> rfl

theorem markExternal_requires (allowlist : List String) (c : Command) :
    (markExternal allowlist c).requires = c.requires := by
  unfold markExternal
  split <;> rfl

/-- The environment that is merged from two layers, when all that its commands require is declared. -/
def merged (base own : Layer) (name : String) : EnvSpec :=
  let spec := overlay base own name
  { spec with commands := spec.commands.map (markExternal spec.allowlist) }

theorem mergeEnv_ok_iff {base : Layer} {name : String} {t : EnvTable} {spec : EnvSpec} :
    mergeEnv base name t = .ok spec ↔ ∃ own, t.Reads own ∧
      (∀ c ∈ base.commands ++ own.commands, ∀ reference ∈ c.requires,
        reference ∈ declaredNames (base.deps ++ own.deps)) ∧ spec = merged base own name := by
  simp only [mergeEnv, bind_ok_iff, readLayer_ok_iff, finalize_ok_iff]
  rfl

section

variable {base own : EnvTable} {lb lo : Layer} (hb : base.Reads lb) (ho : own.Reads lo)
include hb ho

theorem merges_merged {name : String} (hn : own.name = some name) :
    Merges base own (merged lb lo name) where
  name := hn
  deps := List.rel_append hb.deps ho.deps
  allowlist entry := by
    have hlb : lb.allowlist = base.allowlist := by rw [hb.rest]
    have hlo : lo.allowlist = own.allowlist := by rw [ho.rest]
    rw [← hlb, ← hlo]
    exact mem_foldl_addNew
  commands := by
    rw [merged, List.forall₂_map_right_iff]
    refine (List.rel_append hb.commands ho.commands).imp fun entry c h => ?_
    obtain ⟨⟨hmeans, hprogram, hrequires⟩, hexternal⟩ := h
    refine ⟨⟨?_, ?_, ?_⟩, ?_⟩
    · rwa [markExternal_argv]
    · rwa [markExternal_argv]
    · rwa [markExternal_requires]
    · rw [markExternal_external, hexternal, Command.program, Command.program, markExternal_argv]

/-- What the commands of both tables require is found just when a source of either declares it. -/
theorem requires_iff :
    (∀ c ∈ lb.commands ++ lo.commands, ∀ reference ∈ c.requires,
      reference ∈ declaredNames (lb.deps ++ lo.deps)) ↔
    ∀ entry ∈ base.commands ++ own.commands, ∀ reference ∈ entry.requires,
      Declares (base.deps ++ own.deps) reference := by
  have hdeclares (reference : String) : Declares (base.deps ++ own.deps) reference ↔
      Dependency.normalizeName reference ∈ declaredNames (lb.deps ++ lo.deps) := by
    rw [mem_declaredNames]
    refine exists_mem_iff_of_forall₂ (List.rel_append hb.deps ho.deps) fun raw d hd => ?_
    rw [hd]
    refine exists_congr fun name => exists_congr fun requirement => ?_
    rw [Option.some.injEq]
    refine and_congr_right fun hpackage => ?_
    have hname : Dependency.normalizeName name = name :=
      Dependency.normalizeName_of_parse? (hpackage ▸ hd)
    rw [hname, eq_comm]
  symm
  refine forall_mem_iff_of_forall₂ (List.rel_append hb.commands ho.commands) fun entry c h => ?_
  rw [h.1.requires, List.forall_mem_map]
  simp only [hdeclares]

end

/-! ### Allowed programs -/

/-- An entry of the allow-list is for every program, for one, or for all that share its last
component and are given without a separator. -/
def Admits (entry program : String) : Prop :=
  entry = "*" ∨ entry = program ∨
    '/' ∉ program.toList ∧ (Path.mk entry).fileName? = some program

/-- A command that declares a program may use an external one. -/
def Allowed (base own : EnvTable) (entry : CommandEntry) (program : String) : Prop :=
  entry.external = true ∨ ∃ allowed ∈ base.allowlist ++ own.allowlist, Admits allowed program

theorem admits_iff {program entry : String} :
    admits program entry = true ↔ Admits entry program := by
  simp [admits, Admits, allowAll, or_assoc]

theorem Merges.external_iff {base own : EnvTable} {spec : EnvSpec} {entry : CommandEntry}
    {command : Command} (h : Merges base own spec)
    (hc : command.external = true ↔
      entry.external = true ∨ isAllowlisted spec.allowlist command.program = true) :
    command.external = true ↔ Allowed base own entry command.program := by
  rw [hc, isAllowlisted, List.any_eq_true]
  simp only [h.allowlist, admits_iff, Allowed]

/-! ### Two tables -/

/-- The environment that is merged from a base and a table of that name. -/
def mergeTables (base own : EnvTable) (name : String) : Except Error EnvSpec := do
  let layer ← readBase base
  mergeEnv layer name own

theorem mergeTables_ok_iff {base own : EnvTable} {name : String} {spec : EnvSpec} :
    mergeTables base own name = .ok spec ↔ base.name = none ∧ ∃ lb lo, base.Reads lb ∧
      own.Reads lo ∧ (∀ c ∈ lb.commands ++ lo.commands, ∀ reference ∈ c.requires,
        reference ∈ declaredNames (lb.deps ++ lo.deps)) ∧ spec = merged lb lo name := by
  rw [mergeTables, bind_ok_iff]
  constructor
  · rintro ⟨lb, hlb, hmerged⟩
    obtain ⟨hname, hb⟩ := readBase_ok_iff.1 hlb
    obtain ⟨lo, ho, hrequires, rfl⟩ := mergeEnv_ok_iff.1 hmerged
    exact ⟨hname, lb, lo, hb, ho, hrequires, rfl⟩
  · rintro ⟨hname, lb, lo, hb, ho, hrequires, rfl⟩
    exact ⟨lb, readBase_ok_iff.2 ⟨hname, hb⟩, mergeEnv_ok_iff.2 ⟨lo, ho, hrequires, rfl⟩⟩

/-- Merging goes by the name that is given to it and does not read the table's own. -/
theorem merges_of_mergeTables {base own : EnvTable} {name : String} {spec : EnvSpec}
    (h : mergeTables base own name = .ok spec) : Merges base { own with name := some name } spec := by
  obtain ⟨-, lb, lo, hb, ho, -, rfl⟩ := mergeTables_ok_iff.1 h
  have hnamed : EnvTable.Reads { own with name := some name } lo := ⟨ho.deps, ho.commands, ho.rest⟩
  exact merges_merged hb hnamed rfl

end Testbed.Config
