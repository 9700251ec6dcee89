import Testbed.Proofs.Config.Names

/-! Which configurations are accepted. The checks are spread over the settings, the base, every
environment and what comes of merging, and the first that fails ends the reading; here they stand
side by side, as one condition on the tables of the file. A file that meets it is accepted, and
every environment table gives one environment, in their order. -/
namespace Testbed.Config

/-! ### The condition -/

/-- A letter or digit, then those, dots, dashes and underscores. -/
def IsIdentifier (name : String) : Prop :=
  ∃ first rest, name.toList = first :: rest ∧ Dependency.isAlnum first = true ∧
    ∀ c ∈ rest, Dependency.isAlnum c = true ∨ c = '.' ∨ c = '_' ∨ c = '-'

/-- What is given in the settings is not empty. -/
structure SettingsTable.Sound (t : SettingsTable) : Prop where
  parallel : t.parallel ≠ some 0
  installCommand : t.installCommand ≠ some []
  okCodes : t.okCodes ≠ some []

/-- A file of which a configuration can be made. -/
structure Acceptable (file : File) : Prop where
  settings : file.settings.Sound
  base : file.base.name = none
  deps : ∀ t ∈ file.base :: file.envs, ∀ raw ∈ t.deps, ∃ d, Dependency.parse? raw = some d
  commands : ∀ t ∈ file.base :: file.envs, ∀ entry ∈ t.commands, ∃ c, entry.Reads c
  names : ∀ t ∈ file.envs, ∃ name, t.name = some name ∧ IsIdentifier name ∧ name ≠ "ALL"
  distinct : (file.envs.map EnvTable.name).Nodup
  requires : ∀ t ∈ file.envs, ∀ entry ∈ file.base.commands ++ t.commands,
    ∀ reference ∈ entry.requires, Declares (file.base.deps ++ t.deps) reference
  envlist : ∀ names, file.settings.envlist = some names → ∀ name ∈ names,
    ∃ t ∈ file.envs, t.name = some name

/-! ### The checks -/

theorem isIdentifier_iff {name : String} : isIdentifier name = true ↔ IsIdentifier name := by
  have hchar (c : Char) : Dependency.isNameChar c = true ↔
      Dependency.isAlnum c = true ∨ c = '.' ∨ c = '_' ∨ c = '-' := by
    simp only [Dependency.isNameChar, Dependency.isSeparator, Bool.or_eq_true, decide_eq_true_eq]
    grind
  unfold isIdentifier IsIdentifier
  split
  next first rest h => simp [h, hchar]
  next h => simp [h]

theorem resolveSettings_ok {root : Path} {t : SettingsTable} {s : Settings}
    (h : resolveSettings root t = .ok s) : t.Sound ∧ s.envlist = t.envlist := by
  unfold resolveSettings at h
  dsimp only at h
  split at h
  · cases h
  next hparallel =>
    split at h
    · cases h
    next hcommand =>
      split at h
      · cases h
      next hcodes =>
        cases h
        refine ⟨⟨?_, ?_, ?_⟩, rfl⟩
        · rintro hnone
          simp [hnone] at hparallel
        · rintro hnone
          simp [hnone] at hcommand
        · rintro hnone
          simp [hnone] at hcodes

theorem exists_resolveSettings {t : SettingsTable} (h : t.Sound) (root : Path) :
    ∃ s, resolveSettings root t = .ok s := by
  obtain ⟨hparallel, hcommand, hcodes⟩ := h
  have hparallel' : t.parallel.getD 1 ≠ 0 := by
    cases hp : t.parallel <;> simp_all
  have hcommand' : (t.installCommand.getD InstallCommand.default).isEmpty = false := by
    cases hc : t.installCommand <;> simp_all [InstallCommand.default]
  have hcodes' : (t.okCodes.getD [0]).isEmpty = false := by
    cases hc : t.okCodes <;> simp_all
  unfold resolveSettings
  dsimp only
  rw [if_neg hparallel', hcommand', hcodes']
  exact ⟨_, rfl⟩

theorem checkEnvlist_ok_iff {declared : List String} {envlist : Option (List String)} :
    checkEnvlist declared envlist = .ok () ↔
      ∀ names, envlist = some names → ∀ name ∈ names, name ∈ declared := by
  unfold checkEnvlist
  split
  next name h =>
    refine iff_of_false nofun fun hall => ?_
    have hnot := List.find?_some h
    cases henv : envlist with
    | none => simp [henv] at h
    | some names =>
      have hmem : name ∈ names := by simpa [henv] using List.mem_of_find?_eq_some h
      simp [hall names henv name hmem] at hnot
  next h =>
    refine iff_of_true rfl ?_
    rintro names rfl name hname
    simpa using List.find?_eq_none.1 h name hname

theorem ofFile_ok_iff {root : Path} {file : File} {c : Config} : ofFile root file = .ok c ↔
    ∃ settings base environments, resolveSettings root file.settings = .ok settings ∧
      readBase file.base = .ok base ∧ mergeEnvs base 0 [] file.envs = .ok environments ∧
      checkEnvlist (environments.map EnvSpec.name) settings.envlist = .ok () ∧
      c = ⟨root, settings, environments⟩ := by
  rw [ofFile, bind_ok_iff]
  constructor
  · rintro ⟨settings, hsettings, h⟩
    obtain ⟨base, hbase, h⟩ := bind_ok_iff.1 h
    obtain ⟨environments, henvs, h⟩ := bind_ok_iff.1 h
    obtain ⟨⟨⟩, hlist, h⟩ := bind_ok_iff.1 h
    cases h
    exact ⟨settings, base, environments, hsettings, hbase, henvs, hlist, rfl⟩
  · rintro ⟨settings, base, environments, hsettings, hbase, henvs, hlist, rfl⟩
    exact ⟨settings, hsettings, bind_ok_iff.2 ⟨base, hbase, bind_ok_iff.2 ⟨environments, henvs,
      bind_ok_iff.2 ⟨(), hlist, rfl⟩⟩⟩⟩

/-- Whatever the settings list is declared. -/
theorem ofFile_envlist {root : Path} {file : File} {c : Config} (h : ofFile root file = .ok c)
    {names : List String} (hlist : c.settings.envlist = some names) :
    ∀ name ∈ names, name ∈ c.names := by
  obtain ⟨settings, base, environments, -, -, -, hcheck, rfl⟩ := ofFile_ok_iff.1 h
  exact checkEnvlist_ok_iff.1 hcheck names hlist

/-! ### The environments -/

section

variable {file : File} {base : Layer} (hb : file.base.Reads base)
include hb

/-- What a table needs to become an environment, but for a name that no other has. -/
theorem exists_named_iff {t : EnvTable} : (∃ spec, Named base t spec) ↔
    (∃ name, t.name = some name ∧ IsIdentifier name ∧ name ≠ "ALL") ∧
      (∃ own, t.Reads own) ∧
      ∀ entry ∈ file.base.commands ++ t.commands, ∀ reference ∈ entry.requires,
        Declares (file.base.deps ++ t.deps) reference := by
  constructor
  · rintro ⟨spec, hname, hfree, hid, hmerged⟩
    obtain ⟨own, hown, hrequires, -⟩ := mergeEnv_ok_iff.1 hmerged
    exact ⟨⟨_, hname, isIdentifier_iff.1 hid, hfree⟩, ⟨own, hown⟩,
      (requires_iff hb hown).1 hrequires⟩
  · rintro ⟨⟨name, hname, hid, hfree⟩, ⟨own, hown⟩, hrequires⟩
    exact ⟨merged base own name, hname, hfree, isIdentifier_iff.2 hid,
      mergeEnv_ok_iff.2 ⟨own, hown, (requires_iff hb hown).2 hrequires, rfl⟩⟩

theorem Named.merges {t : EnvTable} {spec : EnvSpec} (h : Named base t spec) :
    Merges file.base t spec := by
  obtain ⟨own, hown, -, heq⟩ := mergeEnv_ok_iff.1 h.merged
  have := merges_merged hb hown h.name
  rwa [← heq] at this

/-- The assignments of the base come first, then those of the environment. -/
theorem Named.setenv {t : EnvTable} {spec : EnvSpec} (h : Named base t spec) :
    spec.setenv = Vars.overlay (Vars.overlay [] file.base.setenv) t.setenv := by
  obtain ⟨own, hown, -, heq⟩ := mergeEnv_ok_iff.1 h.merged
  have hbase : base.setenv = file.base.setenv := by rw [hb.rest]
  have hself : own.setenv = t.setenv := by rw [hown.rest]
  rw [heq, ← hbase, ← hself]
  rfl

end

theorem map_name_of_named {base : Layer} {ts : List EnvTable} {specs : List EnvSpec}
    (h : List.Forall₂ (Named base) ts specs) :
    ts.map EnvTable.name = (specs.map EnvSpec.name).map some := by
  induction h with
  | nil => rfl
  | cons h _ ih => simp [h.name, ih]

/-! ### Acceptance -/

theorem acceptable_of_ofFile {root : Path} {file : File} {c : Config}
    (h : ofFile root file = .ok c) : Acceptable file := by
  obtain ⟨settings, base, environments, hsettings, hbase, henvs, hlist, rfl⟩ := ofFile_ok_iff.1 h
  obtain ⟨hsound, henvlist⟩ := resolveSettings_ok hsettings
  obtain ⟨hnone, hreads⟩ := readBase_ok_iff.1 hbase
  obtain ⟨hall, hnodup, -⟩ := mergeEnvs_ok_iff.1 henvs
  have hown : ∀ t ∈ file.envs, ∃ spec, Named base t spec := exists_forall₂_iff.1 ⟨_, hall⟩
  have hreadable : ∀ t ∈ file.base :: file.envs, ∃ l, t.Reads l := by
    rw [List.forall_mem_cons]
    exact ⟨⟨base, hreads⟩, fun t ht => ((exists_named_iff hreads).1 (hown t ht)).2.1⟩
  have hnames := map_name_of_named hall
  refine ⟨hsound, hnone, fun t ht => (EnvTable.exists_reads_iff.1 (hreadable t ht)).1,
    fun t ht => (EnvTable.exists_reads_iff.1 (hreadable t ht)).2,
    fun t ht => ((exists_named_iff hreads).1 (hown t ht)).1, ?_,
    fun t ht => ((exists_named_iff hreads).1 (hown t ht)).2.2, ?_⟩
  · rw [hnames]
    exact hnodup.map fun _ _ => Option.some.inj
  · intro names hlisted name hname
    have hmem := checkEnvlist_ok_iff.1 hlist names (by rw [henvlist, hlisted]) name hname
    have : some name ∈ file.envs.map EnvTable.name := by
      rw [hnames]
      exact List.mem_map_of_mem hmem
    simpa using this

theorem Acceptable.exists_ofFile {file : File} (h : Acceptable file) (root : Path) :
    ∃ c, ofFile root file = .ok c := by
  obtain ⟨settings, hsettings⟩ := exists_resolveSettings h.settings root
  have hreadable : ∀ t ∈ file.base :: file.envs, ∃ l, t.Reads l := fun t ht =>
    EnvTable.exists_reads_iff.2 ⟨h.deps t ht, h.commands t ht⟩
  obtain ⟨base, hreads⟩ := hreadable file.base List.mem_cons_self
  have hnamed : ∀ t ∈ file.envs, ∃ spec, Named base t spec := fun t ht =>
    (exists_named_iff hreads).2
      ⟨h.names t ht, hreadable t (List.mem_cons_of_mem _ ht), h.requires t ht⟩
  obtain ⟨environments, hall⟩ := exists_forall₂_iff.2 hnamed
  have hnames := map_name_of_named hall
  have hnodup : (environments.map EnvSpec.name).Nodup := by
    have := h.distinct
    rw [hnames] at this
    exact this.of_map
  refine ⟨⟨root, settings, environments⟩, ofFile_ok_iff.2 ⟨settings, base, environments, hsettings,
    readBase_ok_iff.2 ⟨h.base, hreads⟩, mergeEnvs_ok_iff.2 ⟨hall, hnodup, by simp⟩, ?_, rfl⟩⟩
  rw [checkEnvlist_ok_iff, (resolveSettings_ok hsettings).2]
  intro names hlisted name hname
  obtain ⟨t, ht, heq⟩ := h.envlist names hlisted name hname
  have : some name ∈ file.envs.map EnvTable.name := heq ▸ List.mem_map_of_mem ht
  rw [hnames] at this
  simpa using this

/-- Every environment table gives one environment, in their order, of a good name and merged over
what is read from the base. -/
theorem ofFile_named {root : Path} {file : File} {c : Config} (h : ofFile root file = .ok c) :
    ∃ base, file.base.Reads base ∧ List.Forall₂ (Named base) file.envs c.environments := by
  obtain ⟨base, hreads, hmerge⟩ := ofFile_mergeEnvs h
  exact ⟨base, hreads, (mergeEnvs_ok_iff.1 hmerge).1⟩

/-- Every environment table gives one environment, merged over the base, in their order. -/
theorem ofFile_merges {root : Path} {file : File} {c : Config} (h : ofFile root file = .ok c) :
    List.Forall₂ (Merges file.base) file.envs c.environments := by
  obtain ⟨base, hreads, hall⟩ := ofFile_named h
  exact hall.imp fun t spec hnamed => hnamed.merges hreads

/-- A file is accepted just when it is acceptable, and then every environment table gives one
environment, merged over the base, in their order. A text is accepted when it can be decoded to such
a file. -/
theorem accepts_iff (root : Path) :
    (∀ file, (∃ c, ofFile root file = .ok c) ↔ Acceptable file) ∧
      (∀ file c, ofFile root file = .ok c →
        List.Forall₂ (Merges file.base) file.envs c.environments) ∧
      ∀ text, (∃ c, parse root text = .ok c) ↔
        ∃ file, (Toml.parse? text).bind File.ofToml? = some file ∧ Acceptable file := by
  have hiff (file : File) : (∃ c, ofFile root file = .ok c) ↔ Acceptable file :=
    ⟨fun ⟨_, h⟩ => acceptable_of_ofFile h, fun h => h.exists_ofFile root⟩
  refine ⟨hiff, fun file c h => ofFile_merges h, fun text => ?_⟩
  unfold parse
  split
  next file h => simp [h, hiff]
  next h => simp [h]

/-- The command of the base requires a package that only the environment declares, in a spelling of
its own. -/
def respelt : File where
  settings := .empty
  base := ⟨none, none, [], [⟨.line "x", false, ["a_B"]⟩], [], [], none, none, none⟩
  envs := [⟨some "e", none, ["A.-b"], [], [], [], none, none, none⟩]

theorem accepts_iff_respelt : Acceptable respelt ∧ ∃ c, ofFile ⟨"/"⟩ respelt = .ok c ∧
    List.Forall₂ (Merges respelt.base) respelt.envs c.environments := by
  obtain ⟨hiff, henvs, -⟩ := accepts_iff ⟨"/"⟩
  have hok : (ofFile ⟨"/"⟩ respelt).isOk = true := by decide +kernel
  obtain ⟨c, hc⟩ : ∃ c, ofFile ⟨"/"⟩ respelt = .ok c := by
    cases h : ofFile ⟨"/"⟩ respelt with
    | ok c => exact ⟨c, rfl⟩
    | error e => simp [h, Except.isOk, Except.toBool] at hok
  exact ⟨(hiff respelt).1 ⟨c, hc⟩, c, hc, henvs respelt c hc⟩

end Testbed.Config
