import Mathlib.Data.List.Nodup
import Testbed.Config.Parse
import Testbed.Proofs.Config.Merging
import Testbed.Selection

/-! The names of a configuration that was accepted. They are identifiers and no two environments
share one, so a selection picks environments apart, in the order of their declaration, and fails
just when it names one that is not declared. -/
namespace Testbed

namespace Config

theorem isNameChar_of_isIdentifier {name : String} (h : isIdentifier name = true) :
    ∀ c ∈ name.toList, Dependency.isNameChar c = true := by
  unfold isIdentifier at h
  split at h
  next first rest hl =>
    rw [Bool.and_eq_true] at h
    rw [hl]
    refine List.forall_mem_cons.2 ⟨?_, List.all_eq_true.1 h.2⟩
    rw [Dependency.isNameChar, h.1, Bool.true_or]
  next => cases h

/-- What is no character of a name stands in no name. -/
theorem not_mem_of_isIdentifier {name : String} (h : isIdentifier name = true) {c : Char}
    (hc : Dependency.isNameChar c = false) : c ∉ name.toList := fun hmem => by
  rw [isNameChar_of_isIdentifier h c hmem] at hc
  cases hc

/-! ### Merging -/

theorem mergeEnv_name {base : Layer} {name : String} {t : EnvTable} {spec : EnvSpec}
    (h : mergeEnv base name t = .ok spec) : spec.name = name := by
  obtain ⟨own, -, -, rfl⟩ := mergeEnv_ok_iff.1 h
  rfl

theorem checkName_ok_iff {name : String} :
    checkName name = .ok () ↔ name ≠ everything ∧ isIdentifier name = true := by
  unfold checkName
  split
  next h => simp [h]
  next h => split <;> simp_all

/-- An environment that is merged has a good name of its own. -/
structure Named (base : Layer) (t : EnvTable) (spec : EnvSpec) : Prop where
  name : t.name = some spec.name
  free : spec.name ≠ everything
  identifier : isIdentifier spec.name = true
  merged : mergeEnv base spec.name t = .ok spec

theorem mergeEnvs_cons {base : Layer} {position : Nat} {seen : List String} {t : EnvTable}
    {rest : List EnvTable} {specs : List EnvSpec} :
    mergeEnvs base position seen (t :: rest) = .ok specs ↔
      ∃ spec tail, specs = spec :: tail ∧ Named base t spec ∧ spec.name ∉ seen ∧
        mergeEnvs base (position + 1) (spec.name :: seen) rest = .ok tail := by
  rw [mergeEnvs]
  constructor
  · intro h
    split at h
    next name ht =>
      obtain ⟨_, ⟨⟩, h⟩ := bind_ok_iff.1 h
      obtain ⟨⟨⟩, hgood, h⟩ := bind_ok_iff.1 h
      obtain ⟨hfree, hid⟩ := checkName_ok_iff.1 hgood
      dsimp only at h
      split at h
      next =>
        obtain ⟨_, ⟨⟩, -⟩ := bind_ok_iff.1 h
      next hseen =>
        obtain ⟨spec, hspec, h⟩ := bind_ok_iff.1 h
        obtain ⟨tail, htail, h⟩ := bind_ok_iff.1 h
        cases h
        obtain rfl := mergeEnv_name hspec
        exact ⟨spec, tail, rfl, ⟨ht, hfree, hid, hspec⟩, by simpa using hseen, htail⟩
    next =>
      obtain ⟨_, ⟨⟩, -⟩ := bind_ok_iff.1 h
  · rintro ⟨spec, tail, rfl, ⟨ht, hfree, hid, hspec⟩, hseen, htail⟩
    rw [ht]
    refine bind_ok_iff.2 ⟨spec.name, rfl, bind_ok_iff.2 ⟨(), checkName_ok_iff.2 ⟨hfree, hid⟩, ?_⟩⟩
    dsimp only
    rw [if_neg (by simpa using hseen)]
    exact bind_ok_iff.2 ⟨spec, hspec, bind_ok_iff.2 ⟨tail, htail, rfl⟩⟩

/-- The environments are merged when each has a good name, none has that of another, and each is
merged from its own table. -/
theorem mergeEnvs_ok_iff {base : Layer} {position : Nat} {seen : List String} {ts : List EnvTable}
    {specs : List EnvSpec} : mergeEnvs base position seen ts = .ok specs ↔
      List.Forall₂ (Named base) ts specs ∧ (specs.map EnvSpec.name).Nodup ∧
        ∀ spec ∈ specs, spec.name ∉ seen := by
  induction ts generalizing position seen specs with
  | nil =>
    rw [mergeEnvs, List.forall₂_nil_left_iff, Except.ok.injEq, eq_comm]
    exact ⟨fun h => ⟨h, by simp [h]⟩, fun h => h.1⟩
  | cons t rest ih =>
    rw [mergeEnvs_cons, List.forall₂_cons_left_iff]
    constructor
    · rintro ⟨spec, tail, rfl, hnamed, hseen, htail⟩
      obtain ⟨hall, hnodup, hnew⟩ := ih.1 htail
      refine ⟨⟨spec, tail, hnamed, hall, rfl⟩, ?_, ?_⟩
      · rw [List.map_cons, List.nodup_cons]
        refine ⟨fun hmem => ?_, hnodup⟩
        obtain ⟨other, hother, heq⟩ := List.mem_map.1 hmem
        exact hnew other hother (by simp [heq])
      · rw [List.forall_mem_cons]
        exact ⟨hseen, fun other hother hmem => hnew other hother (List.mem_cons_of_mem _ hmem)⟩
    · rintro ⟨⟨spec, tail, hnamed, hall, rfl⟩, hnodup, hnew⟩
      rw [List.map_cons, List.nodup_cons] at hnodup
      rw [List.forall_mem_cons] at hnew
      refine ⟨spec, tail, rfl, hnamed, hnew.1, ih.2 ⟨hall, hnodup.2, fun other hother hmem => ?_⟩⟩
      rcases List.mem_cons.1 hmem with heq | hmem
      · exact hnodup.1 (List.mem_map.2 ⟨other, hother, heq⟩)
      · exact hnew.2 other hother hmem

/-! ### Parsing -/

theorem ofFile_mergeEnvs {root : Path} {file : File} {c : Config} (h : ofFile root file = .ok c) :
    ∃ base, file.base.Reads base ∧ mergeEnvs base 0 [] file.envs = .ok c.environments := by
  obtain ⟨settings, -, h⟩ := bind_ok_iff.1 h
  obtain ⟨base, hbase, h⟩ := bind_ok_iff.1 h
  obtain ⟨environments, hmerge, h⟩ := bind_ok_iff.1 h
  obtain ⟨_, -, h⟩ := bind_ok_iff.1 h
  cases h
  exact ⟨base, (readBase_ok_iff.1 hbase).2, hmerge⟩

theorem ofFile_names {root : Path} {file : File} {c : Config} (h : ofFile root file = .ok c) :
    c.names.Nodup ∧ ∀ spec ∈ c.environments, spec.name ≠ everything ∧
      isIdentifier spec.name = true := by
  obtain ⟨base, -, hmerge⟩ := ofFile_mergeEnvs h
  obtain ⟨hall, hnodup, -⟩ := mergeEnvs_ok_iff.1 hmerge
  refine ⟨hnodup, fun spec hspec => ?_⟩
  obtain ⟨t, -, hnamed⟩ := exists_left_of_forall₂ hall hspec
  exact ⟨hnamed.free, hnamed.identifier⟩

theorem parse_names {root : Path} {text : String} {c : Config} (h : parse root text = .ok c) :
    c.names.Nodup ∧ ∀ spec ∈ c.environments, spec.name ≠ everything ∧
      isIdentifier spec.name = true := by
  unfold parse at h
  split at h
  next file _ => exact ofFile_names h
  next => cases h

theorem find?_isNone {c : Config} {name : String} :
    (c.find? name).isNone = true ↔ name ∉ c.names := by
  simp [find?, names]

end Config

/-! ### Selections -/

namespace Selection

/-- A name that is asked for and not declared. -/
def IsUnknown (c : Config) (s : Selection) : Prop :=
  ∃ names, s = .named names ∧ ∃ name ∈ names, name ∉ c.names

theorem resolve_error_iff {c : Config} {s : Selection} :
    (∃ name, s.resolve c = .error name) ↔ s.IsUnknown c := by
  unfold IsUnknown
  cases s with
  | all => simp [resolve]
  | byDefault => simp [resolve]
  | named names =>
    simp only [resolve, Selection.named.injEq, exists_eq_left']
    split
    next unknown h =>
      have hnot : unknown ∉ c.names := Config.find?_isNone.1 (by simpa using List.find?_some h)
      exact ⟨fun _ => ⟨unknown, List.mem_of_find?_eq_some h, hnot⟩, fun _ => ⟨unknown, rfl⟩⟩
    next h =>
      constructor
      · rintro ⟨_, ⟨⟩⟩
      · rintro ⟨name, hmem, hnot⟩
        exact absurd (Config.find?_isNone.2 hnot) (List.find?_eq_none.1 h name hmem)

theorem resolve_sublist {c : Config} {s : Selection} {found : List EnvSpec}
    (h : s.resolve c = .ok found) : found.Sublist c.environments := by
  unfold resolve at h
  split at h
  · cases h
    exact List.Sublist.refl _
  · cases h
    exact List.filter_sublist
  · split at h
    · cases h
    · cases h
      exact List.filter_sublist

end Selection

end Testbed
