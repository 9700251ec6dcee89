import Testbed.Proofs.Config.Acceptance
import Testbed.Proofs.Text.Blank

/-! A selection is a set of names. Whatever the order in which names are asked for and however often,
the environments that have them come in the order of their declaration, each once, and none is
missing; a name that is not declared is told before anything else. Arguments are taken as one text:
it makes no difference where they are parted, where blanks stand around a name, or how many commas
follow each other. -/
namespace Testbed.Selection

/-! ### Names asked for -/

/-- All that are declared, the list of the settings if there is one, or those that are given. -/
def asked (c : Config) : Selection → List String
  | .all => c.names
  | .byDefault =>
    match c.settings.envlist with
    | some names => names
    | none => c.names
  | .named names => names

/-- The environments of some names in the order of their declaration. -/
structure Picks (c : Config) (names : List String) (found : List EnvSpec) : Prop where
  order : found.Sublist c.environments
  nodup : (found.map EnvSpec.name).Nodup
  names : ∀ name, name ∈ found.map EnvSpec.name ↔ name ∈ names

/-- What comes of asking for some names: the first that is not declared, or their environments. -/
inductive Settles (c : Config) (names : List String) : Except String (List EnvSpec) → Prop
  | unknown {before after : List String} {name : String} (hs : names = before ++ name :: after)
      (hb : ∀ other ∈ before, other ∈ c.names) (hn : name ∉ c.names) : Settles c names (.error name)
  | found {found : List EnvSpec} (h : Picks c names found) : Settles c names (.ok found)

variable {c : Config} {names names' : List String}

theorem chosen_picks (hnodup : c.names.Nodup) (h : ∀ name ∈ names, name ∈ c.names) :
    Picks c names (chosen c names) where
  order := List.filter_sublist
  nodup := hnodup.sublist (List.filter_sublist.map EnvSpec.name)
  names name := by
    simp only [chosen, List.mem_map, List.mem_filter, List.contains_iff_mem]
    constructor
    · rintro ⟨spec, ⟨-, hmem⟩, rfl⟩
      exact hmem
    · intro hmem
      obtain ⟨spec, hspec, rfl⟩ := List.mem_map.1 (h name hmem)
      exact ⟨spec, ⟨hspec, hmem⟩, rfl⟩

/-- Only which names are asked for counts. -/
theorem chosen_congr (h : ∀ name, name ∈ names ↔ name ∈ names') :
    chosen c names = chosen c names' := by
  refine List.filter_congr fun spec _ => ?_
  rw [Bool.eq_iff_iff, List.contains_iff_mem, List.contains_iff_mem]
  exact h spec.name

theorem resolve_named (h : ∀ name ∈ names, name ∈ c.names) :
    resolve c (.named names) = .ok (chosen c names) := by
  have hnone : names.find? (fun name => (c.find? name).isNone) = none :=
    List.find?_eq_none.2 fun name hname hn => Config.find?_isNone.1 hn (h name hname)
  rw [resolve, hnone]

theorem named_settles (hnodup : c.names.Nodup) (names : List String) :
    Settles c names (resolve c (.named names)) := by
  by_cases h : ∀ name ∈ names, name ∈ c.names
  · rw [resolve_named h]
    exact .found (chosen_picks hnodup h)
  · unfold resolve
    dsimp only
    split
    next unknown hfind =>
      obtain ⟨hn, before, after, hs, hb⟩ := List.find?_eq_some_iff_append.1 hfind
      refine .unknown hs (fun other hother => ?_) (Config.find?_isNone.1 hn)
      by_contra hnot
      simpa [Config.find?_isNone.2 hnot] using hb other hother
    next hnone =>
      refine absurd (fun name hname => ?_) h
      by_contra hnot
      exact List.find?_eq_none.1 hnone name hname (Config.find?_isNone.2 hnot)

/-- The list of the settings was checked before. -/
theorem settles {root : Path} {file : Config.File} (hc : Config.ofFile root file = .ok c)
    (s : Selection) : Settles c (s.asked c) (s.resolve c) := by
  have hnodup := (Config.ofFile_names hc).1
  cases s with
  | all => exact .found ⟨.refl _, hnodup, fun _ => Iff.rfl⟩
  | named names => exact named_settles hnodup names
  | byDefault =>
    cases hlist : c.settings.envlist with
    | none =>
      simp only [resolve, asked, Config.defaultSelection, hlist, Option.getD_none]
      exact .found (chosen_picks hnodup fun _ h => h)
    | some names =>
      simp only [resolve, asked, Config.defaultSelection, hlist, Option.getD_some]
      exact .found (chosen_picks hnodup (Config.ofFile_envlist hc hlist))

/-! ### Arguments -/

/-- A name with blanks around it. -/
structure Padded where
  left : String
  name : String
  right : String
  blank : ∀ c ∈ left.toList ++ right.toList, Text.isBlank c = true

def Padded.text (p : Padded) : String := p.left ++ p.name ++ p.right

theorem namesIn_empty : namesIn "" = [] := rfl

theorem namesIn_comma (arg arg' : String) :
    namesIn (arg ++ "," ++ arg') = namesIn arg ++ namesIn arg' := by
  have hcut : (arg ++ "," ++ arg').toList = arg.toList ++ ',' :: arg'.toList := by simp
  simp only [namesIn, hcut, Text.pieces_append_cut, beq_self_eq_true, List.map_append,
    List.filter_append]

theorem namesIn_intercalate (args : List String) :
    namesIn (",".intercalate args) = args.flatMap namesIn := by
  induction args with
  | nil => rfl
  | cons arg args ih =>
    cases args with
    | nil => simp
    | cons next args =>
      rw [String.intercalate_cons_cons, namesIn_comma, ih]
      rfl

theorem namesIn_text (p : Padded) : namesIn p.text = namesIn p.name := by
  have hl : ∀ c ∈ p.left.toList, Text.isBlank c = true :=
    fun c hc => p.blank c (List.mem_append_left _ hc)
  have hr : ∀ c ∈ p.right.toList, Text.isBlank c = true :=
    fun c hc => p.blank c (List.mem_append_right _ hc)
  have hcomma : Text.isBlank ',' = false := rfl
  simp only [namesIn, Padded.text, String.toList_append, Text.map_trim_pieces_right hcomma hr,
    Text.map_trim_pieces_left hcomma hl]

theorem ofArgs_congr {args args' : List String} (h : args.flatMap namesIn = args'.flatMap namesIn) :
    ofArgs args = ofArgs args' := by
  rw [ofArgs, ofArgs, h]

/-! ### Sets of names -/

/-- A selection resolves to the environments of the names that it asks for, or fails with the first
of them that is not declared; order and repetitions make no difference. And arguments say the same
however they are parted, padded and filled up with empty ones. -/
theorem resolves_as_set {root : Path} {file : Config.File} (hc : Config.ofFile root file = .ok c) :
    (∀ s : Selection, Settles c (s.asked c) (s.resolve c)) ∧
    (∀ names names' : List String, (∀ name, name ∈ names ↔ name ∈ names') →
      (∀ name ∈ names, name ∈ c.names) → resolve c (.named names) = resolve c (.named names')) ∧
    (∀ args : List String, ofArgs args = ofArgs [",".intercalate args]) ∧
    (∀ ps : List Padded, ofArgs (ps.map Padded.text) = ofArgs (ps.map Padded.name)) ∧
    ∀ args : List String, ofArgs (args.filter (· ≠ "")) = ofArgs args := by
  refine ⟨settles hc, fun names names' hset hknown => ?_, fun args => ?_, fun ps => ?_, fun args => ?_⟩
  · have hknown' : ∀ name ∈ names', name ∈ c.names := fun name hname =>
      hknown name ((hset name).2 hname)
    rw [resolve_named hknown, resolve_named hknown', chosen_congr hset]
  · refine ofArgs_congr ?_
    rw [List.flatMap_cons, List.flatMap_nil, List.append_nil, namesIn_intercalate]
  · refine ofArgs_congr ?_
    rw [List.flatMap_map, List.flatMap_map]
    exact List.flatMap_congr fun p _ => namesIn_text p
  · refine ofArgs_congr ?_
    induction args with
    | nil => rfl
    | cons arg args ih =>
      by_cases h : arg = ""
      · subst h
        simpa [namesIn_empty] using ih
      · simp [h, ← ih]

/-- Two environments, of which the second is run by default. -/
def pairFile : Config.File where
  settings := { Config.SettingsTable.empty with envlist := some ["b", "b"] }
  base := .empty
  envs := [{ Config.EnvTable.empty with name := some "a" },
    { Config.EnvTable.empty with name := some "b" }]

def pair : Config :=
  ⟨⟨"/"⟩, ⟨⟨"/.envrun"⟩, some ["b", "b"], 1, false, InstallCommand.default, [0]⟩,
    [⟨"a", none, [], [], [], [], none, false, 0⟩, ⟨"b", none, [], [], [], [], none, false, 0⟩]⟩

theorem resolves_as_set_pair : Config.ofFile ⟨"/"⟩ pairFile = .ok pair ∧
    Settles pair ["b", "b"] (resolve pair .byDefault) ∧
    Settles pair ["b", "x", "y"] (.error "x") ∧
    resolve pair (.named ["b", "a", "b"]) = resolve pair (.named ["a", "b"]) ∧
    ofArgs ["b", " a", ""] = .named ["b", "a"] ∧
    ofArgs ["b, a,"] = .named ["b", "a"] := by
  have hc : Config.ofFile ⟨"/"⟩ pairFile = .ok pair := rfl
  obtain ⟨hsettles, hset, hparts, hpads, hempty⟩ := resolves_as_set hc
  have hknown : ∀ name ∈ ["b", "a", "b"], name ∈ pair.names := by decide
  have hsame : ∀ name, name ∈ ["b", "a", "b"] ↔ name ∈ ["a", "b"] := by grind
  have hblank : ∀ c ∈ " ".toList ++ "".toList, Text.isBlank c = true := by simp [Text.isBlank]
  have hplain : ofArgs ["b", "a"] = .named ["b", "a"] := by decide +kernel
  have hargs : ofArgs ["b", " a", ""] = .named ["b", "a"] :=
    (hempty ["b", " a", ""]).symm.trans
      ((hpads [⟨"", "b", "", nofun⟩, ⟨" ", "a", "", hblank⟩]).trans hplain)
  exact ⟨hc, hsettles .byDefault, hsettles (.named ["b", "x", "y"]), hset _ _ hsame hknown, hargs,
    (hparts ["b", " a", ""]).symm.trans hargs⟩

end Testbed.Selection
