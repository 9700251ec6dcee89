import Testbed.Proofs.Dependency.Grammar

/-! Displays of declared sources. A source is displayed as a declaration of itself, the same for all its
spellings: a manifest behind the short option and one blank, a requirement without the blanks around
it. -/
namespace Testbed.Dependency

theorem toList_display_manifest (path : List Char) :
    (manifest ⟨String.ofList path⟩).display.toList = "-r ".toList ++ path := by
  have happend : (manifest ⟨String.ofList path⟩).display.toList =
      "-r ".toList ++ (String.ofList path).toList := String.toList_append
  exact happend.trans (congrArg ("-r ".toList ++ ·) String.toList_ofList)

/-- A path that was read is displayed without blanks around it, and behind one blank. -/
theorem declares_display_manifest {rest path : List Char} (hpath : Text.Trims rest path)
    (hne : path ≠ []) : Declares (Text.trim (manifest ⟨String.ofList path⟩).display.toList)
      (.manifest ⟨String.ofList path⟩) := by
  have htrims : Text.Trims ("-r ".toList ++ path) ("-r ".toList ++ path) := by
    refine ⟨⟨[], [], by simp, by simp⟩, ?_, fun c hc => ?_⟩
    · rintro c ⟨⟩
      decide
    · rw [List.getLast?_append_of_ne_nil _ hne] at hc
      exact hpath.last c hc
  have hrest : Text.Trims (' ' :: path) path := by
    refine ⟨⟨[' '], [], by simp, fun c hc => ?_⟩, hpath.head, hpath.last⟩
    obtain rfl := List.mem_singleton.1 hc
    decide
  rw [toList_display_manifest, Text.trim_eq_iff.2 htrims]
  exact .short hrest hne

theorem Declares.displayed {t : List Char} {source : Dependency} (h : Declares t source)
    (ht : Text.Trims t t) : Declares (Text.trim source.display.toList) source := by
  cases h with
  | long _ _ hpath hne => exact declares_display_manifest hpath hne
  | short hpath hne => exact declares_display_manifest hpath hne
  | package q =>
    rw [display, String.toList_ofList, Text.trim_eq_iff.2 ht]
    exact .package q

/-- What is displayed of a source that was read declares the same source. -/
theorem parse?_display {raw : String} {source : Dependency} (h : parse? raw = some source) :
    parse? source.display = some source :=
  parse?_eq_some_iff.2 ((parse?_eq_some_iff.1 h).displayed (Text.trims_trim _).self)

/-- The name that a requirement spells is that of its package, but for its normal form. -/
theorem Declares.packageName? {t : List Char} {source : Dependency} (h : Declares t source) :
    source.packageName? = source.declaredName?.map normalizeName := by
  cases h with
  | long | short => rfl
  | package q =>
    rw [Dependency.packageName?, declaredName?, String.toList_ofList, q.requirementName?_text]
    rfl

/-- The display of a source is its one canonical declaration: it declares the same source again, other
sources are displayed otherwise, and the name it spells is that of the package. -/
theorem display_canonical {raw : String} {source : Dependency} (h : parse? raw = some source) :
    parse? source.display = some source ∧
      (∀ raw' source', parse? raw' = some source' →
        (source.display = source'.display ↔ source = source')) ∧
      source.packageName? = source.declaredName?.map normalizeName := by
  refine ⟨parse?_display h, fun raw' source' h' => ⟨fun heq => ?_, fun heq => heq ▸ rfl⟩,
    (parse?_eq_some_iff.1 h).packageName?⟩
  have hagain := parse?_display h'
  rw [← heq, parse?_display h] at hagain
  exact Option.some.inj hagain

/-- The path of a manifest may look like an option, and a requirement may be spelt in more than one
way. -/
theorem display_canonical_optional :
    parse? " --requirement=-r x " = some (.manifest ⟨"-r x"⟩) ∧
      parse? "-r -r x" = some (.manifest ⟨"-r x"⟩) ∧
      parse? "A_b >=1" = some (.package "a-b" "A_b >=1") ∧
      (manifest ⟨"-r x"⟩).display ≠ (package "a-b" "A_b >=1").display ∧
      (package "a-b" "A_b >=1").packageName? =
        (package "a-b" "A_b >=1").declaredName?.map normalizeName := by
  have hlong : parse? " --requirement=-r x " = some (.manifest ⟨"-r x"⟩) := by decide
  have hpackage : parse? "A_b >=1" = some (.package "a-b" "A_b >=1") := by decide
  obtain ⟨hagain, hinj, -⟩ := display_canonical hlong
  have hapart : (manifest ⟨"-r x"⟩).display ≠ (package "a-b" "A_b >=1").display := by
    intro heq
    have hsame := (hinj _ _ hpackage).1 heq
    cases hsame
  exact ⟨hlong, hagain, hpackage, hapart, (display_canonical hpackage).2.2⟩

end Testbed.Dependency
