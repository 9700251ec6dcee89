import Mathlib.Data.List.SplitBy
import Testbed.Proofs.Dependency.Name
import Testbed.Proofs.Text.Runs

/-! The normal form of a package name, for any text. It is what the spellings of one name share: two
names have one normal form just when they agree in small letters, with each run of separators taken
for a single one. A text is its own normal form just when it has neither a capital letter, nor a
`_`, nor a `.`, nor two dashes in a row. -/
namespace Testbed.Dependency

theorem lower_eq_toLower (c : Char) : lower c = c.toLower := by
  by_cases hc : c.toNat < 91
  · have hletters : ∀ n < 91, lower (Char.ofNat n) = (Char.ofNat n).toLower := by decide
    simpa using hletters c.toNat hc
  · have hle : ¬ c ≤ 'Z' := fun h => hc (Nat.lt_succ_of_le h)
    have hsame : c.toLower = c := dif_neg fun h => hle h.2
    rw [hsame, lower_of_not_capital fun h => hle h.2]

/-! ### Texts in normal form -/

/-- No two dashes stand in a row. -/
def Apart (c d : Char) : Prop := ¬ (c = '-' ∧ d = '-')

/-- A text in normal form. -/
structure IsCanonical (name : String) : Prop where
  small : ∀ c ∈ name.toList, c.isUpper = false
  underscore : '_' ∉ name.toList
  dot : '.' ∉ name.toList
  single : name.toList.IsChain Apart

variable {c d : Char} {s t : List Char} {joined : Bool}

theorem isUpper_eq_false_iff : c.isUpper = false ↔ ¬ ('A' ≤ c ∧ c ≤ 'Z') := decide_eq_false_iff_not

theorem isUpper_lower (c : Char) : (lower c).isUpper = false := by
  rw [isUpper_eq_false_iff]
  by_cases h : 'A' ≤ c ∧ c ≤ 'Z'
  · exact (lower_of_capital h).1
  · rwa [lower_of_not_capital h]

theorem mem_normalizeFrom (h : c ∈ normalizeFrom joined s) :
    c = '-' ∨ isSeparator c = false ∧ c.isUpper = false := by
  induction s generalizing joined with
  | nil => cases h
  | cons d s ih =>
    unfold normalizeFrom at h
    split at h
    next hd =>
      split at h
      next => exact ih h
      next =>
        rcases List.mem_cons.1 h with rfl | h
        · exact .inl rfl
        · exact ih h
    next hd =>
      rcases List.mem_cons.1 h with rfl | h
      · rw [isSeparator_lower]
        exact .inr ⟨by simpa using hd, isUpper_lower d⟩
      · exact ih h

/-- A dash is followed by none, neither in the result nor where it stands before it. -/
theorem isChain_normalizeFrom (joined : Bool) (s : List Char) :
    (normalizeFrom joined s).IsChain Apart ∧
      (joined = true → ∀ d ∈ (normalizeFrom joined s).head?, Apart '-' d) := by
  induction s generalizing joined with
  | nil => exact ⟨.nil, fun _ => nofun⟩
  | cons c s ih =>
    unfold normalizeFrom
    split
    next hc =>
      split
      next => exact ⟨(ih true).1, fun _ => (ih true).2 rfl⟩
      next hjoined =>
        exact ⟨List.isChain_cons.2 ⟨(ih true).2 rfl, (ih true).1⟩, fun h => absurd h hjoined⟩
    next hc =>
      have hletter : lower c ≠ '-' := by
        intro heq
        rw [← isSeparator_lower, heq] at hc
        exact hc rfl
      refine ⟨List.isChain_cons.2 ⟨fun d _ h => hletter h.1, (ih false).1⟩, fun _ => ?_⟩
      rintro d ⟨⟩ h
      exact hletter h.2

theorem isCanonical_normalizeName (name : String) : IsCanonical (normalizeName name) := by
  have hlist : (normalizeName name).toList = normalize name.toList := by simp [normalizeName]
  have hmem {c : Char} (hc : c ∈ (normalizeName name).toList) :
      c = '-' ∨ isSeparator c = false ∧ c.isUpper = false := by
    rw [hlist] at hc
    exact mem_normalizeFrom hc
  refine ⟨fun c hc => ?_, fun hc => ?_, fun hc => ?_, ?_⟩
  · obtain rfl | ⟨-, hc⟩ := hmem hc
    · rfl
    · exact hc
  · obtain hc | ⟨hc, -⟩ := hmem hc <;> cases hc
  · obtain hc | ⟨hc, -⟩ := hmem hc <;> cases hc
  · rw [hlist]
    exact (isChain_normalizeFrom false name.toList).1

/-- In a text in normal form there is nothing to change. -/
theorem normalizeFrom_eq_self (hsmall : ∀ c ∈ s, lower c = c)
    (hdash : ∀ c ∈ s, isSeparator c = true → c = '-') (hchain : s.IsChain Apart)
    (hjoined : joined = true → ∀ d ∈ s.head?, Apart '-' d) : normalizeFrom joined s = s := by
  induction s generalizing joined with
  | nil => rfl
  | cons c s ih =>
    rw [List.forall_mem_cons] at hsmall hdash
    rw [List.isChain_cons] at hchain
    unfold normalizeFrom
    split
    next hc =>
      obtain rfl := hdash.1 hc
      rw [if_neg fun h => hjoined h '-' rfl ⟨rfl, rfl⟩,
        ih hsmall.2 hdash.2 hchain.2 fun _ => hchain.1]
    next hc => rw [hsmall.1, ih hsmall.2 hdash.2 hchain.2 fun h => absurd h Bool.false_ne_true]

theorem IsCanonical.normalizeName_eq {name : String} (h : IsCanonical name) :
    normalizeName name = name := by
  have hsmall (c : Char) (hc : c ∈ name.toList) : lower c = c :=
    lower_of_not_capital (isUpper_eq_false_iff.1 (h.small c hc))
  have hdash (c : Char) (hc : c ∈ name.toList) (hsep : isSeparator c = true) : c = '-' := by
    have hcases : (c = '-' ∨ c = '_') ∨ c = '.' := by simpa [isSeparator] using hsep
    obtain (rfl | rfl) | rfl := hcases
    · rfl
    · exact absurd hc h.underscore
    · exact absurd hc h.dot
  have hlist : normalize name.toList = name.toList :=
    normalizeFrom_eq_self hsmall hdash h.single fun hfalse => absurd hfalse Bool.false_ne_true
  rw [normalizeName, hlist, String.ofList_toList]

theorem normalizeName_eq_self_iff {name : String} :
    normalizeName name = name ↔ IsCanonical name :=
  ⟨fun h => h ▸ isCanonical_normalizeName name, IsCanonical.normalizeName_eq⟩

/-! ### Spellings of one name -/

/-- Two separators next to each other are of one run. -/
def inRun (c d : Char) : Bool := isSeparator c && isSeparator d

/-- A letter, or a mark in the place of a separator. -/
def mark (c : Char) : Option Char := if isSeparator c then none else some c

/-- What the spellings of a name share: its letters in lower case, and one mark for each longest run
of separators. -/
def outline (name : List Char) : List (Option Char) :=
  ((name.map Char.toLower).splitBy inRun).map fun run => run.head?.bind mark

theorem outline_letter (hc : isSeparator c = false) (s : List Char) :
    outline (c :: s) = some (lower c) :: outline s := by
  have hlower : isSeparator (lower c) = false := (isSeparator_lower c).trans hc
  have hsplit : (lower c :: s.map Char.toLower).splitBy inRun =
      [[lower c]] ++ (s.map Char.toLower).splitBy inRun := by
    rw [← List.singleton_append, List.splitBy_append (by simp [inRun, hlower]),
      List.splitBy_of_isChain (by simp) (by simp)]
  rw [outline, List.map_cons, ← lower_eq_toLower, hsplit]
  simp [outline, mark, hlower]

/-- A separator takes those behind it into its run. -/
theorem outline_separator (hc : isSeparator c = true) (s : List Char) :
    outline (c :: s) = none :: outline (s.dropWhile isSeparator) := by
  have hrun : ∀ d ∈ (c :: s.takeWhile isSeparator).map Char.toLower, isSeparator d = true := by
    intro d hd
    obtain ⟨b, hb, rfl⟩ := List.mem_map.1 hd
    rw [← lower_eq_toLower, isSeparator_lower]
    rcases List.mem_cons.1 hb with rfl | hb
    · exact hc
    · exact List.mem_takeWhile_imp hb
  have hrest : ∀ d ∈ ((s.dropWhile isSeparator).map Char.toLower).head?, isSeparator d = false := by
    intro d hd
    rw [List.head?_map, Option.mem_def, Option.map_eq_some_iff] at hd
    obtain ⟨b, hb, rfl⟩ := hd
    rw [← lower_eq_toLower, isSeparator_lower]
    exact Text.head?_dropWhile hb
  have hchain : ((c :: s.takeWhile isSeparator).map Char.toLower).IsChain fun a b => inRun a b :=
    List.Pairwise.isChain (List.pairwise_of_forall_mem_list fun a ha b hb => by
      simp [inRun, hrun a ha, hrun b hb])
  have hsplit : c :: s = (c :: s.takeWhile isSeparator) ++ s.dropWhile isSeparator := by
    rw [List.cons_append, List.takeWhile_append_dropWhile]
  rw [hsplit, outline, List.map_append, List.splitBy_append,
    List.splitBy_of_isChain (by simp) hchain]
  · simp [outline, mark, hrun]
  · intro a _ b hb
    simp [inRun, hrest b hb]

theorem normalizeFrom_true (s : List Char) :
    normalizeFrom true s = normalize (s.dropWhile isSeparator) := by
  induction s with
  | nil => rfl
  | cons c s ih =>
    by_cases hc : isSeparator c = true
    · rw [List.dropWhile_cons_of_pos hc, ← ih, normalizeFrom, if_pos hc, if_pos rfl]
    · rw [List.dropWhile_cons_of_neg hc, normalize, normalizeFrom, normalizeFrom]
      simp only [hc, Bool.false_eq_true, if_false]

theorem normalize_letter (hc : isSeparator c = false) (s : List Char) :
    normalize (c :: s) = lower c :: normalize s := by
  simp [normalize, normalizeFrom, hc]

theorem normalize_separator (hc : isSeparator c = true) (s : List Char) :
    normalize (c :: s) = '-' :: normalize (s.dropWhile isSeparator) := by
  rw [← normalizeFrom_true]
  simp [normalize, normalizeFrom, hc]

/-- Along the runs of a text: nothing, a letter, or a run of separators and what stands behind. -/
theorem runs_induction {motive : List Char → Prop} (nil : motive [])
    (letter : ∀ c s, isSeparator c = false → motive s → motive (c :: s))
    (run : ∀ c s, isSeparator c = true → motive (s.dropWhile isSeparator) → motive (c :: s)) :
    ∀ s, motive s
  | [] => nil
  | c :: s => by
    have hshorter := (List.dropWhile_suffix (l := s) isSeparator).length_le
    cases hc : isSeparator c with
    | false => exact letter c s hc (runs_induction nil letter run s)
    | true => exact run c s hc (runs_induction nil letter run (s.dropWhile isSeparator))
termination_by s => s.length

/-- The normal form is the outline with a dash for each mark. -/
theorem normalize_eq_outline (s : List Char) : normalize s = (outline s).map (·.getD '-') := by
  induction s using runs_induction with
  | nil => rfl
  | letter c s hc ih =>
    rw [outline_letter hc, normalize_letter hc, ih]
    rfl
  | run c s hc ih =>
    rw [outline_separator hc, normalize_separator hc, ih]
    rfl

/-- And the outline is the normal form with a mark for each dash. -/
theorem outline_eq_normalize (s : List Char) : outline s = (normalize s).map mark := by
  induction s using runs_induction with
  | nil => rfl
  | letter c s hc ih =>
    have hmark : mark (lower c) = some (lower c) := by simp [mark, isSeparator_lower, hc]
    rw [outline_letter hc, normalize_letter hc, List.map_cons, hmark, ih]
  | run c s hc ih =>
    have hmark : mark '-' = none := rfl
    rw [outline_separator hc, normalize_separator hc, List.map_cons, hmark, ih]

theorem normalizeName_eq_iff {name other : String} :
    normalizeName name = normalizeName other ↔ outline name.toList = outline other.toList := by
  constructor
  · intro h
    have hlists : normalize name.toList = normalize other.toList := String.ofList_injective h
    rw [outline_eq_normalize, hlists, ← outline_eq_normalize]
  · intro h
    rw [normalizeName, normalize_eq_outline, h, ← normalize_eq_outline, normalizeName]

/-! ### Names put together -/

/-- The texts meet in separators. -/
def Meet (s t : List Char) : Prop :=
  ∃ c d, s.getLast? = some c ∧ t.head? = some d ∧ isSeparator c = true ∧ isSeparator d = true

/-- Whether a separator stands at the end of a text. -/
def joinedAfter (joined : Bool) (s : List Char) : Bool := (s.getLast?.map isSeparator).getD joined

theorem joinedAfter_cons (joined : Bool) (c : Char) (s : List Char) :
    joinedAfter joined (c :: s) = joinedAfter (isSeparator c) s := by
  cases hs : s.getLast? with
  | none => simp [joinedAfter, List.getLast?_cons, hs]
  | some d => simp [joinedAfter, List.getLast?_cons, hs]

theorem normalizeFrom_append (joined : Bool) (s t : List Char) :
    normalizeFrom joined (s ++ t) =
      normalizeFrom joined s ++ normalizeFrom (joinedAfter joined s) t := by
  induction s generalizing joined with
  | nil => rfl
  | cons c s ih =>
    rw [List.cons_append, joinedAfter_cons]
    cases hc : isSeparator c <;> cases joined <;> simp [normalizeFrom, hc, ih]

/-- Behind a separator, a text that does not begin with one is normalized as ever. -/
theorem normalizeFrom_true_eq_iff :
    normalizeFrom true t = normalize t ↔ ∀ d, t.head? = some d → isSeparator d = false := by
  constructor
  · rintro h d hd
    obtain ⟨t, rfl⟩ := List.head?_eq_some_iff.1 hd
    rw [Bool.eq_false_iff]
    intro hsep
    simp [normalize, normalizeFrom, hsep] at h
  · intro h
    rw [normalizeFrom_true, Text.dropWhile_of_head h]

/-- Separators that meet are one run, and one dash is left of them. -/
theorem normalize_append_iff : normalize (s ++ t) = normalize s ++ normalize t ↔ ¬ Meet s t := by
  have hrest : normalize (s ++ t) = normalize s ++ normalizeFrom (joinedAfter false s) t :=
    normalizeFrom_append false s t
  rw [hrest, List.append_cancel_left_eq]
  unfold Meet
  cases hs : s.getLast? with
  | none => simp [joinedAfter, hs, normalize]
  | some c =>
    have hafter : joinedAfter false s = isSeparator c := by simp [joinedAfter, hs]
    rw [hafter]
    cases hc : isSeparator c with
    | false => simp [normalize, hc]
    | true => simp [normalizeFrom_true_eq_iff, hc]

theorem normalizeName_append_iff {name other : String} :
    normalizeName (name ++ other) = normalizeName name ++ normalizeName other ↔
      ¬ Meet name.toList other.toList := by
  rw [← normalize_append_iff, normalizeName, normalizeName, normalizeName,
    String.toList_append, ← String.ofList_append, String.ofList_inj]

/-! ### The normal form -/

/-- Normalizing is done once for all; it leaves just the texts in normal form as they are, and gives
two names one form just when their outlines agree. It may be done piece by piece, except where two
separators meet. -/
theorem normalizeName_canonical :
    (∀ name, normalizeName (normalizeName name) = normalizeName name) ∧
    (∀ name, IsCanonical (normalizeName name)) ∧
    (∀ name, normalizeName name = name ↔ IsCanonical name) ∧
    (∀ name other, normalizeName name = normalizeName other ↔
      outline name.toList = outline other.toList) ∧
    (∀ name other, normalizeName (name ++ other) = normalizeName name ++ normalizeName other ↔
      ¬ Meet name.toList other.toList) :=
  ⟨normalizeName_normalizeName, isCanonical_normalizeName, fun _ => normalizeName_eq_self_iff,
    fun _ _ => normalizeName_eq_iff, fun _ _ => normalizeName_append_iff⟩

example : normalizeName "Zope-_.ext" = "zope-ext" ∧ outline "a-_B.".toList =
    [some 'a', none, some 'b', none] := by
  decide

end Testbed.Dependency
