import Testbed.Proofs.Text.Substitution

/-! What may be put in for a word. A replacement is inert for another word when that comes up nowhere
where the replacement is put in, not even across its ends; where every replacement is inert for the
words that are looked for after it, no text is disturbed. A path is inert when it does not hold the
word and no brace opens in its last component, and a text without braces when it is no part of the
word. A replacement that is not disturbs some text. -/
namespace Testbed.Text

variable {w u v s x y : List Char} {c : Char} {e : List Char × List Char}
  {table : List (List Char × List Char)}

/-! ### Marks and occurrences -/

theorem prefix_append_cons_iff (hc : c ∉ w) : w <+: x ++ c :: s ↔ w <+: x := by
  refine ⟨fun h => ?_, fun h => h.trans (List.prefix_append x _)⟩
  have hx : x ++ [c] <+: x ++ c :: s := ⟨s, by simp⟩
  rcases List.prefix_or_prefix_of_prefix h hx with hw | hw
  · rcases List.prefix_concat_iff.1 hw with rfl | hw
    · exact absurd (by simp) hc
    · exact hw
  · exact absurd (hw.subset (by simp)) hc

theorem occurrences_eq_zero_iff (hw : w ≠ []) : occurrences w s = 0 ↔ ¬ w <:+: s := by
  induction s with
  | nil => simp [occurrences_nil hw, hw]
  | cons c s ih =>
    rw [occurrences_cons, List.infix_cons_iff, not_or, ← ih]
    split
    next h => simp [h]
    next h => simp [h]

theorem add_occurrences_le (hw : w ≠ []) (x s : List Char) :
    occurrences w x + occurrences w s ≤ occurrences w (x ++ s) := by
  induction x with
  | nil => simp [occurrences_nil hw]
  | cons c x ih =>
    rw [List.cons_append, occurrences_cons, occurrences_cons]
    have : w <+: c :: x → w <+: c :: (x ++ s) := fun h => h.trans ⟨s, rfl⟩
    split <;> split
    all_goals first | omega | exact absurd (this ‹_›) ‹_›

theorem IsMark.getLast? (hw : IsMark w) : w.getLast? = some '\x7d' := by
  obtain ⟨name, rfl, -⟩ := hw
  rw [← List.cons_append, List.getLast?_concat]

/-- What stands before the brace that closes a mark. -/
theorem IsMark.exists_init (hw : IsMark w) : ∃ z, w = z ++ ['\x7d'] ∧ '\x7d' ∉ z := by
  obtain ⟨name, rfl, hname⟩ := hw
  refine ⟨'\x7b' :: name, rfl, fun hmem => ?_⟩
  rcases List.mem_cons.1 hmem with h | h
  · exact absurd h (by decide)
  · exact absurd (hname _ h) (by decide)

/-- Around a part of a mark that has no braces stand both of them. -/
theorem IsMark.around (hw : IsMark w) (hxy : x ++ v ++ y = w) (hne : v ≠ []) (hopen : '\x7b' ∉ v)
    (hclose : '\x7d' ∉ v) : '\x7d' ∉ x ∧ '\x7b' ∉ y := by
  constructor
  · obtain ⟨z, rfl, hz⟩ := hw.exists_init
    rcases List.eq_nil_or_concat' y with rfl | ⟨y, d, rfl⟩
    · have hlast := congrArg List.getLast? hxy
      rw [List.append_nil, List.getLast?_concat, List.getLast?_append_of_ne_nil _ hne] at hlast
      exact absurd (List.mem_of_getLast? hlast) hclose
    · rw [← List.append_assoc] at hxy
      obtain ⟨rfl, -⟩ := List.append_inj' hxy rfl
      exact fun hmem => hz (by simp [hmem])
  · obtain ⟨z, rfl, hz⟩ := hw.exists_tail
    cases x with
    | nil =>
      have hfirst := congrArg List.head? hxy
      rw [List.nil_append, List.head?_append_of_ne_nil _ hne, List.head?_cons] at hfirst
      exact absurd (List.mem_of_head? hfirst) hopen
    | cons d x =>
      rw [List.cons_append, List.cons_append, List.cons.injEq] at hxy
      exact fun hmem => hz '\x7b' (by simp [← hxy.2, hmem]) rfl

theorem IsMark.slash_not_mem (hw : IsMark w) : '/' ∉ w := by
  obtain ⟨name, rfl, hname⟩ := hw
  intro hmem
  simp only [List.mem_cons, List.mem_append, List.not_mem_nil, or_false] at hmem
  rcases hmem with h | h | h
  · exact absurd h (by decide)
  · exact absurd (hname _ h) (by decide)
  · exact absurd h (by decide)

theorem occurrences_append_slash (hw : IsMark w) (x s : List Char) :
    occurrences w (x ++ '/' :: s) = occurrences w x + occurrences w s := by
  induction x with
  | nil =>
    rw [List.nil_append, occurrences_cons_of_not (hw.not_starts (by decide)),
      occurrences_nil hw.ne_nil, Nat.zero_add]
  | cons c x ih =>
    have hiff : w <+: c :: (x ++ '/' :: s) ↔ w <+: c :: x :=
      prefix_append_cons_iff (x := c :: x) hw.slash_not_mem
    rw [List.cons_append, occurrences_cons, occurrences_cons, ih]
    simp only [hiff]
    omega

/-! ### Text that makes up no word -/

/-- A word comes up nowhere where the text is put in, neither inside nor across its ends. -/
def Inert (w v : List Char) : Prop :=
  ∀ x y, occurrences w (x ++ v ++ y) ≤ occurrences w x + occurrences w y

theorem Inert.occurrences_replaceAll_le (h : Inert w v) (hw : IsMark w) (hu : u ≠ [])
    (x s : List Char) : occurrences w (x ++ replaceAll u v s) ≤ occurrences w (x ++ s) := by
  induction hn : s.length using Nat.strong_induction_on generalizing x s with
  | _ n ih =>
    by_cases hp : u <+: s
    · obtain ⟨s, rfl⟩ := hp
      have hpos : u.length ≠ 0 := mt List.length_eq_zero_iff.1 hu
      have hrest := ih s.length (by simp at hn; omega) [] s rfl
      rw [replaceAll_word hu, ← List.append_assoc]
      calc occurrences w (x ++ v ++ replaceAll u v s)
          ≤ occurrences w x + occurrences w (replaceAll u v s) := h x _
        _ ≤ occurrences w x + occurrences w s := Nat.add_le_add_left hrest _
        _ ≤ occurrences w x + occurrences w (u ++ s) :=
          Nat.add_le_add_left (le_occurrences_append w u s) _
        _ ≤ occurrences w (x ++ (u ++ s)) := add_occurrences_le hw.ne_nil x _
    · cases s with
      | nil => rfl
      | cons c s =>
        have hrest := ih s.length (by simp [← hn]) (x ++ [c]) s rfl
        rwa [List.append_assoc, List.append_assoc, List.singleton_append, List.singleton_append,
          ← replaceAll_cons_of_not hp] at hrest

/-- Where every replacement is inert for the words behind it, no word comes up in any text. -/
theorem undisturbed_of_inert (ht : IsTable table)
    (h : table.Pairwise fun e e' => Inert e'.1 e.2) {start now : List Char}
    (heq : ∀ e ∈ table, occurrences e.1 now = occurrences e.1 start) :
    Undisturbed table start now := by
  induction table generalizing now with
  | nil => trivial
  | cons e rest ih =>
    obtain ⟨hfirst, hrest⟩ := List.pairwise_cons.1 h
    have he : IsMark e.1 := ht.marks e List.mem_cons_self
    refine ⟨heq e List.mem_cons_self, ih ht.tail hrest fun e' he' => ?_⟩
    rw [← heq e' (List.mem_cons_of_mem e he')]
    refine le_antisymm ?_ (occurrences_le_replaceAll ht he he' now)
    exact (hfirst e' he').occurrences_replaceAll_le (ht.tail.marks e' he') he.ne_nil [] now

/-- A path that holds no word is inert when no brace opens in its last component. -/
theorem inert_of_slash {front back : List Char} (hw : IsMark w) (hback : '\x7b' ∉ back)
    (hfree : ¬ w <:+: front ++ '/' :: back) (hhead : front = [] ∨ front.head? = some '/') :
    Inert w (front ++ '/' :: back) := by
  have hnone := (occurrences_eq_zero_iff hw.ne_nil).2 hfree
  have hshut (y : List Char) : occurrences w (back ++ y) = occurrences w y :=
    occurrences_append_of_shut hw fun c hc heq => hback (heq ▸ hc)
  intro x y
  rcases hhead with rfl | hhead
  · rw [List.nil_append, List.append_assoc, List.cons_append, occurrences_append_slash hw, hshut]
  · obtain ⟨front, rfl⟩ : ∃ rest, front = '/' :: rest := by
      cases front with
      | nil => cases hhead
      | cons c front => exact ⟨front, by rw [Option.some.inj hhead]⟩
    rw [List.cons_append, occurrences_cons_of_not (hw.not_starts (by decide)),
      occurrences_append_slash hw] at hnone
    rw [List.append_assoc, List.cons_append, List.cons_append, List.append_assoc, List.cons_append,
      occurrences_append_slash hw, occurrences_append_slash hw, hshut]
    omega

/-- A text without braces is inert for a word that it is no part of. -/
theorem inert_of_not_infix (hw : IsMark w) (hopen : '\x7b' ∉ v) (hclose : '\x7d' ∉ v)
    (hnot : ¬ v <:+: w) : Inert w v := by
  intro x y
  induction x with
  | nil =>
    rw [List.nil_append, occurrences_append_of_shut hw fun c hc heq => hopen (heq ▸ hc)]
    omega
  | cons c x ih =>
    have hstarts : w <+: c :: (x ++ v ++ y) → w <+: c :: x := by
      intro h
      have hx : c :: x ++ v <+: c :: x ++ v ++ y := List.prefix_append _ _
      rcases List.prefix_or_prefix_of_prefix h hx with hw' | ⟨rest, hrest⟩
      · rcases List.prefix_or_prefix_of_prefix hw' (List.prefix_append (c :: x) v) with hw' | ⟨r, rfl⟩
        · exact hw'
        · rcases List.eq_nil_or_concat' r with rfl | ⟨r, d, rfl⟩
          · simp
          · have hd : d = '\x7d' := by
              have hlast := hw.getLast?
              rwa [← List.append_assoc, List.getLast?_concat, Option.some.injEq] at hlast
            have hsub : r ++ [d] <+: v := (List.prefix_append_right_inj _).1 hw'
            exact absurd (hsub.subset (by simp [hd])) hclose
      · exact absurd ⟨c :: x, rest, hrest⟩ hnot
    rw [List.cons_append, List.cons_append, occurrences_cons, occurrences_cons]
    split <;> split
    all_goals first | omega | exact absurd (hstarts ‹_›) ‹_›

/-! ### Text that makes up a word -/

section Around

variable (hu : IsMark u) (hx : '\x7d' ∉ x) (hy : '\x7b' ∉ y)
include hu hx

/-- No mark begins before another in text that closes no brace. -/
theorem IsMark.not_starts_before (hw : IsMark w) (hne : x ≠ []) : ¬ w <+: x ++ (u ++ y) := by
  intro h
  rcases List.prefix_or_prefix_of_prefix h (List.prefix_append x (u ++ y)) with hp | ⟨r, hr⟩
  · exact hx (hp.subset (List.mem_of_getLast? hw.getLast?))
  · obtain ⟨d, x, rfl⟩ := List.exists_cons_of_ne_nil hne
    obtain ⟨z, rfl, -⟩ := hu.exists_tail
    obtain ⟨z', rfl, hz'⟩ := hw.exists_tail
    cases r with
    | nil =>
      rw [List.append_nil] at hr
      exact hx (hr ▸ List.mem_of_getLast? hw.getLast?)
    | cons d' r =>
      rw [← hr, List.prefix_append_right_inj, List.cons_append, List.cons_prefix_cons] at h
      rw [List.cons_append, List.cons.injEq] at hr
      exact hz' d' (by simp [← hr.2]) h.1

theorem occurrences_before (hw : IsMark w) :
    occurrences w (x ++ (u ++ y)) = occurrences w (u ++ y) := by
  induction x with
  | nil => rfl
  | cons c x ih =>
    have hnot : ¬ w <+: c :: (x ++ (u ++ y)) :=
      IsMark.not_starts_before hu hx hw (List.cons_ne_nil c x)
    rw [List.cons_append, occurrences_cons_of_not hnot,
      ih fun hmem => hx (List.mem_cons_of_mem c hmem)]

theorem replaceAll_before (hw : IsMark w) :
    replaceAll w v (x ++ (u ++ y)) = x ++ replaceAll w v (u ++ y) := by
  induction x with
  | nil => rfl
  | cons c x ih =>
    have hnot : ¬ w <+: c :: (x ++ (u ++ y)) :=
      IsMark.not_starts_before hu hx hw (List.cons_ne_nil c x)
    rw [List.cons_append, replaceAll_cons_of_not hnot,
      ih fun hmem => hx (List.mem_cons_of_mem c hmem), List.cons_append]

include hy

theorem occurrences_around (hw : IsMark w) :
    occurrences w (x ++ (u ++ y)) = if w = u then 1 else 0 := by
  have hshut := occurrences_append_of_shut (s := []) hw fun c hc heq => hy (heq ▸ hc)
  rw [List.append_nil, occurrences_nil hw.ne_nil] at hshut
  rw [occurrences_before hu hx hw, occurrences_mark_append hw hu, hshut, Nat.zero_add]

theorem replaceAll_around (hw : IsMark w) :
    replaceAll w v (x ++ (u ++ y)) = if w = u then x ++ (v ++ y) else x ++ (u ++ y) := by
  have hshut : replaceAll w v y = y := by
    have := replaceAll_append_of_shut (v := v) (s := []) hw fun c hc heq => hy (heq ▸ hc)
    simpa [replaceAll, replaceFrom] using this
  rw [replaceAll_before hu hx hw]
  split
  next heq => rw [heq, replaceAll_word hu.ne_nil, ← heq, hshut]
  next hne => rw [replaceAll_mark hw hu hne, hshut]

end Around

/-- A text that makes up a later word when it is put in between two others disturbs the word that it
is put in for. -/
theorem not_undisturbed (front rest : List (List Char × List Char)) {e' : List Char × List Char}
    (ht : IsTable (front ++ e :: rest)) (he' : e' ∈ rest) (hx : '\x7d' ∉ x) (hy : '\x7b' ∉ y)
    (hw : e'.1 <:+: x ++ (e.2 ++ y)) :
    ¬ Undisturbed (front ++ e :: rest) (x ++ (e.1 ++ y)) (x ++ (e.1 ++ y)) := by
  induction front with
  | nil =>
    have he : IsMark e.1 := ht.marks e List.mem_cons_self
    have hnone : ∀ m ∈ rest, occurrences m.1 (x ++ (e.1 ++ y)) = 0 := fun m hm => by
      rw [occurrences_around he hx hy (ht.tail.marks m hm), if_neg (ht.ne_of_mem hm).symm]
    rintro ⟨-, h⟩
    rw [replaceAll_around he hx hy he, if_pos rfl] at h
    have heq := h.occurrences_eq ht.tail (fun m hm => by rw [hnone m hm]; exact Nat.zero_le _) e' he'
    rw [hnone e' he', occurrences_eq_zero_iff (ht.tail.marks e' he').ne_nil] at heq
    exact heq hw
  | cons e₀ front ih =>
    have he : IsMark e.1 := ht.marks e (by simp)
    have hne : e₀.1 ≠ e.1 := ht.ne_of_mem (by simp)
    rintro ⟨-, h⟩
    rw [replaceAll_around he hx hy (ht.marks e₀ List.mem_cons_self), if_neg hne] at h
    exact ih ht.tail h

section Disturbed

variable (front rest : List (List Char × List Char)) {e' : List Char × List Char}
  (ht : IsTable (front ++ e :: rest)) (he' : e' ∈ rest)
include ht he'

/-- A replacement that holds a later word. -/
theorem not_undisturbed_of_holds (h : e'.1 <:+: e.2) :
    ¬ Undisturbed (front ++ e :: rest) e.1 e.1 := by
  rw [← List.append_nil e.2, ← List.nil_append (e.2 ++ [])] at h
  have := not_undisturbed front rest ht he' List.not_mem_nil List.not_mem_nil h
  rwa [List.append_nil, List.nil_append] at this

/-- A replacement that is a part of a later word: what is missing to the word stands around. -/
theorem exists_not_undisturbed (hne : e.2 ≠ []) (hopen : '\x7b' ∉ e.2) (hclose : '\x7d' ∉ e.2)
    (h : e.2 <:+: e'.1) : ∃ s, (∀ d ∈ s, d ∈ e.1 ∨ d ∈ e'.1) ∧
      ¬ Undisturbed (front ++ e :: rest) s s := by
  obtain ⟨x, y, hxy⟩ := h
  have he'' : IsMark e'.1 := ht.marks e' (by simp [he'])
  obtain ⟨hx, hy⟩ := he''.around hxy hne hopen hclose
  refine ⟨x ++ (e.1 ++ y), fun d hd => ?_, ?_⟩
  · rw [← hxy]
    simp only [List.mem_append] at hd ⊢
    tauto
  · have heq : x ++ (e.2 ++ y) = e'.1 := by rw [← List.append_assoc, hxy]
    exact not_undisturbed front rest ht he' hx hy (heq ▸ List.infix_rfl)

end Disturbed

end Testbed.Text
