import Testbed.Dependency.Basic
import Testbed.Proofs.Text.Blank

/-! The grammar of declared sources. A declaration, without the blanks around it, is the path of a
manifest behind one of two options, or a requirement: a name, a bracket group, and a constraint on one
line, with blanks between them. Reading goes from left to right and takes the longest name and as many
blanks as there are; no other way to take the text apart leads to a requirement where this one does
not. -/
namespace Testbed.Dependency

/-! ### The grammar -/

/-- A name has a letter or digit at both ends and those, dots, dashes and underscores between. -/
structure IsName (n : List Char) : Prop where
  chars : ∀ c ∈ n, isNameChar c = true
  first : ∃ c, n.head? = some c ∧ isAlnum c = true
  last : ∃ c, n.getLast? = some c ∧ isAlnum c = true

/-- Nothing, or one group in brackets. -/
def IsGroup (group : List Char) : Prop :=
  group = [] ∨ ∃ inner, ']' ∉ inner ∧ group = '[' :: inner ++ [']']

/-- A requirement in its parts: a name, a group of extras and a constraint, with blanks between
them. -/
structure Requirement where
  name : List Char
  before : List Char
  group : List Char
  after : List Char
  constraint : List Char
  isName : IsName name
  isGroup : IsGroup group
  blank : ∀ c ∈ before ++ after, Text.isBlank c = true
  line : '\n' ∉ constraint
  opens : ∀ c, constraint.head? = some c → c ∈ ['<', '>', '=', '!', '~', ';', '@', ',']

def Requirement.text (q : Requirement) : List Char :=
  q.name ++ (q.before ++ (q.group ++ (q.after ++ q.constraint)))

/-- The same parts; where there is no group, the blanks before and after it are not told apart. -/
structure Requirement.Alike (q q' : Requirement) : Prop where
  name : q.name = q'.name
  group : q.group = q'.group
  constraint : q.constraint = q'.constraint
  blanks : q.before ++ q.after = q'.before ++ q'.after
  before : q.group ≠ [] → q.before = q'.before

/-- What a declaration without blanks around it stands for. -/
inductive Declares : List Char → Dependency → Prop
  | long {signs rest path : List Char} (hsigns : ∀ c ∈ signs, c = '=') (hrest : rest.head? ≠ some '=')
      (hpath : Text.Trims rest path) (hne : path ≠ []) :
      Declares ("--requirement".toList ++ (signs ++ rest)) (.manifest ⟨String.ofList path⟩)
  | short {rest path : List Char} (hpath : Text.Trims rest path) (hne : path ≠ []) :
      Declares ("-r".toList ++ rest) (.manifest ⟨String.ofList path⟩)
  | package (q : Requirement) :
      Declares q.text (.package (normalizeName (String.ofList q.name)) (String.ofList q.text))

/-- A package is declared by a requirement. -/
theorem Declares.requirement {t : List Char} {name requirement : String}
    (h : Declares t (.package name requirement)) :
    ∃ q : Requirement, name = normalizeName (String.ofList q.name) ∧ t = q.text ∧
      requirement = String.ofList t := by
  cases h with
  | package q => exact ⟨q, rfl, rfl, rfl⟩

/-! ### Characters -/

/-- The characters of names are all ASCII. -/
theorem toNat_of_isNameChar {c : Char} (h : isNameChar c = true) : c.toNat < 128 := by
  simp only [isNameChar, isAlnum, isSeparator, Bool.or_eq_true, Bool.and_eq_true,
    decide_eq_true_eq] at h
  rcases h with ((⟨-, h⟩ | ⟨-, h⟩) | ⟨-, h⟩) | (rfl | rfl) | rfl
  · exact Nat.lt_of_le_of_lt h (by decide : 'Z'.toNat < 128)
  · exact Nat.lt_of_le_of_lt h (by decide : 'z'.toNat < 128)
  · exact Nat.lt_of_le_of_lt h (by decide : '9'.toNat < 128)
  all_goals decide

theorem isBlank_of_isNameChar {c : Char} (h : isNameChar c = true) : Text.isBlank c = false := by
  have hall : ∀ n < 128, isNameChar (Char.ofNat n) = true → Text.isBlank (Char.ofNat n) = false := by
    decide
  simpa using hall c.toNat (toNat_of_isNameChar h) (by simpa using h)

theorem opensConstraint_iff {c : Char} :
    opensConstraint c = true ↔ c ∈ ['<', '>', '=', '!', '~', ';', '@', ','] := by
  simp [opensConstraint, or_assoc]

theorem isNameChar_of_isBlank {c : Char} (h : Text.isBlank c = true) : isNameChar c = false := by
  by_contra hname
  rw [isBlank_of_isNameChar (Bool.not_eq_false _ ▸ hname)] at h
  cases h

theorem isNameChar_of_isAlnum {c : Char} (h : isAlnum c = true) : isNameChar c = true := by
  rw [isNameChar, h, Bool.true_or]

/-- What opens a constraint is no part of a name, no blank and no bracket. -/
theorem opens_apart {c : Char} (h : c ∈ ['<', '>', '=', '!', '~', ';', '@', ',']) :
    isNameChar c = false ∧ Text.isBlank c = false ∧ c ≠ '[' := by
  simp only [List.mem_cons, List.not_mem_nil, or_false] at h
  rcases h with rfl | rfl | rfl | rfl | rfl | rfl | rfl | rfl
  all_goals decide

/-! ### Parts of a requirement -/

theorem nameOf_eq (s : List Char) :
    nameOf s = (s.takeWhile isNameChar).rdropWhile (fun c => !isAlnum c) := rfl

theorem nameOf_begins (s : List Char) : nameOf s <+: s :=
  (List.rdropWhile_prefix _ _).trans (List.takeWhile_prefix _)

theorem isName_nameOf {c : Char} {s : List Char} (hc : isAlnum c = true) : IsName (nameOf (c :: s)) := by
  have hrun : (c :: s).takeWhile isNameChar = c :: s.takeWhile isNameChar :=
    List.takeWhile_cons_of_pos (isNameChar_of_isAlnum hc)
  have hne : nameOf (c :: s) ≠ [] := by
    rw [nameOf_eq, hrun]
    intro hnil
    have := List.rdropWhile_eq_nil_iff.1 hnil c List.mem_cons_self
    simp [hc] at this
  refine ⟨fun d hd => ?_, ⟨c, ?_, hc⟩, ⟨_, List.getLast?_eq_some_getLast hne, ?_⟩⟩
  · exact List.mem_takeWhile_imp ((List.rdropWhile_prefix _ _).subset hd)
  · obtain ⟨rest, hrest⟩ := nameOf_begins (c :: s)
    have hhead := congrArg List.head? hrest
    rwa [List.head?_append_of_ne_nil _ hne] at hhead
  · have hlast := List.rdropWhile_last_not (fun c => !isAlnum c) _ hne
    rwa [Bool.not_eq_true', Bool.not_eq_false] at hlast

theorem nameOf_append {n r : List Char} (hn : IsName n)
    (hr : ∀ c, r.head? = some c → isNameChar c = false) : nameOf (n ++ r) = n := by
  rw [nameOf_eq, Text.takeWhile_run hn.chars hr, List.rdropWhile_eq_self_iff]
  intro hne
  obtain ⟨c, hlast, hc⟩ := hn.last
  obtain rfl : n.getLast hne = c := by simpa [List.getLast?_eq_some_getLast hne] using hlast
  simp [hc]

theorem exists_afterGroup (s : List Char) : ∃ group, IsGroup group ∧ s = group ++ afterGroup s := by
  unfold afterGroup
  split
  next r =>
    split
    next c rest h =>
      have hc : c = ']' := by
        have hfirst : (r.dropWhile (· ≠ ']')).head? = some c := by rw [h]; rfl
        simpa using Text.head?_dropWhile hfirst
      subst hc
      refine ⟨'[' :: r.takeWhile (· ≠ ']') ++ [']'], .inr ⟨_, fun hmem => ?_, rfl⟩, ?_⟩
      · simpa using List.mem_takeWhile_imp hmem
      · rw [List.append_assoc, List.singleton_append, ← h, List.cons_append,
          List.takeWhile_append_dropWhile]
    next => exact ⟨[], .inl rfl, rfl⟩
  next => exact ⟨[], .inl rfl, rfl⟩

theorem afterGroup_closed {inner : List Char} (h : ']' ∉ inner) (r : List Char) :
    afterGroup ('[' :: inner ++ [']'] ++ r) = r := by
  have hrest : (inner ++ ']' :: r).dropWhile (· ≠ ']') = ']' :: r := by
    refine Text.dropWhile_run (fun c hc => ?_) (by simp)
    exact decide_eq_true fun heq => h (heq ▸ hc)
  rw [List.append_assoc, List.singleton_append, List.cons_append, afterGroup]
  simp only [hrest]

theorem afterGroup_of_head {s : List Char} (h : s.head? ≠ some '[') : afterGroup s = s := by
  unfold afterGroup
  split
  · exact absurd rfl h
  · rfl

theorem constraintOf_append {n r : List Char} (hn : IsName n)
    (hr : ∀ c, r.head? = some c → isNameChar c = false) :
    constraintOf (n ++ r) = Text.trimStart (afterGroup (Text.trimStart r)) := by
  rw [constraintOf, nameOf_append hn hr, List.drop_left]

namespace Requirement

variable (q : Requirement)

/-- What stands behind the name. -/
def rest : List Char := q.before ++ (q.group ++ (q.after ++ q.constraint))

theorem text_eq : q.text = q.name ++ q.rest := rfl

theorem blank_before : ∀ c ∈ q.before, Text.isBlank c = true := fun c hc =>
  q.blank c (List.mem_append_left _ hc)

theorem blank_after : ∀ c ∈ q.after, Text.isBlank c = true := fun c hc =>
  q.blank c (List.mem_append_right _ hc)

theorem constraint_head {c : Char} (h : q.constraint.head? = some c) :
    isNameChar c = false ∧ Text.isBlank c = false ∧ c ≠ '[' :=
  opens_apart (q.opens c h)

theorem rest_head : ∀ c, q.rest.head? = some c → isNameChar c = false := by
  intro c hc
  simp only [rest, List.head?_append, Option.or_eq_some_iff] at hc
  rcases hc with hc | ⟨-, hc | ⟨-, hc | ⟨-, hc⟩⟩⟩
  · exact isNameChar_of_isBlank (q.blank_before c (List.mem_of_head? hc))
  · rcases q.isGroup with h | ⟨inner, -, h⟩
    · rw [h] at hc
      cases hc
    · rw [h] at hc
      cases hc
      decide
  · exact isNameChar_of_isBlank (q.blank_after c (List.mem_of_head? hc))
  · exact (q.constraint_head hc).1

theorem nameOf_text : nameOf q.text = q.name := nameOf_append q.isName q.rest_head

theorem constraintOf_text : constraintOf q.text = q.constraint := by
  have hblank : ∀ c, q.constraint.head? = some c → Text.isBlank c = false :=
    fun c hc => (q.constraint_head hc).2.1
  rw [text_eq, constraintOf_append q.isName q.rest_head, rest]
  rcases q.isGroup with h | ⟨inner, hinner, h⟩
  · have hopen : q.constraint.head? ≠ some '[' := fun hc => (q.constraint_head hc).2.2 rfl
    rw [h, List.nil_append, ← List.append_assoc, Text.trimStart_run q.blank hblank,
      afterGroup_of_head hopen]
    exact Text.dropWhile_of_head hblank
  · have hgroup : ∀ c, (q.group ++ (q.after ++ q.constraint)).head? = some c →
        Text.isBlank c = false := by
      rw [h]
      rintro c ⟨⟩
      decide
    rw [Text.trimStart_run q.blank_before hgroup, h, afterGroup_closed hinner,
      Text.trimStart_run q.blank_after hblank]

theorem exists_text : ∃ c s, q.text = c :: s ∧ isAlnum c = true := by
  obtain ⟨c, hhead, hc⟩ := q.isName.first
  obtain ⟨s, hs⟩ := List.head?_eq_some_iff.1 hhead
  exact ⟨c, s ++ q.rest, by rw [text_eq, hs, List.cons_append], hc⟩

theorem requirementName?_text : requirementName? q.text = some q.name := by
  obtain ⟨c, s, hs, hc⟩ := q.exists_text
  have hline : (constraintOf (c :: s)).contains '\n' = false := by
    rw [← hs, q.constraintOf_text]
    simpa using q.line
  rw [hs, requirementName?, hc, hline, ← hs, nameOf_text]
  rfl

theorem isConstraint_text : isConstraint (constraintOf q.text) = true := by
  rw [constraintOf_text, isConstraint.eq_def]
  split
  · rfl
  next c _ h => exact opensConstraint_iff.2 (q.opens c (by rw [h]; rfl))

end Requirement

/-- Whatever stands behind the name, blanks and a group come off it before the constraint. -/
theorem exists_parts (s : List Char) : ∃ before group after,
    (∀ c ∈ before ++ after, Text.isBlank c = true) ∧ IsGroup group ∧
      s = nameOf s ++ (before ++ (group ++ (after ++ constraintOf s))) := by
  obtain ⟨rest, hrest⟩ : ∃ rest, rest = s.drop (nameOf s).length := ⟨_, rfl⟩
  have hname : nameOf s ++ rest = s := hrest ▸ List.prefix_iff_eq_append.1 (nameOf_begins s)
  obtain ⟨group, hgroup, hafter⟩ := exists_afterGroup (Text.trimStart rest)
  refine ⟨rest.takeWhile Text.isBlank, group,
    (afterGroup (Text.trimStart rest)).takeWhile Text.isBlank, fun c hc => ?_, hgroup, ?_⟩
  · rcases List.mem_append.1 hc with hc | hc
    · exact List.mem_takeWhile_imp hc
    · exact List.mem_takeWhile_imp hc
  · have hconstraint : (afterGroup (Text.trimStart rest)).takeWhile Text.isBlank ++ constraintOf s =
        afterGroup (Text.trimStart rest) := by
      rw [constraintOf, ← hrest]
      exact List.takeWhile_append_dropWhile
    have hbefore : rest.takeWhile Text.isBlank ++ Text.trimStart rest = rest :=
      List.takeWhile_append_dropWhile
    rw [hconstraint, ← hafter, hbefore, hname]

/-- What is read as a requirement can be taken apart. -/
theorem exists_requirement {s name : List Char} (hname : requirementName? s = some name)
    (hc : isConstraint (constraintOf s) = true) : ∃ q : Requirement, q.text = s ∧ q.name = name := by
  unfold requirementName? at hname
  split at hname
  next c r =>
    split at hname
    next hchecks =>
      rw [Bool.and_eq_true, Bool.not_eq_true'] at hchecks
      obtain ⟨before, group, after, hblank, hgroup, hs⟩ := exists_parts (c :: r)
      refine ⟨⟨nameOf (c :: r), before, group, after, constraintOf (c :: r),
        isName_nameOf hchecks.1, hgroup, hblank, by simpa using hchecks.2, fun d hd => ?_⟩, hs.symm,
        Option.some.inj hname⟩
      obtain ⟨rest, hrest⟩ := List.head?_eq_some_iff.1 hd
      rw [hrest] at hc
      exact opensConstraint_iff.1 hc
    next => cases hname
  next => cases hname

/-! ### One way to take a requirement apart -/

namespace Requirement

variable {q q' : Requirement}

theorem group_eq_nil_iff : q.group = [] ↔ '[' ∉ q.before ++ (q.group ++ q.after) := by
  have hbracket : Text.isBlank '[' = false := rfl
  have hblank : '[' ∉ q.before ++ q.after := fun hmem => by
    rw [q.blank _ hmem] at hbracket
    cases hbracket
  rcases q.isGroup with h | ⟨inner, -, h⟩
  · simpa [h] using hblank
  · simp [h]

theorem alike_of_text_eq (h : q.text = q'.text) : q.Alike q' := by
  have hname : q.name = q'.name := by rw [← q.nameOf_text, h, nameOf_text]
  have hconstraint : q.constraint = q'.constraint := by
    rw [← q.constraintOf_text, h, constraintOf_text]
  have hmiddle : q.before ++ (q.group ++ q.after) = q'.before ++ (q'.group ++ q'.after) := by
    apply (List.append_left_inj q.constraint).1
    apply (List.append_right_inj q.name).1
    simpa [text, hname, hconstraint] using h
  have hgroups : q.group = [] ↔ q'.group = [] := by
    rw [group_eq_nil_iff, group_eq_nil_iff, hmiddle]
  rcases q.isGroup with hq | ⟨inner, hinner, hq⟩
  · have hq' := hgroups.1 hq
    refine ⟨hname, hq.trans hq'.symm, hconstraint, ?_, fun hne => absurd hq hne⟩
    simpa [hq, hq'] using hmiddle
  · obtain ⟨inner', hinner', hq'⟩ : ∃ inner, ']' ∉ inner ∧ q'.group = '[' :: inner ++ [']'] :=
      q'.isGroup.resolve_left fun hnil => by simp [hgroups.2 hnil] at hq
    have hopen (q : Requirement) {inner : List Char} (hq : q.group = '[' :: inner ++ [']']) :
        ∀ c, (q.group ++ q.after).head? = some c → Text.isBlank c = false := by
      rw [hq]
      rintro c ⟨⟩
      decide
    -- The first bracket ends a run of blanks, and the second one a run of other characters.
    obtain ⟨hbefore, hrest⟩ :=
      Text.run_inj q.blank_before q'.blank_before (hopen q hq) (hopen q' hq') hmiddle
    have hclosed : inner ++ ']' :: q.after = inner' ++ ']' :: q'.after := by
      simpa [hq, hq'] using hrest
    obtain ⟨rfl, hafter⟩ := Text.run_inj (p := (· ≠ ']')) (fun c hc => by
      exact decide_eq_true fun heq => hinner (heq ▸ hc)) (fun c hc => by
      exact decide_eq_true fun heq => hinner' (heq ▸ hc)) (by simp) (by simp) hclosed
    refine ⟨hname, hq.trans hq'.symm, hconstraint, ?_, fun _ => hbefore⟩
    rw [hbefore, List.tail_eq_of_cons_eq hafter]

theorem text_eq_of_alike (h : q.Alike q') : q.text = q'.text := by
  rw [text, text, h.name, h.constraint]
  by_cases hgroup : q.group = []
  · have hgroup' : q'.group = [] := h.group ▸ hgroup
    rw [hgroup, hgroup', List.nil_append, List.nil_append, ← List.append_assoc q.before, h.blanks,
      List.append_assoc]
  · have hbefore := h.before hgroup
    have hafter : q.after = q'.after := List.append_cancel_left (hbefore ▸ h.blanks)
    rw [hbefore, h.group, hafter]

theorem text_eq_iff : q.text = q'.text ↔ q.Alike q' := ⟨alike_of_text_eq, text_eq_of_alike⟩

end Requirement

/-! ### Manifests -/

theorem manifestPath?_long {signs rest : List Char} (hsigns : ∀ c ∈ signs, c = '=')
    (hrest : rest.head? ≠ some '=') :
    manifestPath? ("--requirement".toList ++ (signs ++ rest)) = some (Text.trim rest) := by
  have hprefix : longOption.isPrefixOf ("--requirement".toList ++ (signs ++ rest)) = true :=
    List.isPrefixOf_iff_prefix.2 (List.prefix_append _ _)
  have hdrop : ("--requirement".toList ++ (signs ++ rest)).drop longOption.length = signs ++ rest :=
    List.drop_left
  have hrun : (signs ++ rest).dropWhile (· = '=') = rest := by
    apply Text.dropWhile_run
    · simpa using hsigns
    · rintro c hc
      exact decide_eq_false fun heq => hrest (heq ▸ hc)
  rw [manifestPath?, if_pos hprefix, hdrop, hrun]

theorem manifestPath?_short (rest : List Char) :
    manifestPath? ("-r".toList ++ rest) = some (Text.trim rest) := rfl

/-- Both options begin with a dash, and no requirement does. -/
theorem manifestPath?_alnum {c : Char} (hc : isAlnum c = true) (s : List Char) :
    manifestPath? (c :: s) = none := by
  have hnot {option : List Char} (ho : option.head? = some '-') :
      option.isPrefixOf (c :: s) = false := by
    rw [Bool.eq_false_iff, ne_eq, List.isPrefixOf_iff_prefix]
    rintro ⟨rest, hrest⟩
    obtain ⟨letters, rfl⟩ := List.head?_eq_some_iff.1 ho
    obtain ⟨rfl, -⟩ := List.cons.inj hrest
    cases hc
  rw [manifestPath?, hnot rfl, hnot rfl]
  rfl

theorem declares_of_manifestPath? {s path : List Char} (h : manifestPath? s = some path)
    (hne : path ≠ []) : Declares s (.manifest ⟨String.ofList path⟩) := by
  unfold manifestPath? at h
  split at h
  next hlong =>
    obtain ⟨rest, rfl⟩ := List.isPrefixOf_iff_prefix.1 hlong
    rw [List.drop_left] at h
    have hsplit : rest.takeWhile (· = '=') ++ rest.dropWhile (· = '=') = rest :=
      List.takeWhile_append_dropWhile
    rw [← hsplit]
    refine .long (fun c hc => by simpa using List.mem_takeWhile_imp hc) (fun hhead => ?_)
      (Text.trim_eq_iff.1 (Option.some.inj h)) hne
    simpa using Text.head?_dropWhile hhead
  next =>
    split at h
    next hshort =>
      obtain ⟨rest, rfl⟩ := List.isPrefixOf_iff_prefix.1 hshort
      rw [List.drop_left] at h
      exact .short (Text.trim_eq_iff.1 (Option.some.inj h)) hne
    next => cases h

/-! ### Reading -/

theorem declares_of_parse? {raw : String} {source : Dependency} (h : parse? raw = some source) :
    Declares (Text.trim raw.toList) source := by
  unfold parse? at h
  dsimp only at h
  split at h
  next => cases h
  next path hne hpath =>
    cases h
    exact declares_of_manifestPath? hpath hne
  next =>
    split at h
    next name hname =>
      split at h
      next hc =>
        cases h
        obtain ⟨q, hq, rfl⟩ := exists_requirement hname hc
        have hpackage := Declares.package q
        rw [hq] at hpackage
        rwa [normalizeName, String.toList_ofList] at hpackage
      next => cases h
    next => cases h

theorem parse?_of_declares {raw : String} {source : Dependency}
    (h : Declares (Text.trim raw.toList) source) : parse? raw = some source := by
  unfold parse?
  generalize Text.trim raw.toList = t at h
  cases h with
  | @long signs rest path hsigns hrest hpath hne =>
    obtain ⟨c, letters, rfl⟩ := List.exists_cons_of_ne_nil hne
    dsimp only
    rw [manifestPath?_long hsigns hrest, Text.trim_eq_iff.2 hpath]
  | @short rest path hpath hne =>
    obtain ⟨c, letters, rfl⟩ := List.exists_cons_of_ne_nil hne
    dsimp only
    rw [manifestPath?_short, Text.trim_eq_iff.2 hpath]
  | package q =>
    obtain ⟨c, s, hs, hc⟩ := q.exists_text
    have hnone : manifestPath? q.text = none := hs ▸ manifestPath?_alnum hc s
    dsimp only
    rw [hnone, q.requirementName?_text, normalizeName, String.toList_ofList]
    exact if_pos q.isConstraint_text

theorem parse?_eq_some_iff {raw : String} {source : Dependency} :
    parse? raw = some source ↔ Declares (Text.trim raw.toList) source :=
  ⟨declares_of_parse?, parse?_of_declares⟩

/-- A source is read just when what is left of the text without the blanks around it is of one of
three forms: the path of a manifest behind either option, or a requirement, which begins with
neither. A requirement is taken apart in one way only, up to where in a run of blanks a missing group
would stand. -/
theorem parse?_accepts_grammar :
    (∀ raw source, parse? raw = some source ↔
      ∃ t, Text.Trims raw.toList t ∧ Declares t source) ∧
      ∀ q q' : Requirement, q.text = q'.text ↔ q.Alike q' := by
  refine ⟨fun raw source => ?_, fun q q' => Requirement.text_eq_iff⟩
  rw [parse?_eq_some_iff]
  constructor
  · intro h
    exact ⟨_, Text.trims_trim _, h⟩
  · rintro ⟨t, ht, h⟩
    rwa [Text.trim_eq_iff.2 ht]

end Testbed.Dependency
