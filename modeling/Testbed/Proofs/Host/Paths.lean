import Testbed.Path
import Testbed.Proofs.Host.Walk
import Testbed.Proofs.Text.Pieces

/-! Paths behind a directory. A path that is joined with a name is the same way with one more name
at its end, so all paths behind a directory lead past it to what stands there. -/
namespace Testbed

namespace Host

/-- A name that can stand between two separators, `.` and `..` among them. -/
structure IsPiece (name : String) : Prop where
  ne_empty : name ≠ ""
  no_slash : '/' ∉ name.toList
  no_nul : Char.ofNat 0 ∉ name.toList

variable {name other : String}

/-- A name that a file can have. -/
structure IsName (name : String) : Prop where
  piece : IsPiece name
  plain : Tree.IsPlain name
  size : name.utf8ByteSize ≤ Tree.maxName

/-- Names of directories lead one below the other. -/
theorem Tree.walk_directories {t : Tree} {followLast : Bool} {links : Nat} {loc : Location}
    {names rest : List String} (hnames : ∀ name ∈ names, IsName name)
    (hdirs : ∀ place, loc <+: place → place <+: loc ++ names → t.get? place = some .directory) :
    t.walk followLast links loc (names ++ rest) = t.walk followLast links (loc ++ names) rest := by
  induction names generalizing loc with
  | nil => rw [List.nil_append, List.append_nil]
  | cons name names ih =>
    obtain ⟨hname, hnames⟩ := List.forall_mem_cons.1 hnames
    have hhere := hdirs loc (List.prefix_refl _) (List.prefix_append _ _)
    have hnext := hdirs (loc ++ [name]) (List.prefix_append _ _) (by simp)
    rw [List.cons_append, walk_plain hhere hname.plain hname.size, hnext]
    dsimp only
    rw [ih hnames fun place hle hp => ?_, List.append_assoc, List.singleton_append]
    refine hdirs place ((List.prefix_append _ _).trans hle) ?_
    rwa [List.append_assoc, List.singleton_append] at hp

theorem IsPiece.here : IsPiece "." := ⟨by decide, by decide, by decide⟩

theorem IsPiece.toList_ne_nil (h : IsPiece name) : name.toList ≠ [] := by
  simpa using h.ne_empty

theorem IsPiece.head_ne (h : IsPiece name) : name.toList.head? ≠ some '/' := fun hc =>
  h.no_slash (List.mem_of_head? hc)

theorem IsPiece.getLast_ne (h : IsPiece name) : name.toList.getLast? ≠ some '/' := fun hc =>
  h.no_slash (List.mem_of_getLast? hc)

/-! ### Joined paths -/

/-- The text before a name that is joined to a path, its separator included. -/
def lead (base : Path) : List Char :=
  if base.text.toList.isEmpty || base.text.toList.getLast? = some '/' then base.text.toList
  else base.text.toList ++ ['/']

theorem toList_join (base : Path) (h : IsPiece name) :
    (base.join name).text.toList = lead base ++ name.toList := by
  rw [Path.join, if_neg h.head_ne, lead]
  split <;> simp

theorem isEmpty_join (base : Path) (h : IsPiece name) : (base.join name).text.isEmpty = false := by
  have hne : (base.join name).text ≠ "" := fun he => by
    have hnil := toList_join base h
    rw [he] at hnil
    simp [h.ne_empty] at hnil
  simpa using hne

/-- Before a joined name stands nothing, or a separator. -/
theorem lead_cases (base : Path) : lead base = [] ∨ ∃ cs, lead base = cs ++ ['/'] := by
  unfold lead
  split
  next h =>
    rcases Bool.or_eq_true_iff.1 h with hnil | hlast
    · exact .inl (by simpa using hnil)
    · exact .inr (List.getLast?_eq_some_iff.1 (by simpa using hlast))
  next => exact .inr ⟨_, rfl⟩

theorem head?_lead_append (base : Path) (h : IsPiece name) :
    (lead base ++ name.toList).head? = some '/' ↔ (lead base).head? = some '/' := by
  rcases lead_cases base with hl | ⟨cs, hl⟩
  · simp [hl, h.head_ne]
  · rw [hl]
    cases cs <;> simp

theorem lead_join (base : Path) (h : IsPiece name) :
    lead (base.join name) = lead base ++ name.toList ++ ['/'] := by
  have hlast : (lead base ++ name.toList).getLast? ≠ some '/' := by
    rw [List.getLast?_append]
    cases hl : name.toList.getLast? with
    | none => exact absurd (List.getLast?_eq_none_iff.1 hl) h.toList_ne_nil
    | some c => exact fun hc => h.getLast_ne (hl.trans hc)
  have hne : (lead base ++ name.toList).isEmpty = false := by simp [h.ne_empty]
  rw [lead, toList_join base h, hne]
  simp only [hlast, decide_false, Bool.or_self, Bool.false_eq_true, if_false]

theorem pieces_append_slash (s s' : List Char) :
    Text.pieces (· == '/') (s ++ '/' :: s') =
      Text.pieces (· == '/') s ++ Text.pieces (· == '/') s' :=
  Text.pieces_append_cut rfl s s'

theorem isAbsolute_join_iff (base : Path) (h : IsPiece name) :
    (base.join name).isAbsolute = base.isAbsolute := by
  have hlead : (lead base).head? = some '/' ↔ base.text.toList.head? = some '/' := by
    unfold lead
    split
    · rfl
    next hcond =>
      cases hl : base.text.toList with
      | nil => simp [hl] at hcond
      | cons => simp
  rw [Path.isAbsolute, Path.isAbsolute, toList_join base h, Bool.eq_iff_iff, decide_eq_true_iff,
    decide_eq_true_iff, head?_lead_append base h, hlead]

/-- The pieces of a path do not change where a name is joined to it, but for an empty one at its
end. -/
theorem pieces_join (base : Path) (h : IsPiece name) :
    ∃ front, (Text.pieces (· == '/') base.text.toList = front ∧ front ≠ [] ∨
        Text.pieces (· == '/') base.text.toList = front ++ [[]]) ∧
      Text.pieces (· == '/') (base.join name).text.toList = front ++ [name.toList] := by
  have hone : Text.pieces (· == '/') name.toList = [name.toList] :=
    Text.pieces_of_not_mem h.no_slash
  have hslash (cs : List Char) : Text.pieces (· == '/') (cs ++ ['/'] ++ name.toList) =
      Text.pieces (· == '/') cs ++ [name.toList] := by
    rw [List.append_assoc, List.singleton_append, pieces_append_slash, hone]
  rw [toList_join base h, lead]
  split
  next hcond =>
    rcases Bool.or_eq_true_iff.1 hcond with hempty | hlast
    · have htext : base.text.toList = [] := by simpa using hempty
      exact ⟨[], .inr (by rw [htext]; rfl), by rw [htext, List.nil_append, hone]; rfl⟩
    · obtain ⟨cs, hcs⟩ := List.getLast?_eq_some_iff.1 (by simpa using hlast)
      rw [hcs]
      exact ⟨_, .inr (pieces_append_slash cs []), hslash cs⟩
  next => exact ⟨_, .inl ⟨rfl, Text.pieces_ne_nil _⟩, hslash _⟩

/-- A name that is joined to a path is one component more. -/
theorem components_join (base : Path) (h : IsPiece name) (hp : Tree.IsPlain name) :
    (base.join name).components = base.components ++ [.name name.toList] := by
  have hname : Path.Component.ofPiece? name.toList = some (.name name.toList) := by
    unfold Path.Component.ofPiece?
    split
    next heq => exact absurd heq h.toList_ne_nil
    next heq => exact absurd (String.toList_injective heq) hp.ne_here
    next heq => exact absurd (String.toList_injective heq) hp.ne_up
    next => rfl
  have hnil : Path.Component.ofPiece? [] = none := rfl
  have hdot : name.toList ≠ ['.'] := fun heq => hp.ne_here (String.toList_injective heq)
  obtain ⟨front, hbase, hjoin⟩ := pieces_join base h
  have hhead : (front ++ [name.toList]).head? = some ['.'] ↔
      (Text.pieces (· == '/') base.text.toList).head? = some ['.'] := by
    cases front <;> rcases hbase with ⟨hbase, hne⟩ | hbase <;> simp_all
  have hmap : (Text.pieces (· == '/') base.text.toList).filterMap Path.Component.ofPiece? =
      front.filterMap Path.Component.ofPiece? := by
    rcases hbase with ⟨hbase, -⟩ | hbase <;> simp [hbase, hnil]
  simp only [Path.components, isAbsolute_join_iff base h, hjoin, hhead, hmap, List.filterMap_append,
    List.filterMap_cons, hname, List.filterMap_nil, List.append_assoc]

/-- The names on the way to a directory. -/
def stem (base : Path) : List String :=
  ((Text.pieces (· == '/') (lead base)).map String.ofList).dropLast

theorem namesOf_join (base : Path) (h : IsPiece name) :
    Tree.namesOf (base.join name).text = stem base ++ [name] := by
  have hone : Text.pieces (· == '/') name.toList = [name.toList] :=
    Text.pieces_of_not_mem h.no_slash
  rw [Tree.namesOf, toList_join base h, stem]
  rcases lead_cases base with hl | ⟨cs, hl⟩
  · rw [hl, List.nil_append, hone]
    simp [Text.pieces]
  · rw [hl, List.append_assoc, List.singleton_append, pieces_append_slash, pieces_append_slash, hone]
    simp [Text.pieces]

theorem stem_join (base : Path) (h : IsPiece name) : stem (base.join name) = stem base ++ [name] := by
  have hnames := namesOf_join base h
  rw [Tree.namesOf, toList_join base h] at hnames
  rw [stem, lead_join base h, pieces_append_slash, List.map_append, hnames]
  simp [Text.pieces]

/-- Where a walk along the path begins. -/
def origin (cwd : Location) (base : Path) : Location :=
  if (lead base).head? = some '/' then [] else cwd

theorem follow_join (t : Tree) (followLast : Bool) (cwd : Location) (base : Path) (h : IsPiece name) :
    t.follow followLast cwd (base.join name).text =
      if Char.ofNat 0 ∈ lead base then .failed .nulInPath
      else t.walk followLast Tree.maxLinks (origin cwd base) (stem base ++ [name]) := by
  have hnul : (base.join name).text.toList.contains (Char.ofNat 0) = true ↔
      Char.ofNat 0 ∈ lead base := by
    rw [toList_join base h, List.contains_iff_mem, List.mem_append]
    exact or_iff_left h.no_nul
  have hhead : (base.join name).text.toList.head? = some '/' ↔ (lead base).head? = some '/' := by
    rw [toList_join base h, head?_lead_append base h]
  rw [Tree.follow, namesOf_join base h, origin]
  simp only [hnul, isEmpty_join base h, hhead, if_false, Bool.false_eq_true]

/-! ### Behind a directory -/

/-- How paths behind a base lead on from a place, with so many links left. -/
structure Behind (t : Tree) (cwd : Location) (base : Path) (place : Location) (left : Nat) : Prop where
  here : t.get? place = some .directory
  one : ∀ followLast {name}, IsPiece name →
    t.follow followLast cwd (base.join name).text = t.walk followLast left place [name]
  two : ∀ followLast {name other}, IsPiece name → IsPiece other →
    t.follow followLast cwd ((base.join name).join other).text =
      t.walk followLast left place [name, other]

theorem mem_lead_join (base : Path) (h : IsPiece name) :
    Char.ofNat 0 ∈ lead (base.join name) ↔ Char.ofNat 0 ∈ lead base := by
  have hne : Char.ofNat 0 ≠ '/' := by decide
  rw [lead_join base h]
  simp [h.no_nul, hne]

theorem origin_join (cwd : Location) (base : Path) (h : IsPiece name) :
    origin cwd (base.join name) = origin cwd base := by
  have hhead : (lead (base.join name)).head? = some '/' ↔ (lead base).head? = some '/' := by
    rw [lead_join base h, ← head?_lead_append base h, List.head?_append]
    cases hl : (lead base ++ name.toList).head? with
    | none => simp [h.ne_empty] at hl
    | some c => rfl
  simp only [origin, hhead]

/-- A path leads to a directory and all paths behind it past that, or none of them leads
anywhere. -/
theorem behind_or_failed (t : Tree) (cwd : Location) (base : Path) :
    (∃ place left, Behind t cwd base place left) ∨
      ∃ cause, ∀ followLast {name}, IsPiece name →
        t.follow followLast cwd (base.join name).text = .failed cause ∧
        ∀ {other}, IsPiece other →
          t.follow followLast cwd ((base.join name).join other).text = .failed cause := by
  by_cases hnul : Char.ofNat 0 ∈ lead base
  · refine .inr ⟨.nulInPath, fun fl name hn => ⟨?_, fun {other} ho => ?_⟩⟩
    · rw [follow_join t fl cwd base hn, if_pos hnul]
    · rw [follow_join t fl cwd _ ho, if_pos ((mem_lead_join base hn).2 hnul)]
  · have hone (fl : Bool) {name : String} (hn : IsPiece name) :
        t.follow fl cwd (base.join name).text =
          t.walk fl Tree.maxLinks (origin cwd base) (stem base ++ [name]) := by
      rw [follow_join t fl cwd base hn, if_neg hnul]
    have htwo (fl : Bool) {name other : String} (hn : IsPiece name) (ho : IsPiece other) :
        t.follow fl cwd ((base.join name).join other).text =
          t.walk fl Tree.maxLinks (origin cwd base) (stem base ++ [name, other]) := by
      rw [follow_join t fl cwd _ ho, if_neg (mt (mem_lead_join base hn).1 hnul),
        origin_join cwd base hn, stem_join base hn, List.append_assoc, List.singleton_append]
    cases Tree.leads t Tree.maxLinks (origin cwd base) (stem base) with
    | there place left hp hw =>
      refine .inl ⟨place, left, hp, fun fl name hn => ?_, fun fl name other hn ho => ?_⟩
      · rw [hone fl hn, hw fl [name] (by simp)]
      · rw [htwo fl hn ho, hw fl [name, other] (by simp)]
    | nowhere cause hw =>
      refine .inr ⟨cause, fun fl name hn => ⟨?_, fun {other} ho => ?_⟩⟩
      · rw [hone fl hn, hw fl name [] hn.ne_empty]
      · rw [htwo fl hn ho, hw fl name [other] hn.ne_empty]

theorem Behind.follow_here {t : Tree} {cwd : Location} {base : Path} {place : Location} {left : Nat}
    (h : Behind t cwd base place left) (followLast : Bool) :
    t.follow followLast cwd (base.join ".").text = .found place .directory := by
  rw [h.one followLast .here, Tree.walk_stay h.here (.inr rfl), Tree.walk_nil h.here]

theorem behind_of_found {t : Tree} {followLast : Bool} {cwd : Location} {base : Path}
    {place : Location} {entry : Entry}
    (h : t.follow followLast cwd (base.join ".").text = .found place entry) :
    ∃ left, Behind t cwd base place left := by
  rcases behind_or_failed t cwd base with ⟨place', left, hb⟩ | ⟨cause, hf⟩
  · rw [hb.follow_here] at h
    cases h
    exact ⟨left, hb⟩
  · rw [(hf followLast .here).1] at h
    cases h

end Host

end Testbed
