import Testbed.Proofs.Host.Tree

/-! Walking a path, one name at a time. Paths that differ in their last names alone part only where
these begin: what stands before leads all of them to the same directory, or none of them
anywhere. -/
namespace Testbed.Host.Tree

variable {t : Tree} {followLast : Bool} {links : Nat} {loc : Location} {name : String}
  {rest : List String}

/-! ### One name -/

theorem walk_missing (h : t.get? loc = none) (names : List String) :
    t.walk followLast links loc names = .failed .notFound := by
  rw [walk, h]

theorem walk_nil {here : Entry} (h : t.get? loc = some here) :
    t.walk followLast links loc [] = .found loc here := by
  rw [walk, h]

theorem walk_notDirectory {here : Entry} (h : t.get? loc = some here) (hd : here ≠ .directory) :
    t.walk followLast links loc (name :: rest) = .failed .notDirectory := by
  rw [walk, h]
  simp [hd]

theorem walk_stay (h : t.get? loc = some .directory) (hn : name = "" ∨ name = ".") :
    t.walk followLast links loc (name :: rest) = t.walk followLast links loc rest := by
  rw [walk, h]
  simp [hn]

theorem walk_up (h : t.get? loc = some .directory) :
    t.walk followLast links loc (".." :: rest) = t.walk followLast links loc.dropLast rest := by
  rw [walk, h]
  simp

/-- A name of something, rather than of the way there. -/
structure IsPlain (name : String) : Prop where
  ne_empty : name ≠ ""
  ne_here : name ≠ "."
  ne_up : name ≠ ".."

theorem walk_long (h : t.get? loc = some .directory) (hn : IsPlain name)
    (hl : maxName < name.utf8ByteSize) :
    t.walk followLast links loc (name :: rest) = .failed .nameTooLong := by
  rw [walk, h]
  simp [hn.ne_empty, hn.ne_here, hn.ne_up, hl]

/-- Where a link leads that was met at a place. -/
def linkOrigin (loc : Location) (target : String) : Location :=
  if target.toList.head? = some '/' then [] else loc

/-- The place that a plain name leads to decides how the walk goes on. -/
theorem walk_plain (h : t.get? loc = some .directory) (hn : IsPlain name)
    (hl : name.utf8ByteSize ≤ maxName) :
    t.walk followLast links loc (name :: rest) =
      match t.get? (loc ++ [name]) with
      | none => if rest.all (· == "") then .free loc name (!rest.isEmpty) else .failed .notFound
      | some (.link target) =>
        if rest.isEmpty && !followLast then .found (loc ++ [name]) (.link target)
        else
          match links with
          | 0 => .failed .tooManyLinks
          | links' + 1 =>
            t.walk followLast links' (linkOrigin loc target) (namesOf target ++ rest)
      | some _ => t.walk followLast links (loc ++ [name]) rest := by
  rw [walk, h]
  have hlong : ¬ maxName < name.utf8ByteSize := by omega
  simp only [hn.ne_empty, hn.ne_here, hn.ne_up, hlong, ne_eq, not_true_eq_false, if_false,
    or_self]
  rfl

theorem isPlain_or (name : String) : (name = "" ∨ name = ".") ∨ name = ".." ∨ IsPlain name := by
  by_cases h : name = "" ∨ name = "."
  · exact .inl h
  · by_cases hup : name = ".."
    · exact .inr (.inl hup)
    · exact .inr (.inr ⟨fun he => h (.inl he), fun he => h (.inr he), hup⟩)

/-- A relative path is its names, from where one is. -/
theorem follow_names {cwd : Location} {path : String}
    (hnul : path.toList.contains (Char.ofNat 0) = false) (hempty : path.isEmpty = false)
    (hrel : path.toList.head? ≠ some '/') :
    t.follow followLast cwd path = t.walk followLast maxLinks cwd (namesOf path) := by
  rw [follow, hnul, hempty, if_neg hrel]
  rfl

/-! ### Smaller trees -/

/-- Where something is missing on the way, or at its end. -/
def Walked.IsLost : Walked → Prop
  | .found .. => False
  | .free .. => True
  | .failed cause => cause = .notFound

/-- In a smaller tree a walk leads to the same end, or something is missing. -/
theorem Less.walk {t' : Tree} (h : t.Less t') (followLast : Bool) (links : Nat) (loc : Location)
    (names : List String) :
    (t.walk followLast links loc names).IsLost ∨
      t.walk followLast links loc names = t'.walk followLast links loc names := by
  induction links using Nat.strongRecOn generalizing loc names with
  | ind links ihLinks =>
    induction names generalizing loc with
    | nil =>
      cases hget : t.get? loc with
      | none => exact .inl (by rw [walk_missing hget]; rfl)
      | some here => exact .inr (by rw [walk_nil hget, walk_nil (h _ _ hget)])
    | cons name names ih =>
      cases hget : t.get? loc with
      | none => exact .inl (by rw [walk_missing hget]; rfl)
      | some here =>
        have hget' := h _ _ hget
        by_cases hd : here = .directory
        · subst hd
          rcases isPlain_or name with hs | rfl | hp
          · rw [walk_stay hget hs, walk_stay hget' hs]
            exact ih loc
          · rw [walk_up hget, walk_up hget']
            exact ih loc.dropLast
          · by_cases hl : name.utf8ByteSize ≤ maxName
            · rw [walk_plain hget hp hl, walk_plain hget' hp hl]
              cases hnext : t.get? (loc ++ [name]) with
              | none =>
                refine .inl ?_
                dsimp only
                split
                · trivial
                · rfl
              | some entry =>
                rw [h _ _ hnext]
                cases entry with
                | directory => exact ih _
                | file => exact ih _
                | link target =>
                  dsimp only
                  split
                  · exact .inr rfl
                  · cases links with
                    | zero => exact .inr rfl
                    | succ links => exact ihLinks links (Nat.lt_succ_self _) _ _
            · rw [walk_long hget hp (by omega), walk_long hget' hp (by omega)]
              exact .inr rfl
        · rw [walk_notDirectory hget hd, walk_notDirectory hget' hd]
          exact .inr rfl

theorem Less.follow {t' : Tree} (h : t.Less t') (followLast : Bool) (cwd : Location) (path : String) :
    (t.follow followLast cwd path).IsLost ∨
      t.follow followLast cwd path = t'.follow followLast cwd path := by
  unfold Tree.follow
  split
  · exact .inr rfl
  · split
    · exact .inr rfl
    · exact h.walk ..

/-! ### Names that begin alike -/

/-- How a walk to `.` behind some names says what becomes of any other that begins with them. -/
inductive Leads (t : Tree) (links : Nat) (loc : Location) (names : List String) : Prop
  /-- To a directory, with so many links left. -/
  | there (base : Location) (left : Nat) (h : t.get? base = some .directory)
      (hwalk : ∀ followLast rest, rest ≠ [] →
        t.walk followLast links loc (names ++ rest) = t.walk followLast left base rest)
  | nowhere (cause : OsError)
      (hwalk : ∀ followLast name rest, name ≠ "" →
        t.walk followLast links loc (names ++ name :: rest) = .failed cause)

theorem leads (t : Tree) (links : Nat) (loc : Location) (names : List String) :
    Leads t links loc names := by
  induction links using Nat.strongRecOn generalizing loc names with
  | ind links ihLinks =>
    induction names generalizing loc with
    | nil =>
      cases hget : t.get? loc with
      | none => exact .nowhere .notFound fun _ _ _ _ => walk_missing hget _
      | some here =>
        by_cases hd : here = .directory
        · subst hd
          exact .there loc links hget fun _ _ _ => rfl
        · exact .nowhere .notDirectory fun _ _ _ _ => walk_notDirectory hget hd
    | cons name names ih =>
      cases hget : t.get? loc with
      | none => exact .nowhere .notFound fun _ _ _ _ => walk_missing hget _
      | some here =>
        by_cases hd : here = .directory
        · subst hd
          -- the first name leads on the same way whatever stands at the end
          have hon (left : Nat) (loc' : Location) (names' : List String)
              (heq : ∀ followLast rest, rest ≠ [] →
                t.walk followLast links loc (name :: names ++ rest) =
                  t.walk followLast left loc' (names' ++ rest))
              (h : Leads t left loc' names') : Leads t links loc (name :: names) := by
            cases h with
            | there base left' hb hw =>
              exact .there base left' hb fun fl rest hr => (heq fl rest hr).trans (hw fl rest hr)
            | nowhere cause hw =>
              exact .nowhere cause fun fl n rest hn =>
                (heq fl (n :: rest) (List.cons_ne_nil _ _)).trans (hw fl n rest hn)
          rcases isPlain_or name with hs | rfl | hp
          · exact hon links loc names (fun _ _ _ => walk_stay hget hs) (ih loc)
          · exact hon links loc.dropLast names (fun _ _ _ => walk_up hget) (ih loc.dropLast)
          · by_cases hl : name.utf8ByteSize ≤ maxName
            · cases hnext : t.get? (loc ++ [name]) with
              | none =>
                refine .nowhere .notFound fun fl n rest hn => ?_
                rw [List.cons_append, walk_plain hget hp hl, hnext]
                simp [hn]
              | some entry =>
                cases entry with
                | link target =>
                  cases links with
                  | zero =>
                    refine .nowhere .tooManyLinks fun fl n rest hn => ?_
                    rw [List.cons_append, walk_plain hget hp hl, hnext]
                    simp
                  | succ links =>
                    refine hon links (linkOrigin loc target) (namesOf target ++ names)
                      (fun fl rest hr => ?_) (ihLinks links (Nat.lt_succ_self _) _ _)
                    rw [List.cons_append, walk_plain hget hp hl, hnext]
                    simp [hr]
                | directory =>
                  refine hon links (loc ++ [name]) names (fun fl rest hr => ?_) (ih _)
                  rw [List.cons_append, walk_plain hget hp hl, hnext]
                | file body mode =>
                  refine hon links (loc ++ [name]) names (fun fl rest hr => ?_) (ih _)
                  rw [List.cons_append, walk_plain hget hp hl, hnext]
            · exact .nowhere .nameTooLong fun fl n rest _ => walk_long hget hp (by omega)
        · exact .nowhere .notDirectory fun _ _ _ _ => walk_notDirectory hget hd

end Testbed.Host.Tree
