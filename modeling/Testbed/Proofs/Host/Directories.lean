import Testbed.Host.Files
import Testbed.Proofs.Host.Paths

/-! Making directories behind a directory that may itself be missing. Whoever finds its parent
missing has that made first, and the parents of all that stand behind one directory are the same. -/
namespace Testbed.Host

/-! ### Parents -/

/-- What stands before a name that is joined to a path, without the separators at its end. -/
def leadPath (base : Path) : String :=
  let rest := (lead base).reverse.dropWhile (· = '/')
  if rest.isEmpty then (if (lead base).head? = some '/' then "/" else "")
  else String.ofList rest.reverse

variable {name other : String}

theorem IsPiece.ne_slash (h : IsPiece name) : ∀ c ∈ name.toList.reverse, c ≠ '/' := fun _ hc he =>
  h.no_slash (he ▸ List.mem_reverse.1 hc)

theorem IsPiece.dropWhile_slash (h : IsPiece name) (r : List Char) :
    (name.toList.reverse ++ r).dropWhile (· = '/') = name.toList.reverse ++ r := by
  have hne : name.toList.reverse ≠ [] := by simpa using h.ne_empty
  obtain ⟨c, s, hs⟩ := List.exists_cons_of_ne_nil hne
  have hc : c ≠ '/' := h.ne_slash c (by simp [hs])
  rw [hs]
  exact List.dropWhile_cons_of_neg (by simpa using hc)

theorem parentPath_join (base : Path) (h : IsPiece name) :
    Tree.parentPath (base.join name).text = leadPath base := by
  have hlead : (lead base).reverse.dropWhile (· ≠ '/') = (lead base).reverse := by
    rcases lead_cases base with hl | ⟨cs, hl⟩ <;> simp [hl]
  have hrest : (name.toList.reverse ++ (lead base).reverse).dropWhile (· ≠ '/') =
      (lead base).reverse := by
    rw [List.dropWhile_append_of_pos fun c hc => by simpa using h.ne_slash c hc, hlead]
  simp only [Tree.parentPath, leadPath, toList_join base h, head?_lead_append base h,
    List.reverse_append, h.dropWhile_slash, hrest]

theorem leadPath_join (base : Path) (h : IsPiece name) :
    leadPath (base.join name) = (base.join name).text := by
  have hdrop : (lead (base.join name)).reverse.dropWhile (· = '/') =
      name.toList.reverse ++ (lead base).reverse := by
    rw [lead_join base h]
    simp only [List.reverse_append, List.reverse_cons, List.reverse_nil, List.nil_append,
      List.singleton_append, List.dropWhile_cons, decide_true, if_true]
    exact h.dropWhile_slash _
  have hne : (name.toList.reverse ++ (lead base).reverse).isEmpty = false := by simp [h.ne_empty]
  simp only [leadPath, hdrop, hne, Bool.false_eq_true, if_false, List.reverse_append,
    List.reverse_reverse]
  rw [← toList_join base h, String.ofList_toList]

/-! ### Making -/

namespace Tree

variable {t t' : Tree} {cwd : Location} {path : String}

/-- More patience does not change what comes out. -/
theorem makeDirs_mono {fuel fuel' : Nat} (hle : fuel ≤ fuel') (h : makeDirs fuel t cwd path = .ok t') :
    makeDirs fuel' t cwd path = .ok t' := by
  induction fuel generalizing fuel' path t' with
  | zero => cases h
  | succ fuel ih =>
    obtain ⟨k, rfl⟩ : ∃ k, fuel' = k + 1 := ⟨fuel' - 1, by omega⟩
    rw [makeDirs] at h ⊢
    by_cases hempty : path.isEmpty = true
    · rwa [if_pos hempty] at h ⊢
    · rw [if_neg hempty] at h ⊢
      cases hm : t.makeDir cwd path with
      | ok t₁ => simpa only [hm] using h
      | error cause =>
        by_cases hc : cause = .notFound
        · subst hc
          simp only [hm] at h ⊢
          cases hp : makeDirs fuel t cwd (parentPath path) with
          | error cause => simp [hp] at h
          | ok t₂ =>
            rw [ih (by omega) hp]
            simpa only [hp] using h
        · simp only [hm] at h ⊢
          exact h

end Tree

/-! ### Behind a directory -/

variable {t t' made : Tree} {cwd place : Location} {base : Path} {left left' : Nat}

namespace Behind

theorem follow_free (h : Behind t cwd base place left) (hn : IsName name)
    (hd : t.get? (place ++ [name]) = none) (followLast : Bool) :
    t.follow followLast cwd (base.join name).text = .free place name false := by
  rw [h.one followLast hn.piece, Tree.walk_plain h.here hn.plain hn.size, hd]
  rfl

theorem follow_directory (h : Behind t cwd base place left) (hn : IsName name)
    (hd : t.get? (place ++ [name]) = some .directory) (followLast : Bool) :
    t.follow followLast cwd (base.join name).text = .found (place ++ [name]) .directory := by
  rw [h.one followLast hn.piece, Tree.walk_plain h.here hn.plain hn.size, hd]
  exact Tree.walk_nil hd

/-- Nothing is found below what is not there. -/
theorem follow_below_missing (h : Behind t cwd base place left) (hn : IsName name)
    (ho : IsName other) (hd : t.get? (place ++ [name]) = none) (followLast : Bool) :
    t.follow followLast cwd ((base.join name).join other).text = .failed .notFound := by
  rw [h.two followLast hn.piece ho.piece, Tree.walk_plain h.here hn.plain hn.size, hd]
  simp [ho.piece.ne_empty]

/-- A directory behind a directory has others behind it. -/
theorem join (h : Behind t cwd base place left) (hn : IsName name)
    (hd : t.get? (place ++ [name]) = some .directory) (followLast : Bool) (ho : IsPiece other) :
    t.follow followLast cwd ((base.join name).join other).text =
      t.walk followLast left (place ++ [name]) [other] := by
  rw [h.two followLast hn.piece ho, Tree.walk_plain h.here hn.plain hn.size, hd]

theorem follow_below_free (h : Behind t cwd base place left) (hn : IsName name) (ho : IsName other)
    (hd : t.get? (place ++ [name]) = some .directory)
    (hb : t.get? (place ++ [name] ++ [other]) = none) (followLast : Bool) :
    t.follow followLast cwd ((base.join name).join other).text =
      .free (place ++ [name]) other false := by
  rw [h.join hn hd followLast ho.piece, Tree.walk_plain hd ho.plain ho.size, hb]
  rfl

theorem makeDir_free (h : Behind t cwd base place left) (hn : IsName name)
    (hd : t.get? (place ++ [name]) = none) :
    t.makeDir cwd (base.join name).text = .ok (t.set (place ++ [name]) .directory) := by
  rw [Tree.makeDir, h.follow_free hn hd]

theorem makeDir_below_free (h : Behind t cwd base place left) (hn : IsName name) (ho : IsName other)
    (hd : t.get? (place ++ [name]) = some .directory)
    (hb : t.get? (place ++ [name] ++ [other]) = none) :
    t.makeDir cwd ((base.join name).join other).text =
      .ok (t.set (place ++ [name] ++ [other]) .directory) := by
  rw [Tree.makeDir, h.follow_below_free hn ho hd hb]

end Behind

/-- Nothing is found behind a base. -/
def Blank (t : Tree) (cwd : Location) (base : Path) : Prop :=
  ∀ followLast {name}, IsPiece name →
    t.follow followLast cwd (base.join name).text = .failed .notFound ∧
    ∀ {other}, IsPiece other →
      t.follow followLast cwd ((base.join name).join other).text = .failed .notFound

theorem Tree.isDirectory_of_failed {path : String} {cause : OsError}
    (h : t.follow true cwd path = .failed cause) : t.isDirectory cwd path = false := by
  simp [Tree.isDirectory, Tree.stat, h]

theorem Tree.exists?_of_found {path : String} {entry : Entry}
    (h : t.follow true cwd path = .found place entry) : t.exists? cwd path = true := by
  simp [Tree.exists?, Tree.stat, h, Except.isOk, Except.toBool]

theorem Tree.exists?_of_failed {path : String} {cause : OsError}
    (h : t.follow true cwd path = .failed cause) : t.exists? cwd path = false := by
  simp [Tree.exists?, Tree.stat, h, Except.isOk, Except.toBool]

theorem Behind.makeDirAll_here (h : Behind t cwd base place left) :
    t.makeDirAll cwd (base.join ".").text = .ok t := by
  have hdir : t.isDirectory cwd (base.join ".").text = true := by
    simp [Tree.isDirectory, Tree.stat, h.follow_here]
  have hmake : t.makeDir cwd (base.join ".").text = .error .exists := by
    rw [Tree.makeDir, h.follow_here]
  rw [Tree.makeDirAll, Tree.makeDirs, isEmpty_join base .here]
  simp only [Bool.false_eq_true, if_false, hmake, hdir, if_true]

/-- A base that is made was there before, or it was missing and now is there. -/
theorem makeDirAll_here (h : t.makeDirAll cwd (base.join ".").text = .ok made) :
    made = t ∧ (∃ place left, Behind t cwd base place left) ∨
      Blank t cwd base ∧ Tree.makeDirs ((base.join ".").text.length + 1) t cwd (leadPath base) =
        .ok made := by
  rcases behind_or_failed t cwd base with ⟨place, left, hb⟩ | ⟨cause, hf⟩
  · rw [hb.makeDirAll_here] at h
    cases h
    exact .inl ⟨rfl, place, left, hb⟩
  · rw [Tree.makeDirAll, Tree.makeDirs, isEmpty_join base .here] at h
    simp only [Bool.false_eq_true, if_false] at h
    have hmake : t.makeDir cwd (base.join ".").text = .error cause := by
      rw [Tree.makeDir, (hf false .here).1]
    have hdir := Tree.isDirectory_of_failed (hf true .here).1
    by_cases hc : cause = .notFound
    · subst hc
      simp only [hmake, parentPath_join base .here] at h
      refine .inr ⟨hf, ?_⟩
      cases hp : Tree.makeDirs ((base.join ".").text.length + 1) t cwd (leadPath base) with
      | error cause => simp [hp] at h
      | ok t₁ =>
        simp only [hp, Tree.ensureDir] at h
        rcases behind_or_failed t₁ cwd base with ⟨place, left, hb⟩ | ⟨cause, hf'⟩
        · have hdir' : t₁.isDirectory cwd (base.join ".").text = true := by
            simp [Tree.isDirectory, Tree.stat, hb.follow_here]
          have hmake' : t₁.makeDir cwd (base.join ".").text = .error .exists := by
            rw [Tree.makeDir, hb.follow_here]
          simp only [hmake', hdir', if_true] at h
          exact h
        · have hmake' : t₁.makeDir cwd (base.join ".").text = .error cause := by
            rw [Tree.makeDir, (hf' false .here).1]
          simp only [hmake', Tree.isDirectory_of_failed (hf' true .here).1, Bool.false_eq_true,
            if_false] at h
          cases h
    · simp only [hmake, hdir, Bool.false_eq_true, if_false] at h
      cases h

/-- Whoever finds the parent missing is made once that is there. -/
theorem makeDirs_up {path parent : String} {fuel : Nat} (hpath : path.isEmpty = false)
    (hparent : Tree.parentPath path = parent) (hmissing : t.makeDir cwd path = .error .notFound)
    (hup : Tree.makeDirs fuel t cwd parent = .ok made) (hlast : made.ensureDir cwd path = .ok t') :
    Tree.makeDirs (fuel + 1) t cwd path = .ok t' := by
  rw [Tree.makeDirs, hpath]
  simp only [Bool.false_eq_true, if_false, hmissing, hparent, hup, hlast]
  rfl

theorem ensureDir_here {path : String}
    (h : ∀ followLast, t.follow followLast cwd path = .found place .directory) :
    t.ensureDir cwd path = .ok t := by
  simp [Tree.ensureDir, Tree.makeDir, Tree.isDirectory, Tree.stat, h]

theorem ensureDir_of_makeDir {path : String} (h : t.makeDir cwd path = .ok t') :
    t.ensureDir cwd path = .ok t' := by
  rw [Tree.ensureDir, h]

/-- A directory and one below it are made where neither is there, behind a base that can be made. -/
theorem makeDirAll_two (hm : t.makeDirAll cwd (base.join ".").text = .ok made)
    (h : Behind made cwd base place left)
    (h' : Behind (made.set (place ++ [name]) .directory) cwd base place left')
    (hn : IsName name) (ho : IsName other) (hd : made.Vacant (place ++ [name])) :
    t.makeDirAll cwd ((base.join name).join other).text =
      .ok ((made.set (place ++ [name]) .directory).set (place ++ [name] ++ [other]) .directory) := by
  have hlast : (made.set (place ++ [name]) .directory).ensureDir cwd
      ((base.join name).join other).text =
        .ok ((made.set (place ++ [name]) .directory).set (place ++ [name] ++ [other]) .directory) := by
    refine ensureDir_of_makeDir (h'.makeDir_below_free hn ho ?_ ?_)
    · rw [Tree.get?_set _ (by simp), if_pos rfl]
    · rw [Tree.get?_set _ (by simp), if_neg (by simp)]
      exact hd _ (List.prefix_append _ _)
  have hfree := hd _ (List.prefix_refl _)
  have hone : t.makeDir cwd ((base.join name).join other).text = .error .notFound := by
    rcases makeDirAll_here hm with ⟨rfl, -⟩ | ⟨hb, -⟩
    · rw [Tree.makeDir, h.follow_below_missing hn ho hfree]
    · rw [Tree.makeDir, (hb false hn.piece).2 ho.piece]
  -- the second of the two is made by way of the first
  have hparent (fuel : Nat) (hfuel : (base.join ".").text.length + 1 ≤ fuel) :
      Tree.makeDirs (fuel + 1) t cwd (base.join name).text =
        .ok (made.set (place ++ [name]) .directory) := by
    rw [Tree.makeDirs, isEmpty_join base hn.piece]
    simp only [Bool.false_eq_true, if_false]
    rcases makeDirAll_here hm with ⟨rfl, -⟩ | ⟨hb, hup⟩
    · simp only [h.makeDir_free hn hfree]
    · have hmissing : t.makeDir cwd (base.join name).text = .error .notFound := by
        rw [Tree.makeDir, (hb false hn.piece).1]
      simp only [hmissing, parentPath_join base hn.piece, Tree.makeDirs_mono hfuel hup]
      rw [ensureDir_of_makeDir (h.makeDir_free hn hfree)]
      rfl
  have hlen : (base.join ".").text.length + 1 ≤ ((base.join name).join other).text.length := by
    have hname := List.length_pos_iff.2 hn.piece.toList_ne_nil
    have hother := List.length_pos_iff.2 ho.piece.toList_ne_nil
    rw [← String.length_toList, ← String.length_toList, toList_join base .here,
      toList_join _ ho.piece, lead_join base hn.piece]
    simp only [List.length_append, List.length_singleton]
    have : (".".toList).length = 1 := rfl
    omega
  rw [Tree.makeDirAll, Tree.makeDirs, isEmpty_join _ ho.piece]
  simp only [Bool.false_eq_true, if_false, hone, parentPath_join _ ho.piece,
    leadPath_join base hn.piece, hparent _ hlen, hlast]
  rfl

/-- A directory is made in one that is there. -/
theorem Behind.makeDirAll_below (h : Behind t cwd base place left) (hn : IsName name)
    (ho : IsName other) (hd : t.get? (place ++ [name]) = some .directory)
    (hb : t.get? (place ++ [name] ++ [other]) = none) :
    t.makeDirAll cwd ((base.join name).join other).text =
      .ok (t.set (place ++ [name] ++ [other]) .directory) := by
  rw [Tree.makeDirAll, Tree.makeDirs, isEmpty_join _ ho.piece]
  simp only [Bool.false_eq_true, if_false, h.makeDir_below_free hn ho hd hb]

/-! ### Files -/

theorem Behind.write_below_free (h : Behind t cwd base place left) (hn : IsName name)
    (ho : IsName other) (hd : t.get? (place ++ [name]) = some .directory)
    (hb : t.get? (place ++ [name] ++ [other]) = none) (data : List UInt8) :
    t.write cwd ((base.join name).join other).text data =
      .ok (t.set (place ++ [name] ++ [other]) (.file (.bytes data) Tree.newFileMode)) := by
  rw [Tree.write, Tree.update, h.follow_below_free hn ho hd hb]
  rfl

/-- What is written in a directory changes one place of it, unless a link leads elsewhere. -/
theorem Behind.write_below_within (h : Behind t cwd base place left) (hn : IsName name)
    (ho : IsName other) (hd : t.get? (place ++ [name]) = some .directory)
    (hl : ∀ target, t.get? (place ++ [name] ++ [other]) ≠ some (.link target)) {data : List UInt8}
    (hw : t.write cwd ((base.join name).join other).text data = .ok t') {loc : Location}
    (hloc : loc ≠ place ++ [name] ++ [other]) : t'.get? loc = t.get? loc := by
  have hset (entry : Entry) :
      (t.set (place ++ [name] ++ [other]) entry).get? loc = t.get? loc := by
    rw [Tree.get?_set _ (by simp), if_neg hloc]
  cases hb : t.get? (place ++ [name] ++ [other]) with
  | none =>
    rw [h.write_below_free hn ho hd hb] at hw
    cases hw
    exact hset _
  | some entry =>
    have hfound (hne : ∀ target, entry ≠ .link target) :
        t.follow true cwd ((base.join name).join other).text =
          .found (place ++ [name] ++ [other]) entry := by
      rw [h.join hn hd true ho.piece, Tree.walk_plain hd ho.plain ho.size, hb]
      cases entry with
      | link target => exact absurd rfl (hne target)
      | directory => exact Tree.walk_nil hb
      | file body mode => exact Tree.walk_nil hb
    cases entry with
    | link target => exact absurd hb (hl target)
    | directory =>
      rw [Tree.write, Tree.update, hfound nofun] at hw
      cases hw
    | file body mode =>
      rw [Tree.write, Tree.update, hfound nofun] at hw
      cases body <;> cases hw
      all_goals first | exact hset _ | rfl

end Testbed.Host
