import Testbed.Host.Basic
import Testbed.Proofs.Host.Directories
import Testbed.Proofs.Host.Files

/-! What a removal leaves. A directory is emptied and then removed by its path. What was emptied is
not found elsewhere by the path: it leads to the same directory, which goes too, or, where it led
through what is gone, nowhere; then the directory stays behind without anything in it. -/
namespace Testbed.Host

/-- The host without what stands at a path. -/
def without (h : Host) (dir : Path) : Host := h.after (.remove dir)

namespace Tree

variable {t : Tree} {cwd loc place : Location} {path : String} {entry : Entry}

theorem lstat_eq_ok_iff :
    t.lstat cwd path = .ok (loc, entry) ↔ t.follow false cwd path = .found loc entry := by
  unfold lstat
  cases t.follow false cwd path <;> simp

theorem Walked.IsLost.lstat_eq (h : (t.follow false cwd path).IsLost) :
    t.lstat cwd path = .error .notFound := by
  unfold lstat
  cases hf : t.follow false cwd path with
  | found => simp [hf, IsLost] at h
  | free => rfl
  | failed cause =>
    rw [hf] at h
    exact congrArg Except.error h

theorem exists?_of_not_found (h : ∀ loc entry, t.follow true cwd path ≠ .found loc entry) :
    t.exists? cwd path = false := by
  unfold exists? stat
  split
  next heq => exact absurd heq (h _ _)
  next => rfl
  next => rfl

/-! ### Any path -/

/-- The path of a directory that was emptied leads to it still, or nowhere. -/
theorem lstat_hollow (h : t.lstat cwd path = .ok (loc, .directory)) :
    (t.hollow loc).lstat cwd path = .error .notFound ∨
      (t.hollow loc).lstat cwd path = .ok (loc, .directory) := by
  rcases (t.hollow_less loc).follow false cwd path with hlost | heq
  · exact .inl hlost.lstat_eq
  · rw [lstat_eq_ok_iff] at h ⊢
    exact .inr (heq.trans h)

/-- Who fails to remove a directory fails again, and has done then all that he can. -/
theorem removeTree_again {fault : Fault Tree} (h : t.removeTree cwd path = .error fault) :
    ∃ cause, fault.left.removeTree cwd path = .error ⟨cause, fault.left⟩ := by
  unfold removeTree at h
  split at h
  next loc hl =>
    split at h
    · cases h
    · cases h
    next cause hne hr =>
      cases h
      rcases lstat_hollow hl with hlost | hstill
      · exact ⟨.notFound, by rw [removeTree, hlost]⟩
      · refine ⟨cause, ?_⟩
        simp only [removeTree, hstill, hollow_hollow, hr]
  next => cases h
  next hl =>
    cases h
    exact ⟨_, by rw [removeTree, hl]⟩
  next hl =>
    cases h
    exact ⟨_, by rw [removeTree, hl]⟩

/-! ### A name behind a path -/

variable {base : Path} {name : String}

theorem unclosed_join (base : Path) (hn : IsPiece name) :
    unclosed (base.join name).text = (base.join name).text := by
  rw [unclosed, toList_join base hn, List.reverse_append, hn.dropWhile_slash, List.reverse_append,
    List.reverse_reverse, List.reverse_reverse, ← toList_join base hn, String.ofList_toList]

theorem lastName_join (base : Path) (hn : IsPiece name) : lastName (base.join name).text = name := by
  have hlead : (lead base).reverse.takeWhile (· ≠ '/') = [] := by
    rcases lead_cases base with hl | ⟨cs, hl⟩ <;> simp [hl]
  rw [lastName, unclosed_join base hn, toList_join base hn, List.reverse_append,
    List.takeWhile_append_of_pos fun c hc => by simpa using hn.ne_slash c hc, hlead, List.append_nil,
    List.reverse_reverse, String.ofList_toList]

/-- A directory that is empty is removed by a name, which is neither `.` nor `..`. -/
theorem removeDir_join (hn : IsPiece name) (hp : IsPlain name) :
    t.removeDir cwd (base.join name).text =
      match t.lstat cwd (base.join name).text with
      | .ok (loc, .directory) =>
        if (t.children loc).isEmpty then .ok (t.erase loc) else .error .notEmpty
      | .ok _ => .error .notDirectory
      | .error cause => .error cause := by
  have hne : (base.join name).text ≠ "" := by simpa using isEmpty_join base hn
  rcases hl : t.lstat cwd (base.join name).text with cause | ⟨loc, entry⟩
  · simp only [removeDir, unclosed_join base hn, hne, false_and, if_false, hl]
  · cases entry <;> simp only [removeDir, unclosed_join base hn, lastName_join base hn, hne,
      hp.ne_here, hp.ne_up, false_and, if_false, hl]

/-- A directory goes with all that is in it, or it stays behind where its path leads nowhere when it
is empty. -/
theorem removeTree_join (hn : IsPiece name) (hp : IsPlain name)
    (h : t.lstat cwd (base.join name).text = .ok (loc, .directory)) :
    (t.hollow loc).lstat cwd (base.join name).text = .ok (loc, .directory) ∧
        t.removeTree cwd (base.join name).text = .ok (t.erase loc) ∨
      (t.hollow loc).lstat cwd (base.join name).text = .error .notFound ∧
        t.removeTree cwd (base.join name).text = .ok (t.hollow loc) := by
  unfold removeTree
  rw [h]
  dsimp only
  rw [removeDir_join hn hp]
  rcases lstat_hollow h with hlost | hstill
  · exact .inr ⟨hlost, by rw [hlost]⟩
  · refine .inl ⟨hstill, ?_⟩
    rw [hstill]
    simp [children_hollow, erase_hollow]

end Tree

open Testbed.Host.Tree (IsPlain)

variable {h : Host} {base : Path} {name : String}

/-! ### Hosts -/

theorem without_ok {h' : Host} {dir : Path} (hr : h.removeTree dir = .ok h') :
    h.without dir = h' := by
  rw [without, after, perform, hr]

theorem without_error {dir : Path} {fault : Fault Host} (hr : h.removeTree dir = .error fault) :
    h.without dir = fault.left := by
  rw [without, after, perform, hr]

/-- A directory that could not be removed cannot be removed a moment later. -/
theorem without_without {dir : Path} {fault : Fault Host} (hr : h.removeTree dir = .error fault) :
    (h.without dir).without dir = h.without dir := by
  rw [without_error hr]
  unfold removeTree at hr
  cases ht : h.tree.removeTree h.cwd dir.text with
  | ok t =>
    rw [ht] at hr
    cases hr
  | error fault =>
    rw [ht] at hr
    cases hr
    obtain ⟨cause, hagain⟩ := Tree.removeTree_again ht
    have hfail : removeTree { h with tree := fault.left } dir =
        .error ⟨cause, { h with tree := fault.left }⟩ := by
      rw [removeTree, hagain, withTree_error]
    have hsame := without_error hfail
    exact hsame

/-! ### A name behind a path -/

/-- Where a path behind a base leads that is not followed to its end: nowhere, or to what stands in
the directory that the base leads to. -/
theorem follow_last (t : Tree) (cwd : Location) (base : Path) (hn : IsPiece name)
    (hp : IsPlain name) :
    (∀ followLast loc entry, t.follow followLast cwd (base.join name).text ≠ .found loc entry) ∨
      ∃ place entry, t.follow true cwd (base.join ".").text = .found place .directory ∧
        t.get? (place ++ [name]) = some entry ∧
        t.follow false cwd (base.join name).text = .found (place ++ [name]) entry := by
  rcases behind_or_failed t cwd base with ⟨place, left, hb⟩ | ⟨cause, hf⟩
  · by_cases hl : name.utf8ByteSize ≤ Tree.maxName
    · cases hget : t.get? (place ++ [name]) with
      | none =>
        refine .inl fun followLast loc entry => ?_
        rw [hb.one followLast hn, Tree.walk_plain hb.here hp hl, hget]
        dsimp only
        split <;> exact nofun
      | some entry =>
        refine .inr ⟨place, entry, hb.follow_here true, hget, ?_⟩
        rw [hb.one false hn, Tree.walk_plain hb.here hp hl, hget]
        cases entry with
        | link => rfl
        | directory => exact Tree.walk_nil hget
        | file => exact Tree.walk_nil hget
    · refine .inl fun followLast loc entry => ?_
      rw [hb.one followLast hn, Tree.walk_long hb.here hp (by omega)]
      exact nofun
  · refine .inl fun followLast loc entry => ?_
    rw [(hf followLast hn).1]
    exact nofun

/-- What a removal does that does anything: it takes away what stands at the name in the directory
that the base leads to, or it leaves a directory there that is empty and to which no path of that
name leads any more. -/
inductive Clears (h : Host) (base : Path) (name : String) (place : Location) : Host → Prop
  | whole : Clears h base name place { h with tree := h.tree.erase (place ++ [name]) }
  | inside (hlost : (h.tree.hollow (place ++ [name])).lstat h.cwd (base.join name).text =
        .error .notFound) :
      Clears h base name place { h with tree := h.tree.hollow (place ++ [name]) }

/-- A removal fails and changes nothing, or it clears what stands at the name in the directory that
the base leads to. -/
theorem removeTree_cases (h : Host) (base : Path) (hn : IsPiece name) (hp : IsPlain name) :
    (∃ cause, h.removeTree (base.join name) = .error ⟨cause, h⟩ ∧
      (cause = .notDirectory ∨
        ∀ followLast loc entry, h.tree.follow followLast h.cwd (base.join name).text ≠
          .found loc entry)) ∨
      ∃ place h', h.tree.follow true h.cwd (base.join ".").text = .found place .directory ∧
        h.removeTree (base.join name) = .ok h' ∧ Clears h base name place h' := by
  unfold removeTree
  rcases follow_last h.tree h.cwd base hn hp with hnone | ⟨place, entry, hbase, -, hfound⟩
  · obtain ⟨cause, hcause⟩ : ∃ cause, h.tree.lstat h.cwd (base.join name).text = .error cause := by
      unfold Tree.lstat
      cases hf : h.tree.follow false h.cwd (base.join name).text with
      | found loc entry => exact absurd hf (hnone _ _ _)
      | free => exact ⟨_, rfl⟩
      | failed cause => exact ⟨_, rfl⟩
    exact .inl ⟨cause, by rw [Tree.removeTree, hcause, withTree_error], .inr hnone⟩
  · have hl := Tree.lstat_eq_ok_iff.2 hfound
    cases entry with
    | directory =>
      rcases Tree.removeTree_join hn hp hl with ⟨-, hr⟩ | ⟨hlost, hr⟩
      · exact .inr ⟨place, _, hbase, by rw [hr, withTree_ok], .whole⟩
      · exact .inr ⟨place, _, hbase, by rw [hr, withTree_ok], .inside hlost⟩
    | link target =>
      exact .inr ⟨place, _, hbase, by rw [Tree.removeTree, hl, withTree_ok], .whole⟩
    | file body mode =>
      exact .inl ⟨.notDirectory, by rw [Tree.removeTree, hl, withTree_error], .inl rfl⟩

theorem without_join (h : Host) (base : Path) (hn : IsPiece name) (hp : IsPlain name) :
    h.without (base.join name) = h ∨
      ∃ place, h.tree.follow true h.cwd (base.join ".").text = .found place .directory ∧
        Clears h base name place (h.without (base.join name)) := by
  rcases removeTree_cases h base hn hp with ⟨cause, herr, -⟩ | ⟨place, h', hbase, hok, hclears⟩
  · exact .inl (without_error herr)
  · exact .inr ⟨place, hbase, without_ok hok ▸ hclears⟩

/-- Nothing but the name in the directory, and what stands below it, is touched. -/
theorem Clears.get?_eq {place loc : Location} {h' : Host} (hc : Clears h base name place h')
    (hloc : ¬ place ++ [name] <+: loc) : h'.tree.get? loc = h.tree.get? loc := by
  by_cases hroot : loc = []
  · subst hroot
    rw [Tree.get?_root, Tree.get?_root]
  · cases hc with
    | whole => rw [Tree.get?_erase _ _ hroot, if_neg hloc]
    | inside => rw [Tree.get?_hollow _ _ hroot, if_neg fun hle => hloc hle.1]

/-- Nothing is left below the name. -/
theorem Clears.get?_below {place loc : Location} {h' : Host} (hc : Clears h base name place h')
    (hloc : place ++ [name] <+: loc) (hne : loc ≠ place ++ [name]) : h'.tree.get? loc = none := by
  have hroot : loc ≠ [] := by
    rintro rfl
    simp at hloc
  cases hc with
  | whole => rw [Tree.get?_erase _ _ hroot, if_pos hloc]
  | inside => rw [Tree.get?_hollow _ _ hroot, if_pos ⟨hloc, hne⟩]

/-- Nothing is found by the name any more. -/
theorem Clears.exists?_eq {place : Location} {h' : Host} (hn : IsPiece name) (hp : IsPlain name)
    (hbase : h.tree.follow true h.cwd (base.join ".").text = .found place .directory)
    (hc : Clears h base name place h') : h'.exists? (base.join name) = false := by
  refine Tree.exists?_of_not_found fun loc entry => ?_
  rcases follow_last h'.tree h'.cwd base hn hp with hnone | ⟨place', entry', hbase', hget, hfound⟩
  · exact hnone true loc entry
  · exfalso
    cases hc with
    | inside hlost =>
      rw [Tree.lstat_eq_ok_iff.2 hfound] at hlost
      cases hlost
    | whole =>
      -- the base leads where it led, and there the name is free
      obtain rfl : place' = place := by
        rcases (h.tree.erase_less (place ++ [name])).follow true h.cwd (base.join ".").text with
          hlost | heq
        · rw [hbase'] at hlost
          exact hlost.elim
        · rw [hbase', hbase] at heq
          exact (Tree.Walked.found.inj heq).1
      rw [Tree.get?_erase _ _ (by simp), if_pos (List.prefix_refl _)] at hget
      cases hget

/-- What stood there is gone, unless the system refused to remove it. -/
theorem exists?_without (hn : IsPiece name) (hp : IsPlain name)
    (hr : ∀ fault, h.removeTree (base.join name) = .error fault → fault.cause = .notFound) :
    (h.without (base.join name)).exists? (base.join name) = false := by
  rcases removeTree_cases h base hn hp with ⟨cause, herr, hnone⟩ | ⟨place, h', hbase, hok, hclears⟩
  · rw [without_error herr]
    refine Tree.exists?_of_not_found fun loc entry => ?_
    refine (hnone.resolve_left ?_) true loc entry
    rintro rfl
    cases hr _ herr
  · rw [without_ok hok]
    exact hclears.exists?_eq hn hp hbase

end Testbed.Host
