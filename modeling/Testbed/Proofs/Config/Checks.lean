import Mathlib.Data.List.Forall2

/-! Attempts in sequence. A chain of attempts succeeds when each link does, and an attempt made for
every entry of a list succeeds when it does for each of them; the results then stand beside the
entries, in their order. -/
namespace Testbed.Config

variable {ε α β : Type}

theorem bind_ok_iff {x : Except ε α} {g : α → Except ε β} {b : β} :
    (x >>= g) = .ok b ↔ ∃ a, x = .ok a ∧ g a = .ok b := by
  cases x with
  | error e =>
    constructor
    · nofun
    · rintro ⟨a, h, -⟩
      cases h
  | ok a =>
    constructor
    · exact fun h => ⟨a, rfl, h⟩
    · rintro ⟨_, ⟨⟩, h⟩
      exact h

theorem mapM_ok_iff {g : α → Except ε β} {xs : List α} {ys : List β} :
    xs.mapM g = .ok ys ↔ List.Forall₂ (fun x y => g x = .ok y) xs ys := by
  induction xs generalizing ys with
  | nil =>
    rw [List.mapM_nil, List.forall₂_nil_left_iff]
    exact ⟨fun h => (Except.ok.inj h).symm, fun h => by rw [h]; rfl⟩
  | cons x xs ih =>
    rw [List.mapM_cons, bind_ok_iff, List.forall₂_cons_left_iff]
    constructor
    · rintro ⟨y, hy, h⟩
      obtain ⟨tail, htail, h⟩ := bind_ok_iff.1 h
      cases h
      exact ⟨y, tail, hy, ih.1 htail, rfl⟩
    · rintro ⟨y, tail, hy, htail, rfl⟩
      exact ⟨y, hy, bind_ok_iff.2 ⟨tail, ih.2 htail, rfl⟩⟩

theorem forM_ok_iff {g : α → Except ε Unit} {xs : List α} :
    xs.forM g = .ok () ↔ ∀ x ∈ xs, g x = .ok () := by
  induction xs with
  | nil => exact iff_of_true rfl (by simp)
  | cons x xs ih =>
    have hcons : (x :: xs).forM g = (g x >>= fun _ => xs.forM g) := rfl
    rw [hcons, bind_ok_iff, List.forall_mem_cons, ih]
    constructor
    · rintro ⟨⟨⟩, h⟩
      exact h
    · exact fun h => ⟨(), h⟩

/-! ### Lists side by side -/

variable {R : α → β → Prop} {xs : List α} {ys : List β}

theorem exists_forall₂_iff : (∃ ys, List.Forall₂ R xs ys) ↔ ∀ x ∈ xs, ∃ y, R x y := by
  induction xs with
  | nil => exact iff_of_true ⟨[], .nil⟩ (by simp)
  | cons x xs ih =>
    rw [List.forall_mem_cons, ← ih]
    constructor
    · rintro ⟨_, _ | ⟨h, htail⟩⟩
      exact ⟨⟨_, h⟩, ⟨_, htail⟩⟩
    · rintro ⟨⟨y, h⟩, ⟨ys, htail⟩⟩
      exact ⟨y :: ys, .cons h htail⟩

theorem forall₂_append_left_iff {xs' : List α} : List.Forall₂ R (xs ++ xs') ys ↔
    ∃ zs zs', ys = zs ++ zs' ∧ List.Forall₂ R xs zs ∧ List.Forall₂ R xs' zs' := by
  constructor
  · intro h
    induction xs generalizing ys with
    | nil => exact ⟨[], ys, rfl, .nil, h⟩
    | cons x xs ih =>
      obtain ⟨y, tail, hy, htail, rfl⟩ := List.forall₂_cons_left_iff.1 h
      obtain ⟨zs, zs', rfl, hzs, hzs'⟩ := ih htail
      exact ⟨y :: zs, zs', rfl, .cons hy hzs, hzs'⟩
  · rintro ⟨zs, zs', rfl, hzs, hzs'⟩
    exact List.rel_append hzs hzs'

theorem exists_left_of_forall₂ (h : List.Forall₂ R xs ys) {y : β} (hy : y ∈ ys) :
    ∃ x ∈ xs, R x y := by
  induction h with
  | nil => cases hy
  | cons hxy _ ih =>
    rcases List.mem_cons.1 hy with rfl | hy
    · exact ⟨_, List.mem_cons_self, hxy⟩
    · obtain ⟨x, hx, h⟩ := ih hy
      exact ⟨x, List.mem_cons_of_mem _ hx, h⟩

theorem getElem?_of_forall₂ (h : List.Forall₂ R xs ys) {i : Nat} {y : β} (hy : ys[i]? = some y) :
    ∃ x, xs[i]? = some x ∧ R x y := by
  induction h generalizing i with
  | nil => simp at hy
  | cons hxy _ ih =>
    cases i with
    | zero =>
      obtain rfl : _ = y := by simpa using hy
      exact ⟨_, rfl, hxy⟩
    | succ i => exact ih (by simpa using hy)

theorem exists_mem_iff_of_forall₂ (h : List.Forall₂ R xs ys) {P : α → Prop} {Q : β → Prop}
    (hpq : ∀ x y, R x y → (P x ↔ Q y)) : (∃ x ∈ xs, P x) ↔ ∃ y ∈ ys, Q y := by
  induction h with
  | nil => simp
  | cons h _ ih => simp only [List.exists_mem_cons_iff, hpq _ _ h, ih]

theorem forall_mem_iff_of_forall₂ (h : List.Forall₂ R xs ys) {P : α → Prop} {Q : β → Prop}
    (hpq : ∀ x y, R x y → (P x ↔ Q y)) : (∀ x ∈ xs, P x) ↔ ∀ y ∈ ys, Q y := by
  induction h with
  | nil => simp
  | cons h _ ih => simp only [List.forall_mem_cons, hpq _ _ h, ih]

end Testbed.Config
