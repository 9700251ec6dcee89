import Mathlib.Data.List.Induction
import Mathlib.Data.List.Sort
import Mathlib.Data.String.Basic
import Testbed.Vars

/-! Variables after assignments. A variable has the value of the last assignment to it, and where
there is none the value that it had before. -/
namespace Testbed.Vars

/-- The last assignment to a variable counts. -/
def Assigns (assignments : List (String × String)) (name value : String) : Prop :=
  ∃ front back, assignments = front ++ (name, value) :: back ∧ name ∉ back.map Prod.fst

variable {vars newer : Vars} {name value other : String}

theorem get?_cons (v : String × String) (vars : Vars) (name : String) :
    get? (v :: vars) name = if v.1 = name then some v.2 else get? vars name := by
  unfold get?
  rw [List.find?_cons]
  by_cases h : v.1 = name
  · rw [if_pos h, beq_iff_eq.2 h]
    rfl
  · rw [if_neg h, beq_eq_false_iff_ne.2 h]

theorem get?_set (name value other : String) (vars : Vars) :
    get? (set name value vars) other = if name = other then some value else get? vars other := by
  induction vars with
  | nil => rw [set, get?_cons]
  | cons v vars ih =>
    rw [set]
    split
    · rw [get?_cons]
    · split
      next heq =>
        subst heq
        rw [get?_cons, get?_cons]
        split <;> rfl
      next hne =>
        rw [get?_cons, ih, get?_cons]
        split
        next hv =>
          subst hv
          rw [if_neg hne]
        next => rfl

theorem get?_overlay_concat (vars newer : Vars) (v : String × String) (other : String) :
    get? (overlay vars (newer ++ [v])) other =
      if v.1 = other then some v.2 else get? (overlay vars newer) other := by
  rw [overlay, List.foldl_append, List.foldl_cons, List.foldl_nil, get?_set]
  rfl

theorem get?_overlay_of_not_mem (h : name ∉ newer.map Prod.fst) :
    get? (overlay vars newer) name = get? vars name := by
  induction newer using List.reverseRecOn with
  | nil => rfl
  | append_singleton newer v ih =>
    rw [List.map_append, List.mem_append, not_or] at h
    have hne : v.1 ≠ name := fun heq => h.2 (by simp [heq])
    rw [get?_overlay_concat, if_neg hne, ih h.1]

theorem get?_overlay_of_assigns (h : Assigns newer name value) :
    get? (overlay vars newer) name = some value := by
  obtain ⟨front, back, rfl, hback⟩ := h
  have hsplit : overlay vars (front ++ (name, value) :: back) =
      overlay (overlay vars (front ++ [(name, value)])) back := by
    simp [overlay]
  rw [hsplit, get?_overlay_of_not_mem hback, get?_overlay_concat, if_pos rfl]

theorem exists_assigns (h : name ∈ newer.map Prod.fst) : ∃ value, Assigns newer name value := by
  induction newer using List.reverseRecOn with
  | nil => cases h
  | append_singleton newer v ih =>
    by_cases hv : v.1 = name
    · exact ⟨v.2, newer, [], by rw [← hv], List.not_mem_nil⟩
    · rw [List.map_append, List.mem_append] at h
      obtain ⟨value, front, back, rfl, hback⟩ :=
        ih (h.resolve_right fun hlast => hv (List.mem_singleton.1 hlast).symm)
      refine ⟨value, front, back ++ [v], by simp, ?_⟩
      simpa [Ne.symm hv] using hback

/-- What is newer wins, whatever is assigned more than once. -/
theorem get?_overlay_eq_some_iff : get? (overlay vars newer) name = some value ↔
    Assigns newer name value ∨ name ∉ newer.map Prod.fst ∧ get? vars name = some value := by
  by_cases h : name ∈ newer.map Prod.fst
  · obtain ⟨last, hlast⟩ := exists_assigns h
    have hget : get? (overlay vars newer) name = some last := get?_overlay_of_assigns hlast
    rw [hget, Option.some.injEq]
    constructor
    · rintro rfl
      exact .inl hlast
    · rintro (hvalue | ⟨hnot, -⟩)
      · exact Option.some.inj (hget.symm.trans (get?_overlay_of_assigns hvalue))
      · exact absurd h hnot
  · have hnone : ¬ Assigns newer name value := by
      rintro ⟨front, back, rfl, -⟩
      simp at h
    rw [get?_overlay_of_not_mem h, or_iff_right hnone, and_iff_right h]

/-! ### Order -/

/-- In ascending order, and so no name twice. -/
def Ascending (vars : Vars) : Prop := vars.Pairwise (fun v v' => v.1 < v'.1)

instance (vars : Vars) : Decidable (Ascending vars) :=
  inferInstanceAs (Decidable (vars.Pairwise (fun v v' => v.1 < v'.1)))

theorem fst_of_mem_set {v : String × String} (h : v ∈ set name value vars) :
    v.1 = name ∨ v ∈ vars := by
  induction vars with
  | nil => exact .inl (by rw [List.mem_singleton.1 h])
  | cons v' vars ih =>
    rw [set] at h
    split at h
    · rcases List.mem_cons.1 h with rfl | h
      · exact .inl rfl
      · exact .inr h
    · split at h
      · rcases List.mem_cons.1 h with rfl | h
        · exact .inl rfl
        · exact .inr (List.mem_cons_of_mem _ h)
      · rcases List.mem_cons.1 h with rfl | h
        · exact .inr List.mem_cons_self
        · exact (ih h).imp_right (List.mem_cons_of_mem _)

theorem Ascending.set (h : Ascending vars) (name value : String) :
    Ascending (set name value vars) := by
  induction vars with
  | nil => exact List.pairwise_singleton ..
  | cons v vars ih =>
    obtain ⟨hfirst, hrest⟩ := List.pairwise_cons.1 h
    rw [Vars.set]
    split
    next hlt =>
      refine List.pairwise_cons.2 ⟨fun v' hv' => ?_, h⟩
      rcases List.mem_cons.1 hv' with rfl | hv'
      · exact hlt
      · exact hlt.trans (hfirst v' hv')
    next hnlt =>
      split
      next heq => exact List.pairwise_cons.2 ⟨fun v' hv' => heq ▸ hfirst v' hv', hrest⟩
      next hne =>
        refine List.pairwise_cons.2 ⟨fun v' hv' => ?_, ih hrest⟩
        rcases fst_of_mem_set hv' with hname | hv'
        · rw [hname]
          exact lt_of_le_of_ne (not_lt.1 hnlt) (Ne.symm hne)
        · exact hfirst v' hv'

theorem Ascending.overlay (h : Ascending vars) (newer : Vars) : Ascending (overlay vars newer) := by
  induction newer generalizing vars with
  | nil => exact h
  | cons v newer ih => exact ih (h.set v.1 v.2)

theorem get?_eq_none_iff : get? vars name = none ↔ name ∉ vars.map Prod.fst := by
  rw [get?, Option.map_eq_none_iff, List.find?_eq_none, List.mem_map, not_exists]
  simp only [beq_iff_eq, not_and]

theorem Ascending.assigns (h : Ascending vars) (hget : get? vars name = some value) :
    Assigns vars name value := by
  obtain ⟨v, hv, rfl⟩ := Option.map_eq_some_iff.1 hget
  obtain rfl : v.1 = name := by simpa using List.find?_some hv
  obtain ⟨front, back, rfl⟩ := List.append_of_mem (List.mem_of_find?_eq_some hv)
  refine ⟨front, back, rfl, fun hmem => ?_⟩
  obtain ⟨v', hv', heq⟩ := List.mem_map.1 hmem
  have hlt : v.1 < v'.1 := (List.pairwise_cons.1 (List.pairwise_append.1 h).2.1).1 v' hv'
  exact absurd heq hlt.ne'

theorem Ascending.mem_iff (h : Ascending vars) :
    (name, value) ∈ vars ↔ get? vars name = some value := by
  induction vars with
  | nil => simp [get?]
  | cons v vars ih =>
    obtain ⟨hfirst, hrest⟩ := List.pairwise_cons.1 h
    rw [List.mem_cons, get?_cons]
    split
    next hv =>
      subst hv
      constructor
      · rintro (heq | hmem)
        · rw [← heq]
        · exact absurd (hfirst _ hmem) (lt_irrefl v.1)
      · intro hvalue
        exact .inl (by rw [← Option.some.inj hvalue])
    next hv =>
      rw [ih hrest]
      exact or_iff_right fun heq => hv (by rw [← heq])

theorem Ascending.assigns_iff (h : Ascending vars) :
    Assigns vars name value ↔ (name, value) ∈ vars := by
  constructor
  · rintro ⟨front, back, rfl, -⟩
    simp
  · exact fun hmem => h.assigns (h.mem_iff.1 hmem)

/-- Variables that have the same values are the same. -/
theorem Ascending.ext (h : Ascending vars) (h' : Ascending newer)
    (hget : ∀ name, get? vars name = get? newer name) : vars = newer := by
  have : Std.Irrefl fun v v' : String × String => v.1 < v'.1 := ⟨fun v => lt_irrefl v.1⟩
  have : Std.Antisymm fun v v' : String × String => v.1 < v'.1 :=
    ⟨fun v v' hlt hlt' => absurd (hlt.trans hlt') (lt_irrefl v.1)⟩
  apply List.Pairwise.eq_of_mem_iff h h'
  rintro ⟨name, value⟩
  rw [h.mem_iff, h'.mem_iff, hget]

/-- What is newer wins. -/
theorem Ascending.get?_overlay (h : Ascending newer) (vars : Vars) (name : String) :
    get? (Vars.overlay vars newer) name = (get? newer name).or (get? vars name) := by
  cases hget : get? newer name with
  | none => rw [get?_overlay_of_not_mem (get?_eq_none_iff.1 hget), Option.none_or]
  | some value => rw [get?_overlay_of_assigns (h.assigns hget), Option.some_or]

end Testbed.Vars
