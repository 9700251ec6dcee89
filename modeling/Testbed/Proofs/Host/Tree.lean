import Testbed.Host.Tree

/-! What stands where after a change of the tree. The root always stands. -/
namespace Testbed.Host.Tree

/-- Nothing stands at a place or below it. -/
def Vacant (t : Tree) (loc : Location) : Prop := ∀ place, loc <+: place → t.get? place = none

@[simp] theorem get?_root (t : Tree) : t.get? [] = some .directory := by simp [get?]

theorem get?_of_ne_nil (t : Tree) {loc : Location} (h : loc ≠ []) :
    t.get? loc = (t.entries.find? (fun e => e.1 == loc)).map Prod.snd := by simp [get?, h]

/-! ### Filters -/

variable {keep : Location × Entry → Bool} {place : Location} {entries : List (Location × Entry)}

theorem find?_filter_of_keep (h : ∀ e : Location × Entry, e.1 = place → keep e = true) :
    (entries.filter keep).find? (fun e => e.1 == place) = entries.find? (fun e => e.1 == place) := by
  rw [List.find?_filter]
  congr 1
  funext e
  by_cases he : e.1 = place
  · simp [he, h e he]
  · simp [he]

theorem find?_filter_of_drop (h : ∀ e : Location × Entry, e.1 = place → keep e = false) :
    (entries.filter keep).find? (fun e => e.1 == place) = none := by
  rw [List.find?_filter, List.find?_eq_none]
  intro e _
  by_cases he : e.1 = place
  · simp [h e he]
  · simp [he]

/-! ### Changes -/

/-- What was set stands there, and everything else as before. -/
theorem get?_set (t : Tree) {loc : Location} (hloc : loc ≠ []) (entry : Entry) (place : Location) :
    (t.set loc entry).get? place = if place = loc then some entry else t.get? place := by
  by_cases hp : place = []
  · subst hp
    simp [Ne.symm hloc]
  · rw [get?_of_ne_nil _ hp, get?_of_ne_nil _ hp, set, List.find?_append]
    by_cases h : place = loc
    · subst h
      rw [find?_filter_of_drop (by simp)]
      simp
    · rw [find?_filter_of_keep (by rintro e rfl; simpa using h)]
      simp [h, Ne.symm h]

/-- What was erased is gone with all below it, and everything else stands as before. -/
theorem get?_erase (t : Tree) (loc : Location) {place : Location} (hp : place ≠ []) :
    (t.erase loc).get? place = if loc <+: place then none else t.get? place := by
  rw [get?_of_ne_nil _ hp, get?_of_ne_nil _ hp, erase]
  split
  next h => rw [find?_filter_of_drop (by rintro e rfl; simpa using h), Option.map_none]
  next h => rw [find?_filter_of_keep (by rintro e rfl; simpa [← List.isPrefixOf_iff_prefix] using h)]

theorem erase_vacant (t : Tree) {loc : Location} (h : loc ≠ []) : (t.erase loc).Vacant loc := by
  intro place hp
  have hne : place ≠ [] := by
    rintro rfl
    exact h (List.prefix_nil.1 hp)
  rw [get?_erase _ _ hne, if_pos hp]

/-- Where nothing stands there is nothing to erase. -/
theorem Vacant.erase_eq {t : Tree} {loc : Location} (h : t.Vacant loc) (hloc : loc ≠ []) :
    t.erase loc = t := by
  have hall : ∀ e ∈ t.entries, (!loc.isPrefixOf e.1) = true := by
    intro e he
    rw [Bool.not_eq_true', ← Bool.not_eq_true, List.isPrefixOf_iff_prefix]
    intro hle
    have hne : e.1 ≠ [] := by
      intro hnil
      rw [hnil] at hle
      exact hloc (List.prefix_nil.1 hle)
    have hnone := h e.1 hle
    rw [get?_of_ne_nil _ hne, Option.map_eq_none_iff, List.find?_eq_none] at hnone
    exact hnone e he (by simp)
  rw [erase, List.filter_eq_self.2 hall]

theorem erase_erase (t : Tree) (loc : Location) : (t.erase loc).erase loc = t.erase loc := by
  simp [erase, List.filter_filter]

/-! ### Emptied directories -/

/-- What was hollowed stands, without anything below it, and everything else stands as before. -/
theorem get?_hollow (t : Tree) (loc : Location) {place : Location} (hp : place ≠ []) :
    (t.hollow loc).get? place = if loc <+: place ∧ place ≠ loc then none else t.get? place := by
  rw [get?_of_ne_nil _ hp, get?_of_ne_nil _ hp, hollow]
  split
  next h => rw [find?_filter_of_drop (by rintro e rfl; simpa using h), Option.map_none]
  next h =>
    rw [find?_filter_of_keep]
    rintro e rfl
    rw [Bool.not_eq_true', Bool.and_eq_false_iff]
    by_cases hle : loc <+: e.1
    · exact .inr (by simpa using fun hne => h ⟨hle, hne⟩)
    · exact .inl (by rwa [← Bool.not_eq_true, List.isPrefixOf_iff_prefix])

theorem hollow_hollow (t : Tree) (loc : Location) : (t.hollow loc).hollow loc = t.hollow loc := by
  simp [hollow, List.filter_filter]

theorem erase_hollow (t : Tree) (loc : Location) : (t.hollow loc).erase loc = t.erase loc := by
  simp only [hollow, erase, List.filter_filter, Tree.mk.injEq]
  refine List.filter_congr fun e _ => ?_
  cases loc.isPrefixOf e.1 <;> simp

theorem children_hollow (t : Tree) (loc : Location) : (t.hollow loc).children loc = [] := by
  have hbelow : (t.hollow loc).below loc = [] := by
    simp only [hollow, below, List.filterMap_eq_nil_iff, List.mem_filter]
    rintro e ⟨-, he⟩
    rw [Bool.not_eq_true'] at he
    simp [he]
  rw [children, hbelow]
  rfl

/-! ### Smaller trees -/

/-- What stands in a tree stands in another. -/
def Less (t t' : Tree) : Prop := ∀ loc entry, t.get? loc = some entry → t'.get? loc = some entry

theorem erase_less (t : Tree) (loc : Location) : (t.erase loc).Less t := by
  intro place entry h
  by_cases hp : place = []
  · subst hp
    rwa [get?_root] at h ⊢
  · rw [get?_erase t loc hp] at h
    split at h
    · cases h
    · exact h

theorem hollow_less (t : Tree) (loc : Location) : (t.hollow loc).Less t := by
  intro place entry h
  by_cases hp : place = []
  · subst hp
    rwa [get?_root] at h ⊢
  · rw [get?_hollow t loc hp] at h
    split at h
    · cases h
    · exact h

end Testbed.Host.Tree
