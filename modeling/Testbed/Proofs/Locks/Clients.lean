import Testbed.Proofs.Locks

/-! A registry and its clients, who come, look and go in any order. What stands in the lines is what
the clients were given, each client stands behind those who came before, and whoever holds a lock is
first in its line: so a lock has one holder, and the first one left in line has it for the asking. -/
namespace Testbed.Locks

/-- `who i c`: client `c` is there, under the identifier `i`. -/
structure Attended {ι : Type} (r : Registry) (who : ι → Client → Prop) : Prop where
  stands {i c} : who i c → c.ticket ∈ r.line c.name
  known {name t} : t ∈ r.line name → ∃ i c, who i c ∧ c.name = name ∧ c.ticket = t
  apart {i j c c'} : who i c → who j c' → c.name = c'.name → c.ticket = c'.ticket → i = j ∧ c = c'
  sorted (name) : (r.line name).Pairwise (· < ·)
  early {name t} : t ∈ r.line name → t < r.next
  first {i c} : who i c → c.held = true → r.owner? c.name = some c.ticket

namespace Client

variable (c : Client) (r : Registry)

@[simp] theorem poll_name : (c.poll r).name = c.name := by
  unfold poll
  split <;> rfl

@[simp] theorem poll_ticket : (c.poll r).ticket = c.ticket := by
  unfold poll
  split <;> rfl

theorem poll_held : (c.poll r).held = true ↔ c.held = true ∨ r.owner? c.name = some c.ticket := by
  unfold poll
  split
  next h => simp [h]
  next h => simp [h]

theorem poll_of_owner {c : Client} {r : Registry} (h : r.owner? c.name = some c.ticket) :
    c.poll r = { c with held := true } := if_pos h

theorem poll_of_not_held {c : Client} {r : Registry} (h : (c.poll r).held = false) :
    c.poll r = c := by
  unfold poll at h ⊢
  split at h
  · cases h
  next howner => rw [if_neg howner]

end Client

namespace Attended

variable {ι : Type} {r : Registry} {who who' : ι → Client → Prop}

theorem congr (h : Attended r who) (hwho : ∀ i c, who' i c ↔ who i c) : Attended r who' := by
  obtain rfl : who' = who := funext fun i => funext fun c => propext (hwho i c)
  exact h

theorem empty : Attended .empty fun (_ : ι) _ => False where
  stands := False.elim
  known h := by cases h
  apart h := h.elim
  sorted _ := .nil
  early h := by cases h
  first h := h.elim

/-! ### Coming, looking and going -/

/-- A newcomer stands behind everybody. -/
theorem enter (h : Attended r who) (i : ι) (name : String) {c : Client}
    (hc : c = (Client.mk name r.next false).poll (r.enter name).2) :
    Attended (r.enter name).2 fun j d => who j d ∨ j = i ∧ d = c := by
  have hname : c.name = name := by rw [hc, Client.poll_name]
  have hticket : c.ticket = r.next := by rw [hc, Client.poll_ticket]
  -- no line holds the new ticket yet
  have hnew {d : Client} {j : ι} (hd : who j d) : d.ticket ≠ c.ticket := by
    rw [hticket]
    exact Nat.ne_of_lt (h.early (h.stands hd))
  constructor
  case stands =>
    rintro j d (hd | ⟨rfl, rfl⟩)
    · exact (r.mem_line_enter name _).2 (.inl (h.stands hd))
    · exact (r.mem_line_enter name _).2 (.inr ⟨hname, hticket⟩)
  case known =>
    intro other t ht
    obtain hold | ⟨rfl, rfl⟩ := (r.mem_line_enter name other).1 ht
    · obtain ⟨j, d, hd, hdn, hdt⟩ := h.known hold
      exact ⟨j, d, .inl hd, hdn, hdt⟩
    · exact ⟨i, c, .inr ⟨rfl, rfl⟩, hname, hticket⟩
  case apart =>
    rintro j j' d d' (hd | ⟨rfl, rfl⟩) (hd' | ⟨rfl, rfl⟩) hn ht
    · exact h.apart hd hd' hn ht
    · exact absurd ht (hnew hd)
    · exact absurd ht.symm (hnew hd')
    · exact ⟨rfl, rfl⟩
  case sorted =>
    intro other
    rw [Registry.line_enter]
    split
    · refine List.pairwise_append.2 ⟨h.sorted name, List.pairwise_singleton _ _, fun t ht u hu => ?_⟩
      rw [List.mem_singleton.1 hu]
      exact h.early ht
    · exact h.sorted other
  case early =>
    intro other t ht
    have hnext : (r.enter name).2.next = r.next + 1 := rfl
    rw [hnext]
    obtain hold | ⟨-, rfl⟩ := (r.mem_line_enter name other).1 ht
    · exact Nat.lt_succ_of_lt (h.early hold)
    · exact Nat.lt_succ_self _
  case first =>
    rintro j d (hd | ⟨rfl, rfl⟩) hheld
    · exact r.owner?_enter name _ (h.first hd hheld)
    · rw [hc, Client.poll_held] at hheld
      rw [hname, hticket]
      exact hheld.resolve_left Bool.false_ne_true

theorem acquire (h : Attended r who) (i : ι) (name : String) :
    Attended (Locks.acquire r name).2 fun j d => who j d ∨ j = i ∧ d = (Locks.acquire r name).1 := by
  rw [acquire_eq]
  exact h.enter i name rfl

/-- Looking changes nothing for the others. -/
theorem poll (h : Attended r who) {i : ι} {c : Client} (hc : who i c) :
    Attended r fun j d => who j d ∧ ¬ (j = i ∧ d = c) ∨ j = i ∧ d = c.poll r := by
  -- whoever is there afterwards was there before, with the same name and ticket
  have hback {j : ι} {d : Client} (hd : who j d ∧ ¬ (j = i ∧ d = c) ∨ j = i ∧ d = c.poll r) :
      ∃ d', who j d' ∧ d'.name = d.name ∧ d'.ticket = d.ticket := by
    obtain ⟨hd, -⟩ | ⟨rfl, rfl⟩ := hd
    · exact ⟨d, hd, rfl, rfl⟩
    · exact ⟨c, hc, (Client.poll_name ..).symm, (Client.poll_ticket ..).symm⟩
  constructor
  case stands =>
    intro j d hd
    obtain ⟨d', hd', hn, ht⟩ := hback hd
    rw [← hn, ← ht]
    exact h.stands hd'
  case known =>
    intro name t ht
    obtain ⟨j, d, hd, hdn, hdt⟩ := h.known ht
    by_cases he : j = i ∧ d = c
    · obtain ⟨rfl, rfl⟩ := he
      exact ⟨j, d.poll r, .inr ⟨rfl, rfl⟩, (d.poll_name r).trans hdn, (d.poll_ticket r).trans hdt⟩
    · exact ⟨j, d, .inl ⟨hd, he⟩, hdn, hdt⟩
  case apart =>
    rintro j j' d d' (⟨hd, hne⟩ | ⟨rfl, rfl⟩) (⟨hd', hne'⟩ | ⟨rfl, rfl⟩) hn ht
    · exact h.apart hd hd' hn ht
    · rw [Client.poll_name] at hn
      rw [Client.poll_ticket] at ht
      exact absurd (h.apart hd hc hn ht) hne
    · rw [Client.poll_name] at hn
      rw [Client.poll_ticket] at ht
      exact absurd (h.apart hd' hc hn.symm ht.symm) hne'
    · exact ⟨rfl, rfl⟩
  case sorted => exact h.sorted
  case early => exact h.early
  case first =>
    rintro j d (⟨hd, -⟩ | ⟨rfl, rfl⟩) hheld
    · exact h.first hd hheld
    · rw [Client.poll_name, Client.poll_ticket]
      exact ((c.poll_held r).1 hheld).elim (h.first hc) id

/-- Whoever goes leaves the others as they stand. -/
theorem leave (h : Attended r who) {i : ι} {c : Client} (hc : who i c) :
    Attended (release r c) fun j d => who j d ∧ ¬ (j = i ∧ d = c) := by
  -- only the ticket that is given back goes missing
  have hkeep {j : ι} {d : Client} (hd : who j d) (hne : ¬ (j = i ∧ d = c)) (hn : d.name = c.name) :
      d.ticket ≠ c.ticket := fun ht => hne (h.apart hd hc hn ht)
  rw [release]
  constructor
  case stands =>
    rintro j d ⟨hd, hne⟩
    exact (r.mem_line_leave c.name _).2 ⟨h.stands hd, fun hgone => hkeep hd hne hgone.1 hgone.2⟩
  case known =>
    intro name t ht
    obtain ⟨ht, hstays⟩ := (r.mem_line_leave c.name name).1 ht
    obtain ⟨j, d, hd, rfl, rfl⟩ := h.known ht
    exact ⟨j, d, ⟨hd, fun hgone => hstays ⟨hgone.2 ▸ rfl, hgone.2 ▸ rfl⟩⟩, rfl, rfl⟩
  case apart =>
    rintro j j' d d' ⟨hd, -⟩ ⟨hd', -⟩ hn ht
    exact h.apart hd hd' hn ht
  case sorted => exact fun name => (h.sorted name).sublist (r.line_leave_sublist c.name name _)
  case early =>
    exact fun {name t} ht => h.early ((r.line_leave_sublist c.name name _).subset ht)
  case first =>
    rintro j d ⟨hd, hne⟩ hheld
    exact r.owner?_leave c.name _ (h.first hd hheld) (hkeep hd hne)

/-! ### Who holds a lock -/

variable {i j : ι} {c c' : Client}

/-- Whoever holds a lock came before everybody who is there for it. -/
theorem le_of_held (h : Attended r who) (hc : who i c) (hheld : c.held = true) (hc' : who j c')
    (hname : c'.name = c.name) : c.ticket ≤ c'.ticket := by
  have hfirst := h.first hc hheld
  have hmem := h.stands hc'
  have hsorted := h.sorted c.name
  rw [hname] at hmem
  rw [Registry.owner?] at hfirst
  obtain ⟨rest, hline⟩ := List.head?_eq_some_iff.1 hfirst
  rw [hline] at hmem hsorted
  obtain heq | hrest := List.mem_cons.1 hmem
  · exact Nat.le_of_eq heq.symm
  · exact Nat.le_of_lt (List.rel_of_pairwise_cons hsorted hrest)

theorem exclusive (h : Attended r who) (hc : who i c) (hc' : who j c') (hname : c.name = c'.name)
    (hheld : c.held = true) (hheld' : c'.held = true) : i = j ∧ c = c' :=
  h.apart hc hc' hname
    (Nat.le_antisymm (h.le_of_held hc hheld hc' hname.symm) (h.le_of_held hc' hheld' hc hname))

/-- The lock belongs to the first in line. -/
theorem owner_of_first (h : Attended r who) (hc : who i c)
    (hfirst : ∀ j c', who j c' → c'.name = c.name → c.ticket ≤ c'.ticket) :
    r.owner? c.name = some c.ticket := by
  have hmem := h.stands hc
  have hsorted := h.sorted c.name
  rw [Registry.owner?]
  cases hline : r.line c.name with
  | nil =>
    rw [hline] at hmem
    cases hmem
  | cons t rest =>
    have ht : t ∈ r.line c.name := hline ▸ List.mem_cons_self
    obtain ⟨j, c', hc', hname, rfl⟩ := h.known ht
    rw [hline] at hmem hsorted
    obtain heq | hrest := List.mem_cons.1 hmem
    · rw [heq]
      rfl
    · exact absurd (List.rel_of_pairwise_cons hsorted hrest) (Nat.not_lt.2 (hfirst j c' hc' hname))

end Attended

end Testbed.Locks
