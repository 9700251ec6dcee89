import Testbed.Locks.History
import Testbed.Proofs.Locks.Clients

/-! Any number of clients that ask for locks, look and give up in any order. A lock has at most one
holder, it goes round in the order in which it was asked for, the first one left in line has it for
the asking, and what happens to one lock leaves all others alone. -/
namespace Testbed.Locks

/-- What a slot asks for: a name in one of the registries. -/
def Slot.lock (x : Slot) : Nat × String := (x.registry, x.client.name)

theorem Slot.mk_eq_iff {k : Nat} {c : Client} {x : Slot} :
    Slot.mk k c = x ↔ k = x.registry ∧ c = x.client := by
  cases x
  exact Slot.mk.injEq .. ▸ Iff.rfl

theorem Slot.eq_mk_iff {k : Nat} {c : Client} {x : Slot} :
    x = Slot.mk k c ↔ k = x.registry ∧ c = x.client :=
  eq_comm.trans Slot.mk_eq_iff

namespace State

variable {s : State}

def line (s : State) (lock : Nat × String) : List Ticket := (s.registry lock.1).line lock.2

/-- The registry that the next request goes to. -/
def target (s : State) (fresh : Bool) : Nat := if fresh then s.registries.length else 0

/-- What the next request for a name is given. -/
def newcomer (s : State) (name : String) (fresh : Bool) : Slot :=
  ⟨s.target fresh, (acquire (s.registry (s.target fresh)) name).1⟩

theorem lock_newcomer (s : State) (name : String) (fresh : Bool) :
    (s.newcomer name fresh).lock = (s.target fresh, name) := by
  rw [Slot.lock, newcomer, acquire_eq, Client.poll_name]

/-- The registries after the next request for a name. -/
def asked (s : State) (name : String) (fresh : Bool) : State :=
  let registries := if fresh then s.registries ++ [.empty] else s.registries
  let r := (acquire (s.registry (s.target fresh)) name).2
  { s with registries := registries.set (s.target fresh) r }

/-- The locks that an operation is about: the one that is asked for, and what is there under the
identifier already. -/
def touched (s : State) : Op → List (Nat × String)
  | .acquire id name fresh => (s.target fresh, name) :: (s.slot? id).toList.map Slot.lock
  | .poll id | .drop id => (s.slot? id).toList.map Slot.lock

/-- Somebody who was given the ticket is there for the lock. -/
def Stands (s : State) (lock : Nat × String) (t : Ticket) : Prop :=
  ∃ id x, s.slot? id = some x ∧ x.lock = lock ∧ x.client.ticket = t

/-- Whoever was given the ticket holds the lock. -/
def Holds (s : State) (lock : Nat × String) (t : Ticket) : Prop :=
  ∃ id x, s.slot? id = some x ∧ x.lock = lock ∧ x.client.ticket = t ∧ x.client.held = true

/-! ### Slots and registries -/

theorem slot?_setSlot (s : State) (id other : String) (slot : Option Slot) :
    (s.setSlot id slot).slot? other = if other = id then slot else s.slot? other := by
  unfold setSlot slot?
  split
  next hany =>
    -- an identifier that is known has its entry replaced
    have hkey (x : String × Option Slot) :
        ((if x.1 == id then (id, slot) else x).1 == other) = (x.1 == other) := by
      by_cases hx : x.1 = id
      · simp [hx]
      · simp [hx]
    rw [List.find?_map, Function.comp_def]
    simp only [hkey]
    split
    next hother =>
      obtain ⟨x, hx⟩ := Option.isSome_iff_exists.1 (List.find?_isSome.2 (List.any_eq_true.1 hany))
      have hxid := List.find?_some hx
      rw [hother, hx]
      simp only [Option.map_some, hxid, if_true, Option.getD_some]
    next hother =>
      cases hx : s.slots.find? (fun x => x.1 == other) with
      | none => rfl
      | some x =>
        have hxid : x.1 = other := by simpa using List.find?_some hx
        have hne : ¬ (x.1 == id) = true := by simpa [hxid] using hother
        simp only [Option.map_some, if_neg hne]
  next hany =>
    rw [List.find?_append]
    split
    next hother =>
      have hnone : s.slots.find? (fun x => x.1 == id) = none :=
        List.find?_eq_none.2 fun x hx h => hany (List.any_eq_true.2 ⟨x, hx, h⟩)
      simp [hnone, hother]
    next hother =>
      have hne : (id == other) = false := beq_eq_false_iff_ne.2 (Ne.symm hother)
      simp [hne]

@[simp] theorem registries_setSlot (s : State) (id : String) (slot : Option Slot) :
    (s.setSlot id slot).registries = s.registries := by
  unfold setSlot
  split <;> rfl

@[simp] theorem registry_setSlot (s : State) (id : String) (slot : Option Slot) (k : Nat) :
    (s.setSlot id slot).registry k = s.registry k := by
  rw [registry, registries_setSlot, registry]

theorem slot?_vacate (s : State) (slot : Option Slot) (id : String) :
    (s.vacate slot).slot? id = s.slot? id := by
  cases slot <;> rfl

@[simp] theorem length_vacate (s : State) (slot : Option Slot) :
    (s.vacate slot).registries.length = s.registries.length := by
  cases slot with
  | none => rfl
  | some x => exact List.length_set

theorem length_asked_pos (hs : 0 < s.registries.length) (name : String) (fresh : Bool) :
    0 < (s.asked name fresh).registries.length := by
  simp only [asked, List.length_set]
  split
  · simp
  · exact hs

theorem getD_set (registries : List Registry) (r : Registry) {k : Nat} (hk : k < registries.length)
    (j : Nat) : (registries.set k r).getD j .empty = if j = k then r else registries.getD j .empty := by
  rw [List.getD_eq_getElem?_getD, List.getD_eq_getElem?_getD, List.getElem?_set, if_pos hk]
  split
  next h => rw [if_pos h.symm, Option.getD_some]
  next h => rw [if_neg (Ne.symm h)]

theorem getD_concat (registries : List Registry) (k : Nat) :
    (registries ++ [Registry.empty]).getD k .empty = registries.getD k .empty := by
  rw [List.getD_eq_getElem?_getD, List.getD_eq_getElem?_getD, List.getElem?_append]
  split
  · rfl
  next h =>
    rw [List.getElem?_eq_none (Nat.not_lt.1 h)]
    cases k - registries.length <;> rfl

theorem registry_vacate {x : Slot} (hx : x.registry < s.registries.length) (k : Nat) :
    (s.vacate (some x)).registry k =
      if k = x.registry then release (s.registry k) x.client else s.registry k := by
  rw [vacate, registry, getD_set _ _ hx]
  split
  next h => rw [h]
  next => rfl

theorem registry_asked (hs : 0 < s.registries.length) (name : String) (fresh : Bool) (k : Nat) :
    (s.asked name fresh).registry k =
      if k = s.target fresh then (acquire (s.registry k) name).2 else s.registry k := by
  rw [asked, registry, getD_set]
  · split
    next h => rw [h]
    next =>
      split
      · exact getD_concat _ k
      · rfl
  · unfold target
    split
    · simp
    · exact hs

/-! ### Steps -/

theorem step_acquire (s : State) (id name : String) (fresh : Bool) :
    s.step (.acquire id name fresh) =
      ((s.asked name fresh).vacate (s.slot? id)).setSlot id (some (s.newcomer name fresh)) := by
  cases fresh with
  | false => rfl
  | true =>
    unfold step asked newcomer target registry
    simp only [if_true, getD_concat]

theorem step_poll {id : String} {x : Slot} (hx : s.slot? id = some x) :
    s.step (.poll id) =
      s.setSlot id (some { x with client := x.client.poll (s.registry x.registry) }) := by
  simp only [step, hx]

theorem step_poll_none {id : String} (hx : s.slot? id = none) : s.step (.poll id) = s := by
  simp only [step, hx]

theorem step_drop (s : State) (id : String) :
    s.step (.drop id) = (s.vacate (s.slot? id)).setSlot id none := rfl

/-! ### Everybody in line -/

/-- Every registry is attended by the slots that `who` puts there. -/
def Fits (s : State) (who : String → Slot → Prop) : Prop :=
  ∀ k, Attended (s.registry k) fun id c => who id ⟨k, c⟩

/-- The registries are attended by the slots that there are. -/
structure Sound (s : State) : Prop where
  main : 0 < s.registries.length
  fits : s.Fits fun id x => s.slot? id = some x

namespace Fits

variable {who who' : String → Slot → Prop}

theorem congr (h : s.Fits who) {s' : State} (hregistry : ∀ k, s'.registry k = s.registry k)
    (hwho : ∀ id x, who' id x ↔ who id x) : s'.Fits who' := by
  intro k
  rw [hregistry]
  exact (h k).congr fun id c => hwho id ⟨k, c⟩

theorem lt_length (h : s.Fits who) {id : String} {x : Slot} (hx : who id x) :
    x.registry < s.registries.length := by
  refine Nat.lt_of_not_le fun hle => ?_
  have hempty : s.registry x.registry = .empty := by
    rw [registry, List.getD_eq_getElem?_getD, List.getElem?_eq_none hle, Option.getD_none]
  have hmem := (h x.registry).stands hx
  rw [hempty] at hmem
  cases hmem

theorem asked (h : s.Fits who) (hmain : 0 < s.registries.length) (id name : String) (fresh : Bool) :
    (s.asked name fresh).Fits fun i x => who i x ∨ i = id ∧ x = s.newcomer name fresh := by
  intro k
  rw [registry_asked hmain]
  split
  next hk =>
    subst hk
    exact ((h _).acquire id name).congr fun i c => by simp [newcomer, Slot.mk_eq_iff]
  next hk =>
    exact (h k).congr fun i c => by simp [newcomer, Slot.mk_eq_iff, hk]

theorem poll (h : s.Fits who) {id : String} {x : Slot} (hx : who id x) :
    s.Fits fun i y => who i y ∧ ¬ (i = id ∧ y = x) ∨
      i = id ∧ y = { x with client := x.client.poll (s.registry x.registry) } := by
  intro k
  by_cases hk : k = x.registry
  · subst hk
    exact ((h _).poll hx).congr fun i c => by simp [Slot.mk_eq_iff]
  · exact (h k).congr fun i c => by simp [Slot.mk_eq_iff, hk]

theorem vacate (h : s.Fits who) {id : String} {slot : Option Slot}
    (hslot : ∀ x, slot = some x → who id x) :
    (s.vacate slot).Fits fun i y => who i y ∧ ¬ (i = id ∧ slot = some y) := by
  cases slot with
  | none => exact h.congr (fun _ => rfl) fun i y => by simp
  | some x =>
    have hx : who id x := hslot x rfl
    intro k
    rw [registry_vacate (h.lt_length hx)]
    split
    next hk =>
      subst hk
      exact ((h _).leave hx).congr fun i c => by simp [Slot.eq_mk_iff, eq_comm]
    next hk =>
      exact (h k).congr fun i c => by simp [Slot.eq_mk_iff, hk]

end Fits

namespace Sound

theorem start : Sound .start where
  main := Nat.one_pos
  fits k := by
    have hempty : State.start.registry k = .empty := by
      cases k <;> rfl
    rw [hempty]
    exact Attended.empty.congr fun id c => iff_of_false nofun not_false

/-- A newcomer is nobody who is there. -/
theorem slot?_ne_newcomer (h : s.Sound) (id name : String) (fresh : Bool) :
    s.slot? id ≠ some (s.newcomer name fresh) := by
  intro hx
  have hearly := (h.fits _).early ((h.fits _).stands hx)
  rw [acquire_eq, Client.poll_ticket] at hearly
  exact Nat.lt_irrefl _ hearly

theorem acquire (h : s.Sound) (id name : String) (fresh : Bool) :
    (s.step (.acquire id name fresh)).Sound := by
  have hold (x : Slot) (hx : s.slot? id = some x) :
      s.slot? id = some x ∨ id = id ∧ x = s.newcomer name fresh := .inl hx
  have hfits := (h.fits.asked h.main id name fresh).vacate hold
  have hne := h.slot?_ne_newcomer id name fresh
  rw [step_acquire]
  refine ⟨by simpa using length_asked_pos h.main name fresh,
    hfits.congr (registry_setSlot _ _ _) fun i y => ?_⟩
  rw [slot?_setSlot, slot?_vacate]
  split
  next hi =>
    subst hi
    constructor
    · intro hy
      cases hy
      exact ⟨.inr ⟨rfl, rfl⟩, fun hy => hne hy.2⟩
    · rintro ⟨hy | ⟨-, rfl⟩, hnot⟩
      · exact absurd ⟨rfl, hy⟩ hnot
      · rfl
  next hi =>
    rw [or_iff_left fun hy => hi hy.1, and_iff_left fun hy => hi hy.1]
    rfl

theorem poll (h : s.Sound) (id : String) : (s.step (.poll id)).Sound := by
  cases hslot : s.slot? id with
  | none =>
    rw [step_poll_none hslot]
    exact h
  | some x =>
    rw [step_poll hslot]
    refine ⟨by simpa using h.main, (h.fits.poll hslot).congr (registry_setSlot _ _ _) fun i y => ?_⟩
    rw [slot?_setSlot]
    split
    next hi =>
      subst hi
      simp [hslot, eq_comm]
    next hi => simp [hi]

theorem drop (h : s.Sound) (id : String) : (s.step (.drop id)).Sound := by
  rw [step_drop]
  refine ⟨by simpa using h.main,
    (h.fits.vacate fun x hx => hx).congr (registry_setSlot _ _ _) fun i y => ?_⟩
  rw [slot?_setSlot, slot?_vacate]
  split
  next hi => simp [hi]
  next hi => simp [hi]

theorem step (h : s.Sound) (op : Op) : (s.step op).Sound := by
  cases op with
  | acquire id name fresh => exact h.acquire id name fresh
  | poll id => exact h.poll id
  | drop id => exact h.drop id

theorem after (h : s.Sound) (ops : List Op) : (ops.foldl State.step s).Sound := by
  induction ops generalizing s with
  | nil => exact h
  | cons op ops ih => exact ih (h.step op)

/-! ### What an operation leaves alone -/

theorem line_vacate {lock : Nat × String} {slot : Option Slot}
    (hslot : ∀ x, slot = some x → x.registry < s.registries.length ∧ x.lock ≠ lock) :
    (s.vacate slot).line lock = s.line lock := by
  cases slot with
  | none => rfl
  | some x =>
    obtain ⟨hx, hne⟩ := hslot x rfl
    rw [line, registry_vacate hx]
    split
    next hk =>
      have hname : lock.2 ≠ x.client.name := fun hn => hne (Prod.ext hk.symm hn.symm)
      rw [release, Registry.line_leave, if_neg hname]
      rfl
    next => rfl

theorem line_asked (hs : 0 < s.registries.length) {lock : Nat × String} {name : String} {fresh : Bool}
    (hlock : lock ≠ (s.target fresh, name)) : (s.asked name fresh).line lock = s.line lock := by
  rw [line, registry_asked hs]
  split
  next hk =>
    have hname : lock.2 ≠ name := fun hn => hlock (Prod.ext hk hn)
    rw [acquire_eq, Registry.line_enter, if_neg hname]
    rfl
  next => rfl

theorem mem_touched {id : String} {x : Slot} (hx : s.slot? id = some x) :
    x.lock ∈ (s.slot? id).toList.map Slot.lock :=
  List.mem_map_of_mem (Option.mem_toList.2 hx)

theorem line_step (h : s.Sound) {op : Op} {lock : Nat × String} (hlock : lock ∉ s.touched op) :
    (s.step op).line lock = s.line lock := by
  have hold (id : String) (hlock : lock ∉ (s.slot? id).toList.map Slot.lock) (x : Slot)
      (hx : s.slot? id = some x) : x.registry < s.registries.length ∧ x.lock ≠ lock :=
    ⟨h.fits.lt_length hx, fun he => hlock (he ▸ mem_touched hx)⟩
  cases op with
  | acquire id name fresh =>
    have hne := List.ne_of_not_mem_cons hlock
    have hlock := List.not_mem_of_not_mem_cons hlock
    have hasked := h.fits.asked h.main id name fresh
    rw [step_acquire, line, registry_setSlot, ← line, line_vacate, line_asked h.main hne]
    exact fun x hx => ⟨hasked.lt_length (.inl hx), (hold id hlock x hx).2⟩
  | poll id =>
    cases hslot : s.slot? id with
    | none => rw [step_poll_none hslot]
    | some x => rw [step_poll hslot, line, registry_setSlot, ← line]
  | drop id => rw [step_drop, line, registry_setSlot, ← line, line_vacate (hold id hlock)]

theorem slot?_step {op : Op} {x : Slot} (hlock : x.lock ∉ s.touched op) (id : String) :
    (s.step op).slot? id = some x ↔ s.slot? id = some x := by
  cases op with
  | acquire i name fresh =>
    have hne := List.ne_of_not_mem_cons hlock
    have hlock := List.not_mem_of_not_mem_cons hlock
    rw [step_acquire, slot?_setSlot, slot?_vacate]
    split
    next hi =>
      subst hi
      refine iff_of_false (fun hx => hne ?_) fun hx => hlock (mem_touched hx)
      cases hx
      exact lock_newcomer ..
    next => rfl
  | poll i =>
    cases hslot : s.slot? i with
    | none => rw [step_poll_none hslot]
    | some y =>
      rw [step_poll hslot, slot?_setSlot]
      split
      next hi =>
        subst hi
        refine iff_of_false (fun hx => hlock ?_) fun hx => hlock (mem_touched hx)
        cases hx
        rw [Slot.lock, Client.poll_name]
        exact mem_touched hslot
      next => rfl
  | drop i =>
    rw [step_drop, slot?_setSlot, slot?_vacate]
    split
    next hi =>
      subst hi
      exact iff_of_false nofun fun hx => hlock (mem_touched hx)
    next => rfl

/-! ### Order of arrival -/

/-- Whoever is there when somebody asks for the same lock has a smaller ticket. -/
theorem lt_newcomer (h : s.Sound) (name : String) (fresh : Bool) {t : Ticket}
    (ht : s.Stands (s.newcomer name fresh).lock t) : t < (s.newcomer name fresh).client.ticket := by
  obtain ⟨id, x, hx, hlock, rfl⟩ := ht
  have hregistry : x.registry = s.target fresh := congrArg Prod.fst hlock
  have hearly := (h.fits _).early ((h.fits _).stands hx)
  rw [hregistry] at hearly
  rw [newcomer, acquire_eq, Client.poll_ticket]
  exact hearly

/-- Whoever holds a lock came before everybody who is there for it. -/
theorem le_of_holds (h : s.Sound) {lock : Nat × String} {t t' : Ticket} (ht : s.Holds lock t)
    (ht' : s.Stands lock t') : t ≤ t' := by
  obtain ⟨id, ⟨k, c⟩, hx, rfl, rfl, hheld⟩ := ht
  obtain ⟨id', ⟨k', c'⟩, hx', hlock, rfl⟩ := ht'
  obtain ⟨rfl, hname⟩ := Prod.mk.inj hlock
  exact (h.fits _).le_of_held hx hheld hx' hname

end Sound

end State

open State in
/-- Locks have one holder at most and go round fairly, whatever their clients do in whatever order.
Whoever asks for a lock stands behind everybody who is there for it, and holds it only when all of
those are gone. While nobody holds a lock, the first one who is there for it has it by looking. What
is done about one lock changes neither the line nor the clients of another. The probe before a
request succeeds just when nobody is there, and it changes no line. -/
theorem exclusive_and_fair (ops : List Op) :
    (∀ id id' x x', (run ops).slot? id = some x → (run ops).slot? id' = some x' →
      x.lock = x'.lock → x.client.held = true → x'.client.held = true → id = id') ∧
    (∀ before after id name fresh x, ops = before ++ .acquire id name fresh :: after →
      ((run before).step (.acquire id name fresh)).slot? id = some x →
      x.lock = ((run before).target fresh, name) ∧
      ∀ t, (run before).Stands x.lock t → t < x.client.ticket ∧
        ((run ops).Holds x.lock x.client.ticket → ¬ (run ops).Stands x.lock t)) ∧
    (∀ id x, (run ops).slot? id = some x → (∀ t, ¬ (run ops).Holds x.lock t) →
      (∀ t, (run ops).Stands x.lock t → x.client.ticket ≤ t) →
      ((run ops).step (.poll id)).slot? id = some { x with client.held := true }) ∧
    (∀ op lock, lock ∉ (run ops).touched op →
      ((run ops).step op).line lock = (run ops).line lock ∧
      ∀ id x, x.lock = lock → (((run ops).step op).slot? id = some x ↔ (run ops).slot? id = some x)) ∧
    (∀ k name, ((((run ops).registry k).probe name).1 = true ↔
        ∀ t, ¬ (run ops).Stands (k, name) t) ∧
      ∀ other, (((run ops).registry k).probe name).2.line other = (run ops).line (k, other)) := by
  have h : (run ops).Sound := Sound.start.after ops
  refine ⟨?_, ?_, ?_, ?_, ?_⟩
  · rintro id id' ⟨k, c⟩ ⟨k', c'⟩ hx hx' hlock hheld hheld'
    obtain ⟨rfl, hname⟩ := Prod.mk.inj hlock
    exact ((h.fits k).exclusive hx hx' hname hheld hheld').1
  · intro before after id name fresh x hops hx
    have hbefore : (run before).Sound := Sound.start.after before
    rw [step_acquire, slot?_setSlot, if_pos rfl, Option.some.injEq] at hx
    subst hx
    refine ⟨lock_newcomer .., fun t ht => ?_⟩
    have hlt := hbefore.lt_newcomer name fresh ht
    exact ⟨hlt, fun hholds hstands => Nat.not_le.2 hlt (h.le_of_holds hholds hstands)⟩
  · intro id x hx _ hfirst
    have howner := (h.fits _).owner_of_first hx fun id' c' hc' hname =>
      hfirst c'.ticket ⟨id', _, hc', Prod.ext rfl hname, rfl⟩
    rw [step_poll hx, slot?_setSlot, if_pos rfl, Client.poll_of_owner howner]
  · intro op lock hlock
    refine ⟨h.line_step hlock, fun id x hx => ?_⟩
    subst hx
    exact Sound.slot?_step hlock id
  · intro k name
    refine ⟨?_, fun other => Registry.line_probe ..⟩
    rw [Registry.probe_fst, List.eq_nil_iff_forall_not_mem]
    constructor
    · rintro hline t ⟨id, ⟨j, c⟩, hx, hlock, rfl⟩
      obtain ⟨rfl, rfl⟩ := Prod.mk.inj hlock
      exact hline _ ((h.fits _).stands hx)
    · intro hnobody t ht
      obtain ⟨id, c, hc, rfl, rfl⟩ := (h.fits k).known ht
      exact hnobody _ ⟨id, _, hc, rfl, rfl⟩

end Testbed.Locks
