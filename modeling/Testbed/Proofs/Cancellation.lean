import Mathlib.Data.List.Induction
import Testbed.Cancellation

/-! Which signals are cancelled. Every handle is one of the pair or a copy of one, so only the flag
of the pair is ever set, and setting it always changes the count. A signal is cancelled when it
comes from the pair and one of its handles was used, whatever became of the handles; whoever waits
for it is done exactly then, also when others act between any two looks. -/
namespace Testbed.Cancellation

/-! ### Histories -/

theorem run_concat (ops : List Op) (op : Op) : run (ops ++ [op]) = (run ops).step op := by
  simp [run]

/-- Where the channel of a signal was made. -/
inductive Origin where
  | pair
  | never
deriving DecidableEq

/-- The signal of that index is the first one of the pair, was made from a handle, or has a channel
of its own that never had one; or it is a copy of such a signal. -/
inductive Descends : Origin → List Op → Nat → Prop
  | pair : Descends .pair [] 0
  | signal {ops : List Op} {h : Nat} (hh : (run ops).handle? h ≠ none) :
      Descends .pair (ops ++ [.signal h]) (run ops).signals.length
  | never (ops : List Op) : Descends .never (ops ++ [.never]) (run ops).signals.length
  | clone {origin : Origin} {ops : List Op} {i : Nat} (h : Descends origin ops i) :
      Descends origin (ops ++ [.cloneSignal i]) (run ops).signals.length
  | later {origin : Origin} {ops : List Op} {i : Nat} (h : Descends origin ops i) (op : Op) :
      Descends origin (ops ++ [op]) i

/-- One of the operations used a handle that was there. -/
def Raised (ops : List Op) : Prop :=
  ∃ before h after, ops = before ++ .cancel h :: after ∧ (run before).handle? h ≠ none

theorem Raised.append {ops : List Op} (h : Raised ops) (more : List Op) : Raised (ops ++ more) := by
  obtain ⟨before, i, after, rfl, hi⟩ := h
  exact ⟨before, i, after ++ more, by simp, hi⟩

theorem raised_concat_iff {ops : List Op} {op : Op} :
    Raised (ops ++ [op]) ↔ Raised ops ∨ ∃ h, op = .cancel h ∧ (run ops).handle? h ≠ none := by
  constructor
  · rintro ⟨before, h, after, heq, hh⟩
    rcases List.eq_nil_or_concat after with rfl | ⟨after', last, rfl⟩
    · obtain ⟨rfl, hop⟩ := List.append_inj' heq rfl
      exact .inr ⟨h, by simpa using hop, hh⟩
    · rw [List.concat_eq_append, ← List.cons_append, ← List.append_assoc] at heq
      exact .inl ⟨before, h, after', (List.append_inj' heq rfl).1, hh⟩
  · rintro (h | ⟨h, rfl, hh⟩)
    · exact h.append _
    · exact ⟨ops, h, [], rfl, hh⟩

/-! ### What an operation does -/

namespace State

variable {s : State} {x : Signal}

theorem isOpen_iff : s.isOpen x = true ↔ ∃ i, s.handle? i = some x.channel := by
  simp only [isOpen, List.contains_iff_mem, List.mem_iff_getElem?, handle?, Option.join_eq_some_iff]

/-- Handles are copied and dropped, never made anew. -/
theorem handle?_of_step {op : Op} {i k : Nat} (h : (s.step op).handle? i = some k) :
    ∃ j, s.handle? j = some k := by
  cases op with
  | cloneHandle j =>
    simp only [step] at h
    split at h
    next k' hk =>
      simp only [handle?, Option.join_eq_some_iff, List.getElem?_append] at h
      split at h
      · exact ⟨i, by rw [handle?, h, Option.join_some]⟩
      · rw [List.getElem?_singleton] at h
        split at h
        · cases h
          exact ⟨j, hk⟩
        · cases h
    next => exact ⟨i, h⟩
  | dropHandle j =>
    simp only [step, handle?, Option.join_eq_some_iff, List.getElem?_set] at h
    split at h
    · split at h <;> cases h
    · exact ⟨i, by rw [handle?, h, Option.join_some]⟩
  | cancel j | signal j | cloneSignal j =>
    simp only [step] at h
    split at h <;> exact ⟨i, h⟩
  | never => exact ⟨i, h⟩

/-- A channel that is closed stays closed. -/
theorem isOpen_of_step {op : Op} (h : (s.step op).isOpen x = true) : s.isOpen x = true := by
  obtain ⟨i, hi⟩ := isOpen_iff.1 h
  exact isOpen_iff.2 (handle?_of_step hi)

theorem length_channels_le (s : State) (op : Op) :
    s.channels.length ≤ (s.step op).channels.length := by
  cases op with
  | never => simp [step]
  | dropHandle => exact Nat.le_refl _
  | _ =>
    simp only [step]
    split <;> simp

theorem step_cancel {i k : Nat} (hk : s.handle? i = some k) (hlt : k < s.channels.length) :
    (s.step (.cancel i)).channelOf ⟨k⟩ = (s.channelOf ⟨k⟩).raise := by
  simp [step, hk, channelOf, List.getD_eq_getElem?_getD, List.getElem?_eq_getElem hlt]

/-- A flag is left alone, or set anew by a handle that is there. -/
theorem step_channelOf (hx : x.channel < s.channels.length) (op : Op) :
    (s.step op).channelOf x = s.channelOf x ∨
      (∃ i, op = .cancel i ∧ s.handle? i = some x.channel) ∧
        (s.step op).channelOf x = (s.channelOf x).raise := by
  cases op with
  | cancel i =>
    cases hk : s.handle? i with
    | some k =>
      by_cases heq : k = x.channel
      · subst heq
        exact .inr ⟨⟨i, rfl, hk⟩, step_cancel hk hx⟩
      · refine .inl ?_
        simp [step, hk, channelOf, List.getD_eq_getElem?_getD, heq]
    | none => exact .inl (by simp [step, hk])
  | never =>
    refine .inl ?_
    simp [step, channelOf, List.getD_eq_getElem?_getD, List.getElem?_append_left hx]
  | dropHandle => exact .inl rfl
  | signal i | cloneHandle i | cloneSignal i =>
    simp only [step]
    split <;> exact .inl rfl

/-- A channel that is made has its flag down. -/
theorem step_channelOf_new (hx : s.channels.length ≤ x.channel) (op : Op) :
    (s.step op).channelOf x = .lowered := by
  have hnone : s.channelOf x = .lowered := by
    simp [channelOf, List.getD_eq_getElem?_getD, List.getElem?_eq_none hx]
  cases op with
  | never =>
    simp only [step, channelOf, List.getD_eq_getElem?_getD]
    rw [List.getElem?_append_right hx, List.getElem?_singleton]
    split <;> rfl
  | cancel i =>
    simp only [step]
    split
    next k _ =>
      have hlen : (s.channels.modify k Channel.raise).length ≤ x.channel := by simpa using hx
      simp [channelOf, List.getD_eq_getElem?_getD, List.getElem?_eq_none hlen]
    next => exact hnone
  | dropHandle i => exact hnone
  | signal i | cloneHandle i | cloneSignal i =>
    simp only [step]
    split <;> exact hnone

/-- What an operation does to the signals: one is made from a handle, copied, or made with a channel
of its own, or there are no others. -/
inductive Makes (s : State) : Op → List Signal → Prop
  | signal {i k : Nat} (hk : s.handle? i = some k) : Makes s (.signal i) [⟨k⟩]
  | clone {i : Nat} {x : Signal} (hx : s.signals[i]? = some x) : Makes s (.cloneSignal i) [x]
  | never : Makes s .never [⟨s.channels.length⟩]
  | nothing (op : Op) : Makes s op []

theorem step_signals (s : State) (op : Op) :
    ∃ new, Makes s op new ∧ (s.step op).signals = s.signals ++ new := by
  have hsame : ∃ new, Makes s op new ∧ s.signals = s.signals ++ new :=
    ⟨[], .nothing op, (List.append_nil _).symm⟩
  cases op with
  | signal i =>
    simp only [step]
    split
    next k hk => exact ⟨_, .signal hk, rfl⟩
    next => exact hsame
  | cloneSignal i =>
    simp only [step]
    split
    next x hx => exact ⟨_, .clone hx, rfl⟩
    next => exact hsame
  | never => exact ⟨_, .never, rfl⟩
  | dropHandle i => exact hsame
  | cancel i | cloneHandle i =>
    simp only [step]
    split <;> exact hsame

/-- All handles are of the pair, so only its flag may be up. -/
structure Sound (s : State) : Prop where
  pair : 0 < s.channels.length
  handles : ∀ i k, s.handle? i = some k → k = 0
  others : ∀ k ≠ 0, s.isCancelled ⟨k⟩ = false
  signals : ∀ x ∈ s.signals, x.channel < s.channels.length

theorem start_sound : Sound start where
  pair := by decide
  handles i k h := by
    simp only [handle?, start, List.getElem?_singleton] at h
    split at h <;> cases h
    rfl
  others k hk := by
    cases k with
    | zero => exact absurd rfl hk
    | succ k => rfl
  signals := by decide

theorem Sound.step (h : s.Sound) (op : Op) : (s.step op).Sound where
  pair := Nat.lt_of_lt_of_le h.pair (s.length_channels_le op)
  handles i k hk := by
    obtain ⟨j, hj⟩ := handle?_of_step hk
    exact h.handles j k hj
  others k hk := by
    rcases Nat.lt_or_ge k s.channels.length with hlt | hge
    · rcases step_channelOf (x := ⟨k⟩) hlt op with heq | ⟨⟨i, -, hi⟩, -⟩
      · rw [isCancelled, heq]
        exact h.others k hk
      · exact absurd (h.handles i k hi) hk
    · rw [isCancelled, step_channelOf_new (x := ⟨k⟩) hge]
      rfl
  signals x hx := by
    obtain ⟨new, hmakes, hnew⟩ := s.step_signals op
    rw [hnew, List.mem_append] at hx
    have hle := s.length_channels_le op
    rcases hx with hx | hx
    · exact Nat.lt_of_lt_of_le (h.signals x hx) hle
    cases hmakes with
    | signal hk =>
      rw [List.mem_singleton.1 hx, h.handles _ _ hk]
      exact Nat.lt_of_lt_of_le h.pair hle
    | clone hy =>
      rw [List.mem_singleton.1 hx]
      exact Nat.lt_of_lt_of_le (h.signals _ (List.mem_of_getElem? hy)) hle
    | never =>
      rw [List.mem_singleton.1 hx]
      simp [State.step]
    | nothing => cases hx

end State

theorem run_sound (ops : List Op) : (run ops).Sound := by
  induction ops using List.reverseRecOn with
  | nil => exact State.start_sound
  | append_singleton ops op ih =>
    rw [run_concat]
    exact ih.step op

/-! ### Which signals are cancelled -/

/-- The flag of the pair is up once a handle was used. -/
theorem isCancelled_pair_iff (ops : List Op) : (run ops).isCancelled ⟨0⟩ = true ↔ Raised ops := by
  induction ops using List.reverseRecOn with
  | nil =>
    refine iff_of_false (by decide) ?_
    rintro ⟨before, h, after, heq, -⟩
    simp at heq
  | append_singleton ops op ih =>
    have hsound := run_sound ops
    rw [raised_concat_iff, run_concat, ← ih, State.isCancelled, State.isCancelled]
    by_cases hused : ∃ h, op = .cancel h ∧ (run ops).handle? h ≠ none
    · have hraised : (((run ops).step op).channelOf ⟨0⟩).raised = true := by
        obtain ⟨h, rfl, hh⟩ := hused
        obtain ⟨k, hk⟩ := Option.ne_none_iff_exists'.1 hh
        obtain rfl := hsound.handles h k hk
        rw [State.step_cancel hk hsound.pair]
        rfl
      exact iff_of_true hraised (.inr hused)
    · rw [or_iff_left hused]
      rcases State.step_channelOf (x := ⟨0⟩) hsound.pair op with heq | ⟨⟨i, hop, hi⟩, -⟩
      · rw [heq]
      · exact absurd ⟨i, hop, by simp [hi]⟩ hused

/-- Signals stay at their indexes. -/
theorem signals_append {ops : List Op} {i : Nat} {x : Signal} (hx : (run ops).signals[i]? = some x)
    (more : List Op) : (run (ops ++ more)).signals[i]? = some x := by
  induction more using List.reverseRecOn with
  | nil => rwa [List.append_nil]
  | append_singleton more op ih =>
    obtain ⟨new, -, hnew⟩ := (run (ops ++ more)).step_signals op
    have hlt := (List.getElem?_eq_some_iff.1 ih).1
    rw [← List.append_assoc, run_concat, hnew, List.getElem?_append_left hlt, ih]

theorem Descends.exists_signal {origin : Origin} {ops : List Op} {i : Nat}
    (h : Descends origin ops i) :
    ∃ x, (run ops).signals[i]? = some x ∧ (x.channel = 0 ↔ origin = .pair) := by
  induction h with
  | pair => exact ⟨⟨0⟩, rfl, by simp⟩
  | @signal ops h hh =>
    obtain ⟨k, hk⟩ := Option.ne_none_iff_exists'.1 hh
    refine ⟨⟨k⟩, ?_, by simp [(run_sound ops).handles h k hk]⟩
    simp [run_concat, State.step, hk]
  | never ops =>
    refine ⟨⟨(run ops).channels.length⟩, by simp [run_concat, State.step], ?_⟩
    have hne := Nat.ne_of_gt (run_sound ops).pair
    exact iff_of_false hne nofun
  | @clone origin ops i h ih =>
    obtain ⟨x, hx, horigin⟩ := ih
    exact ⟨x, by simp [run_concat, State.step, hx], horigin⟩
  | later h op ih =>
    obtain ⟨x, hx, horigin⟩ := ih
    exact ⟨x, signals_append hx [op], horigin⟩

theorem exists_descends {ops : List Op} {i : Nat} {x : Signal}
    (hx : (run ops).signals[i]? = some x) : ∃ origin, Descends origin ops i := by
  induction ops using List.reverseRecOn generalizing i x with
  | nil =>
    obtain rfl : i = 0 := by
      have hlt := (List.getElem?_eq_some_iff.1 hx).1
      simpa [run, start] using hlt
    exact ⟨.pair, .pair⟩
  | append_singleton ops op ih =>
    obtain ⟨new, hmakes, hnew⟩ := (run ops).step_signals op
    rw [run_concat, hnew, List.getElem?_append] at hx
    split at hx
    · obtain ⟨origin, ho⟩ := ih hx
      exact ⟨origin, ho.later op⟩
    next hge =>
      have hlt := (List.getElem?_eq_some_iff.1 hx).1
      have hindex (hone : new.length = 1) : i = (run ops).signals.length := by omega
      cases hmakes with
      | signal hk =>
        rw [hindex rfl]
        exact ⟨.pair, .signal (by simp [hk])⟩
      | clone hy =>
        obtain ⟨origin, ho⟩ := ih hy
        rw [hindex rfl]
        exact ⟨origin, ho.clone⟩
      | never =>
        rw [hindex rfl]
        exact ⟨.never, .never ops⟩
      | nothing => simp at hlt

theorem descends_pair_iff {ops : List Op} {i : Nat} {x : Signal}
    (hx : (run ops).signals[i]? = some x) : Descends .pair ops i ↔ x.channel = 0 := by
  have hchannel {origin : Origin} (h : Descends origin ops i) : x.channel = 0 ↔ origin = .pair := by
    obtain ⟨y, hy, horigin⟩ := h.exists_signal
    rw [hx] at hy
    cases hy
    exact horigin
  refine ⟨fun h => (hchannel h).2 rfl, fun h => ?_⟩
  obtain ⟨origin, ho⟩ := exists_descends hx
  rwa [(hchannel ho).1 h] at ho

theorem isCancelled_iff {ops : List Op} {i : Nat} {x : Signal}
    (hx : (run ops).signals[i]? = some x) :
    (run ops).isCancelled x = true ↔ Descends .pair ops i ∧ Raised ops := by
  obtain ⟨k⟩ := x
  rw [descends_pair_iff hx]
  by_cases hk : k = 0
  · subst hk
    rw [isCancelled_pair_iff, and_iff_right rfl]
  · rw [(run_sound ops).others k hk]
    simp [hk]

/-- Without a handle that is left nothing is raised any more. -/
theorem Raised.of_append {ops more : List Op} (h : Raised (ops ++ more))
    (hgone : ∀ i, (run ops).handle? i = none) : Raised ops := by
  have hnone (more : List Op) : ∀ i, (run (ops ++ more)).handle? i = none := by
    induction more using List.reverseRecOn with
    | nil => rwa [List.append_nil]
    | append_singleton more op ih =>
      intro i
      rw [← List.append_assoc, run_concat, Option.eq_none_iff_forall_ne_some]
      intro k hk
      obtain ⟨j, hj⟩ := State.handle?_of_step hk
      rw [ih j] at hj
      cases hj
  induction more using List.reverseRecOn with
  | nil => rwa [List.append_nil] at h
  | append_singleton more op ih =>
    rw [← List.append_assoc, raised_concat_iff] at h
    rcases h with h | ⟨i, -, hi⟩
    · exact ih h
    · exact absurd (hnone more i) hi

/-! ### Waiting -/

/-- What happens while someone waits for a signal. -/
inductive Beat where
  | act (op : Op)
  /-- The waiter makes its next step. -/
  | advance
deriving DecidableEq, Repr

def Beat.op? : Beat → Option Op
  | .act op => some op
  | .advance => none

namespace Waiter

/-- The waiter after some beats. -/
def among (x : Signal) : State → Waiter → List Beat → Waiter
  | _, a, [] => a
  | s, a, .act op :: beats => among x (s.step op) a beats
  | s, a, .advance :: beats => among x s (a.advance s x) beats

/-- What a waiter has seen is so still: as long as the count is the same the flag is, and where the
channel was closed nothing will raise it. -/
def Fits (s : State) (x : Signal) : Waiter → Prop
  | .looking => True
  | .watching version =>
    version ≤ (s.channelOf x).version ∧
      (version = (s.channelOf x).version → s.isCancelled x = false)
  | .stranded => s.isOpen x = false ∧ s.isCancelled x = false
  | .done => s.isCancelled x = true

variable {s : State} {x : Signal} {a : Waiter}

theorem Fits.advance (h : a.Fits s x) : (a.advance s x).Fits s x := by
  cases a with
  | looking =>
    rw [Waiter.advance]
    split
    next hup => exact hup
    next hdown => exact ⟨Nat.le_refl _, fun _ => by simpa using hdown⟩
  | watching version =>
    rw [Waiter.advance]
    split
    · trivial
    next hsame =>
      split
      · exact h
      next hclosed => exact ⟨by simpa using hclosed, h.2 (by simpa using hsame)⟩
  | stranded | done => exact h

theorem Fits.step (h : a.Fits s x) (hx : x.channel < s.channels.length) (op : Op) :
    a.Fits (s.step op) x := by
  rcases State.step_channelOf hx op with heq | ⟨⟨i, -, hi⟩, heq⟩
  · have hsame : (s.step op).isCancelled x = s.isCancelled x := by
      rw [State.isCancelled, heq, State.isCancelled]
    cases a with
    | looking => trivial
    | watching version => rwa [Fits, heq, hsame]
    | stranded =>
      obtain ⟨hclosed, hdown⟩ := h
      refine ⟨?_, hsame.trans hdown⟩
      by_contra hopen
      rw [State.isOpen_of_step (by simpa using hopen)] at hclosed
      cases hclosed
    | done => exact hsame.trans h
  · cases a with
    | looking => trivial
    | watching version =>
      -- the count has left behind whatever was seen of it
      rw [Fits, heq]
      have hle : version ≤ (s.channelOf x).version := h.1
      refine ⟨Nat.le_succ_of_le hle, fun hcount => ?_⟩
      simp only [Channel.raise] at hcount
      omega
    | stranded =>
      rw [Fits, State.isOpen_iff.2 ⟨i, hi⟩] at h
      cases h.1
    | done =>
      rw [Fits, State.isCancelled, heq]
      rfl

/-- A waiter that goes on alone is done where the flag is up, and comes to rest where it is not. -/
theorem poll_eq_done_iff (h : a.Fits s x) : a.poll s x = .done ↔ s.isCancelled x = true := by
  have hfits : (a.poll s x).Fits s x := h.advance.advance.advance
  refine ⟨fun hdone => by rwa [hdone] at hfits, fun hup => ?_⟩
  have hlook : Waiter.advance s x .looking = .done := if_pos hup
  have hdone : Waiter.advance s x .done = .done := rfl
  cases a with
  | looking => rw [poll, hlook, hdone, hdone]
  | watching version =>
    have hchanged : version ≠ (s.channelOf x).version := by
      rintro rfl
      rw [Fits, hup] at h
      cases h.2 rfl
    have hagain : Waiter.advance s x (.watching version) = .looking := if_pos hchanged
    rw [poll, hagain, hlook, hdone]
  | stranded =>
    rw [Fits, hup] at h
    cases h.2
  | done => rfl

theorem among_fits {ops : List Op} {i : Nat} (hx : (run ops).signals[i]? = some x)
    (h : a.Fits (run ops) x) (beats : List Beat) :
    (a.among x (run ops) beats).Fits (run (ops ++ beats.filterMap Beat.op?)) x := by
  induction beats generalizing ops a with
  | nil => rwa [List.filterMap_nil, List.append_nil]
  | cons beat beats ih =>
    cases beat with
    | act op =>
      have hlt := (run_sound ops).signals x (List.mem_of_getElem? hx)
      have hnext := h.step hlt op
      rw [← run_concat] at hnext
      have hlater := ih (signals_append hx [op]) hnext
      rwa [List.append_assoc, run_concat] at hlater
    | advance => exact ih hx h.advance

end Waiter

theorem fires_eq (s : State) (x : Signal) : s.fires x = s.isCancelled x := by
  rw [Bool.eq_iff_iff, State.fires, beq_iff_eq]
  exact Waiter.poll_eq_done_iff trivial

/-- A signal is cancelled when it descends from the pair and a handle of the pair was used, whenever
the signal was made and whatever became of the handles. Looking at the flag and waiting for it tell
the same, also when other operations come between the steps of the waiter. A signal that is
cancelled stays so; one that no handle is left for, or ever was, is never cancelled any more, and
nobody who waits for it is done. -/
theorem signals_observe (ops : List Op) {i : Nat} {x : Signal}
    (hx : (run ops).signals[i]? = some x) :
    ((run ops).isCancelled x = true ↔ Descends .pair ops i ∧ Raised ops) ∧
    (run ops).fires x = (run ops).isCancelled x ∧
    (∀ beats, let s := run (ops ++ beats.filterMap Beat.op?)
      let a := Waiter.looking.among x (run ops) beats
      (a = .done → s.isCancelled x = true) ∧ (a.poll s x = .done ↔ s.isCancelled x = true)) ∧
    (∀ more, (run (ops ++ more)).signals[i]? = some x ∧
      ((run ops).isCancelled x = true → (run (ops ++ more)).isCancelled x = true)) ∧
    (Descends .never ops i ∨ (∀ h, (run ops).handle? h = none) ∧ ¬ Raised ops →
      (∀ more, (run (ops ++ more)).isCancelled x = false ∧ (run (ops ++ more)).fires x = false) ∧
      ∀ beats, Waiter.looking.among x (run ops) beats ≠ .done) := by
  have hfits (beats : List Beat) := Waiter.among_fits hx (a := .looking) trivial beats
  have hlater (more : List Op) := isCancelled_iff (signals_append hx more)
  have hpair (more : List Op) : Descends .pair (ops ++ more) i ↔ Descends .pair ops i := by
    rw [descends_pair_iff hx, descends_pair_iff (signals_append hx more)]
  refine ⟨isCancelled_iff hx, fires_eq _ _, fun beats => ⟨fun hdone => ?_, ?_⟩, fun more =>
    ⟨signals_append hx more, fun hup => ?_⟩, fun hnever => ?_⟩
  · have h := hfits beats
    rwa [hdone] at h
  · exact Waiter.poll_eq_done_iff (hfits beats)
  · obtain ⟨hdescends, hraised⟩ := (isCancelled_iff hx).1 hup
    exact (hlater more).2 ⟨(hpair more).2 hdescends, hraised.append more⟩
  · have hdown (more : List Op) : (run (ops ++ more)).isCancelled x = false := by
      rw [Bool.eq_false_iff]
      intro hup
      obtain ⟨hdescends, hraised⟩ := (hlater more).1 hup
      rcases hnever with hnever | ⟨hgone, hnot⟩
      · obtain ⟨y, hy, horigin⟩ := hnever.exists_signal
        rw [hx] at hy
        cases hy
        cases horigin.1 ((descends_pair_iff hx).1 ((hpair more).1 hdescends))
      · exact hnot (hraised.of_append hgone)
    refine ⟨fun more => ⟨hdown more, (fires_eq _ _).trans (hdown more)⟩, fun beats hdone => ?_⟩
    have h := hfits beats
    rw [hdone] at h
    exact absurd h (by rw [Waiter.Fits, hdown]; exact Bool.false_ne_true)

/-- A handle is copied, the first one is dropped, the copy is used and dropped too: a copy of the
signal that is made after all that is cancelled. -/
theorem signals_observe_late :
    let ops : List Op := [.cloneHandle 0, .dropHandle 0, .cancel 1, .dropHandle 1, .cloneSignal 0]
    (run ops).signals[1]? = some ⟨0⟩ ∧ (∀ h, (run ops).handle? h = none) ∧
      (run ops).isCancelled ⟨0⟩ = true ∧ Descends .pair ops 1 ∧ Raised ops ∧
      (run ops).fires ⟨0⟩ = true ∧ (run (ops ++ [.never])).isCancelled ⟨0⟩ = true := by
  intro ops
  have hx : (run ops).signals[1]? = some ⟨0⟩ := by decide
  have hup : (run ops).isCancelled ⟨0⟩ = true := by decide
  have hgone : ∀ h, (run ops).handle? h = none := by
    intro h
    match h with
    | 0 | 1 | _ + 2 => rfl
  obtain ⟨hiff, hfires, -, hstays, -⟩ := signals_observe ops hx
  exact ⟨hx, hgone, hup, (hiff.1 hup).1, (hiff.1 hup).2, hfires.trans hup, (hstays [.never]).2 hup⟩

end Testbed.Cancellation
