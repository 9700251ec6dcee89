import Testbed.World

/-! What an operation on a world leaves alone. Talking changes the journal only, and a call on files
the host only. -/
namespace Testbed.World

variable (w : World)

@[simp] theorem note_host (level : Level) (env : Option String) (text : String) :
    (w.note level env text).host = w.host := rfl

@[simp] theorem note_installs (level : Level) (env : Option String) (text : String) :
    (w.note level env text).installs = w.installs := rfl

@[simp] theorem note_locks (level : Level) (env : Option String) (text : String) :
    (w.note level env text).locks = w.locks := rfl

@[simp] theorem noteAll_host (ns : List Note) : (w.noteAll ns).host = w.host := by
  induction ns generalizing w with
  | nil => rfl
  | cons n ns ih => exact ih (w.say (.note n))

@[simp] theorem noteAll_installs (ns : List Note) : (w.noteAll ns).installs = w.installs := by
  induction ns generalizing w with
  | nil => rfl
  | cons n ns ih => exact ih (w.say (.note n))

@[simp] theorem noteAll_locks (ns : List Note) : (w.noteAll ns).locks = w.locks := by
  induction ns generalizing w with
  | nil => rfl
  | cons n ns ih => exact ih (w.say (.note n))

@[simp] theorem noteAll_adrift (ns : List Note) : (w.noteAll ns).adrift = w.adrift := by
  induction ns generalizing w with
  | nil => rfl
  | cons n ns ih => exact ih (w.say (.note n))

@[simp] theorem withTree_host (t : Host.Tree) : (w.withTree t).host = { w.host with tree := t } := rfl

@[simp] theorem withTree_installs (t : Host.Tree) : (w.withTree t).installs = w.installs := rfl

@[simp] theorem withTree_locks (t : Host.Tree) : (w.withTree t).locks = w.locks := rfl

@[simp] theorem withTree_adrift (t : Host.Tree) : (w.withTree t).adrift = w.adrift := rfl

theorem attempt_fst (call : Host.FileCall) :
    (w.attempt call).1 = { w with host := w.host.after call } := by
  unfold attempt Host.after
  cases w.host.perform call <;> rfl

theorem attempt_ok (call : Host.FileCall) {h : Host} (ho : w.host.perform call = .ok h) :
    w.attempt call = ({ w with host := h }, none) := by
  rw [attempt, ho]

theorem attempt_error (call : Host.FileCall) {fault : Host.Fault Host}
    (ho : w.host.perform call = .error fault) :
    w.attempt call = ({ w with host := fault.left }, some fault.cause) := by
  rw [attempt, ho]

/-! ### What was told -/

@[simp] theorem emit_events (e : Event) :
    (w.emit e).journal.events = w.journal.events ++ [e] := by
  simp [emit, say, Journal.events]

@[simp] theorem note_events (level : Level) (env : Option String) (text : String) :
    (w.note level env text).journal.events = w.journal.events := by
  simp [note, say, Journal.events]

/-! ### Nothing done -/

/-- Nothing was installed or started, and the run is cancelled or not as before. -/
structure Keeps (w w' : World) : Prop where
  installs : w'.installs = w.installs
  launches : w'.launches = w.launches
  cancelled : w'.cancelled = w.cancelled

/-- There was no event either. -/
structure Quiet (w w' : World) : Prop extends Keeps w w' where
  events : w'.journal.events = w.journal.events

/-- The same was told, installed and started. -/
structure SameRecord (w w' : World) : Prop where
  events : w'.journal.events = w.journal.events
  installs : w'.installs = w.installs
  launches : w'.launches = w.launches

/-- The files are the same, and so are the calls that are adrift. -/
structure SameFiles (w w' : World) : Prop where
  host : w'.host = w.host
  adrift : w'.adrift = w.adrift

/-- The locks are the same, too. -/
structure SameGround (w w' : World) : Prop extends SameFiles w w' where
  locks : w'.locks = w.locks

variable {w}

theorem Keeps.refl (w : World) : w.Keeps w := ⟨rfl, rfl, rfl⟩

theorem Keeps.trans {w₁ w₂ w₃ : World} (h : w₁.Keeps w₂) (h' : w₂.Keeps w₃) : w₁.Keeps w₃ :=
  ⟨h'.installs.trans h.installs, h'.launches.trans h.launches, h'.cancelled.trans h.cancelled⟩

theorem Quiet.refl (w : World) : w.Quiet w := ⟨.refl w, rfl⟩

theorem Quiet.trans {w₁ w₂ w₃ : World} (h : w₁.Quiet w₂) (h' : w₂.Quiet w₃) : w₁.Quiet w₃ :=
  ⟨h.toKeeps.trans h'.toKeeps, h'.events.trans h.events⟩

theorem Quiet.sameRecord {w' : World} (h : w.Quiet w') : w.SameRecord w' :=
  ⟨h.events, h.installs, h.launches⟩

theorem SameFiles.refl (w : World) : w.SameFiles w := ⟨rfl, rfl⟩

theorem SameFiles.trans {w₁ w₂ w₃ : World} (h : w₁.SameFiles w₂) (h' : w₂.SameFiles w₃) :
    w₁.SameFiles w₃ := ⟨h'.host.trans h.host, h'.adrift.trans h.adrift⟩

theorem SameRecord.refl (w : World) : w.SameRecord w := ⟨rfl, rfl, rfl⟩

theorem emit_keeps (w : World) (e : Event) : w.Keeps (w.emit e) := ⟨rfl, rfl, rfl⟩

theorem note_quiet (w : World) (level : Level) (env : Option String) (text : String) :
    w.Quiet (w.note level env text) :=
  ⟨⟨rfl, rfl, rfl⟩, w.note_events level env text⟩

/-! ### Nothing but notes -/

/-- All that was told are notes of one kind, and nothing was done besides. -/
structure Notes (kind : Note → Prop) (w w' : World) : Prop extends Keeps w w' where
  lines : ∃ new, w'.journal = w.journal ++ new ∧
    ∀ line ∈ new, ∃ n, line.remark = .note n ∧ kind n

variable {kind kind' : Note → Prop} {w₁ w₂ : World}

theorem notes_of_journal (hk : w.Keeps w₁) (hj : w₁.journal = w.journal) : w.Notes kind w₁ :=
  ⟨hk, [], by rw [hj, List.append_nil], nofun⟩

theorem Notes.refl (w : World) : w.Notes kind w := notes_of_journal (.refl w) rfl

theorem Notes.trans (h : w.Notes kind w₁) (h' : w₁.Notes kind w₂) : w.Notes kind w₂ := by
  obtain ⟨lines, hlines, hkind⟩ := h.lines
  obtain ⟨lines', hlines', hkind'⟩ := h'.lines
  refine ⟨h.toKeeps.trans h'.toKeeps, lines ++ lines', ?_, ?_⟩
  · rw [hlines', hlines, List.append_assoc]
  · rw [List.forall_mem_append]
    exact ⟨hkind, hkind'⟩

theorem Notes.mono (h : w.Notes kind w₁) (hk : ∀ n, kind n → kind' n) : w.Notes kind' w₁ := by
  obtain ⟨lines, hlines, hkind⟩ := h.lines
  refine ⟨h.toKeeps, lines, hlines, fun line hl => ?_⟩
  obtain ⟨n, hn, hkn⟩ := hkind line hl
  exact ⟨n, hn, hk n hkn⟩

theorem Notes.quiet (h : w.Notes kind w₁) : w.Quiet w₁ where
  toKeeps := h.toKeeps
  events := by
    obtain ⟨lines, hlines, hkind⟩ := h.lines
    have hnone : Journal.events lines = [] := by
      refine List.filterMap_eq_nil_iff.2 fun line hl => ?_
      obtain ⟨n, hn, -⟩ := hkind line hl
      rw [hn]
    rw [hlines, Journal.events, List.filterMap_append]
    exact (congrArg _ hnone).trans (List.append_nil _)

theorem note_notes (w : World) (level : Level) (env : Option String) (text : String)
    (h : kind ⟨level, env, text⟩) : w.Notes kind (w.note level env text) :=
  ⟨⟨rfl, rfl, rfl⟩, [⟨w.span, .note ⟨level, env, text⟩⟩], rfl, by simpa using h⟩

theorem noteAll_notes (w : World) {ns : List Note} (h : ∀ n ∈ ns, kind n) :
    w.Notes kind (w.noteAll ns) := by
  induction ns generalizing w with
  | nil => exact .refl w
  | cons n ns ih =>
    rw [List.forall_mem_cons] at h
    exact (w.note_notes n.level n.env n.text h.1).trans (ih _ h.2)

/-- What others left behind is taken over, and with it what they noted. -/
theorem withTree_noteAll_notes (w : World) (t : Host.Tree) (ns : List Note) :
    w.Notes (· ∈ ns) ((w.withTree t).noteAll ns) := by
  have htree : w.Notes (· ∈ ns) (w.withTree t) := notes_of_journal ⟨rfl, rfl, rfl⟩ rfl
  exact htree.trans (World.noteAll_notes _ fun _ h => h)

theorem attempt_notes (w : World) (call : Host.FileCall) : w.Notes kind (w.attempt call).1 := by
  rw [attempt_fst]
  exact notes_of_journal ⟨rfl, rfl, rfl⟩ rfl

theorem abandon_notes (w : World) (call? : Option Host.FileCall) : w.Notes kind (w.abandon call?) :=
  notes_of_journal ⟨rfl, rfl, rfl⟩ rfl

theorem land_sameRecord (w : World) (k : Nat) : w.SameRecord (w.land k) := by
  unfold land
  split <;> exact ⟨rfl, rfl, rfl⟩

end Testbed.World
