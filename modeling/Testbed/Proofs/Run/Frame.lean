import Testbed.Proofs.Run.Task
import Testbed.Proofs.World
import Testbed.Run.History

/-! What is left alone while contexts are built and given up and environments go on: apart from an
install and the start of a program nothing that a task does is entered in the lists of these, and
whether the run is cancelled only changes where one of the two says so. Of contexts nothing is told
but notes, and none that is of a violation. -/
namespace Testbed

open World (Keeps Notes Quiet)

/-- It is not of a violation. -/
def Note.Peaceful (n : Note) : Prop := n.text ≠ "Lifecycle violation"

theorem World.note_peaceful (w : World) (level : Level) (env : Option String) {text : String}
    (h : text ≠ "Lifecycle violation") : w.Notes Note.Peaceful (w.note level env text) :=
  w.note_notes level env text h

/-! ### Contexts -/

namespace Context

theorem removeDir_notes {kind : Note → Prop} (w : World) (dir : Path) :
    w.Notes kind (removeDir w dir).1 := by
  have h : w.Notes kind _ := w.attempt_notes (.remove dir)
  unfold removeDir
  split
  next heq => rwa [heq] at h
  next => exact h

theorem removeQuietly_notes (w : World) (name : String) (dir : Path) :
    w.Notes Note.Peaceful (removeQuietly w name dir) := by
  have h : w.Notes Note.Peaceful _ := w.attempt_notes (.remove dir)
  unfold removeQuietly
  split
  next heq =>
    rw [heq] at h
    exact h.trans (World.note_peaceful _ _ _ (by decide))
  next heq => rwa [heq] at h
  next heq =>
    rw [heq] at h
    exact h.trans (World.note_peaceful _ _ _ (by decide))

theorem release_notes {kind : Note → Prop} (w : World) (client : Locks.Client) :
    w.Notes kind (release w client) :=
  World.notes_of_journal ⟨rfl, rfl, rfl⟩ rfl

theorem drop_notes (c : Context) (w : World) : w.Notes Note.Peaceful (c.drop w) := by
  unfold drop
  split
  · exact release_notes w c.client
  · exact (removeQuietly_notes w c.name c.dir).trans (release_notes _ c.client)

theorem teardown_notes (c : Context) (w : World) : w.Notes Note.Peaceful (c.teardown w).1 := by
  have h : w.Notes Note.Peaceful _ := removeDir_notes w c.dir
  unfold teardown
  split
  · exact release_notes w c.client
  · split
    next w' heq =>
      rw [heq] at h
      exact (h.trans (w'.note_peaceful _ _ (by decide))).trans (release_notes _ c.client)
    next w' _ heq =>
      rw [heq] at h
      exact (h.trans (removeQuietly_notes w' c.name c.dir)).trans (release_notes _ c.client)

end Context

namespace Provisioning

theorem failWith_notes (w : World) (s : Provisioning) (cause : ProvisionError) :
    w.Notes Note.Peaceful (failWith w s cause).2 :=
  w.note_peaceful _ _ (by decide)

theorem goOn_notes (w : World) (s : Provisioning) (path : Path) (next : Stage)
    (cause? : Option Host.OsError) : w.Notes Note.Peaceful (goOn w s path next cause?).2 := by
  cases cause? with
  | none => exact .refl w
  | some cause => exact failWith_notes ..

theorem makeDir_notes (w : World) (s : Provisioning) (path : Path) (next : Stage) :
    w.Notes Note.Peaceful (makeDir w s path next).2 :=
  (w.attempt_notes (.makeDirs path)).trans (goOn_notes _ s path next _)

theorem clear_notes (p : Provisioner) (w : World) (s : Provisioning) :
    w.Notes Note.Peaceful (clear p w s).2 := by
  unfold clear
  split
  · exact ((w.note_peaceful _ _ (by decide)).trans (Context.removeDir_notes ..)).trans
      (goOn_notes ..)
  · exact .refl w

/-- The installer has its notes, too. -/
theorem accept_notes (p : Provisioner) (w : World) (s : Provisioning) (source : Dependency)
    (rest : List Dependency) (reply : InstallReply) :
    w.Notes (fun n => n.Peaceful ∨ n ∈ reply.notes) (accept p w s source rest reply).2 := by
  have h : w.Notes (fun n => n.Peaceful ∨ n ∈ reply.notes) _ :=
    (w.withTree_noteAll_notes reply.tree reply.notes).mono fun n => .inr
  unfold accept
  dsimp only
  split
  · exact h.trans ((failWith_notes ..).mono fun n => .inl)
  · split
    · exact h
    · exact h.trans ((failWith_notes ..).mono fun n => .inl)

theorem record_notes (p : Provisioner) (w : World) (s : Provisioning) :
    w.Notes Note.Peaceful (record p w s).2 := by
  have h : w.Notes Note.Peaceful _ := w.attempt_notes
    (.write (Metadata.path (s.dir p)) (Text.encode s.metadata.text))
  unfold record
  dsimp only
  split
  next heq =>
    rw [heq] at h
    exact h.trans (World.note_peaceful _ _ _ (by decide))
  next heq =>
    rw [heq] at h
    exact h.trans (failWith_notes ..)

theorem discard_notes (p : Provisioner) (w : World) (s : Provisioning) (cause : ProvisionError) :
    w.Notes Note.Peaceful (discard p w s cause).2 := by
  have h : w.Notes Note.Peaceful _ := Context.removeDir_notes w (s.dir p)
  unfold discard
  dsimp only
  split
  next w' heq =>
    rw [heq] at h
    exact h.trans (Context.release_notes w' s.client)
  next w' _ heq =>
    rw [heq] at h
    have hdropped := h.trans (Context.removeQuietly_notes w' s.name (s.dir p))
    exact (hdropped.trans (World.note_peaceful _ _ _ (by decide))).trans
      (Context.release_notes _ s.client)

theorem start_notes (w : World) (name : String) (deps : List Dependency) :
    w.Notes Note.Peaceful (start w name deps).2 := by
  have hlocks (locks : Locks.Registry) : w.Notes Note.Peaceful { w with locks := locks } :=
    World.notes_of_journal ⟨rfl, rfl, rfl⟩ rfl
  unfold start
  dsimp only
  split
  · exact hlocks _
  · exact (hlocks _).trans (World.note_peaceful _ _ _ (by decide))

theorem abandon_notes (p : Provisioner) (w : World) (s : Provisioning) :
    w.Notes Note.Peaceful (abandon p w s) := by
  unfold abandon
  split
  · exact .refl w
  · exact .refl w
  · exact Context.release_notes w s.client
  · have h : w.Notes Note.Peaceful (w.abandon (s.call? p w.host)) := w.abandon_notes _
    exact (h.trans (Context.removeQuietly_notes _ s.name (s.dir p))).trans
      (Context.release_notes _ s.client)

/-- A source is handed to the installer, which may cancel the run. -/
structure Installs (w w' : World) (i : Install) : Prop where
  installs : w'.installs = w.installs ++ [i]
  launches : w'.launches = w.launches
  cancelled : w.cancelled = true → w'.cancelled = true
  events : w'.journal.events = w.journal.events

theorem Installs.trans_quiet {w w' w'' : World} {i : Install} (h : Installs w w' i)
    (h' : w'.Quiet w'') : Installs w w'' i :=
  ⟨h'.installs.trans h.installs, h'.launches.trans h.launches,
    fun hc => h'.cancelled.trans (h.cancelled hc), h'.events.trans h.events⟩

theorem install_installs (p : Provisioner) (installer : Installer) (w : World) (s : Provisioning)
    (source : Dependency) (rest : List Dependency) :
    Installs w (install p installer w s source rest).2 ⟨s.name, source⟩ := by
  have h (now : Bool) : Installs w (((w.note .debug (some s.name) "Installing").recordInstall
      ⟨s.name, source⟩).cancelIf now) ⟨s.name, source⟩ :=
    ⟨rfl, rfl, fun hc => by simp [World.cancelIf, World.recordInstall, World.note, World.say, hc],
      w.note_events ..⟩
  unfold install
  dsimp only
  split
  · exact (h _).trans_quiet (accept_notes ..).quiet
  · exact h _
  · exact h _

/-- What a step does besides bringing the provisioning on. -/
inductive Acts (s : Provisioning) (w w' : World) : Prop
  | quiet (hs : ∀ source rest, s.stage ≠ .installing (source :: rest)) (h : w.Quiet w')
  /-- The source that is next. -/
  | installs {source : Dependency} {rest : List Dependency}
      (hs : s.stage = .installing (source :: rest)) (h : Installs w w' ⟨s.name, source⟩)

theorem step_acts {p : Provisioner} {installer : Installer} {w w' : World} {s s' : Provisioning}
    (h : step p installer w s = .moved s' w') : Acts s w w' := by
  have hquiet {r : Provisioning × World} {stage : Stage} (hs : s.stage = stage)
      (hstage : ∀ source rest, stage ≠ .installing (source :: rest)) (hr : w.Quiet r.2)
      (h : moved r = .moved s' w') : Acts s w w' := by
    rw [(moved_eq h).2]
    exact .quiet (hs ▸ hstage) hr
  unfold step at h
  split at h
  next hs =>
    dsimp only at h
    split at h
    · cases h
      exact .quiet (by simp [hs]) (.refl w)
    · cases h
  next hs => exact hquiet hs nofun (clear_notes ..).quiet h
  next hs => exact hquiet hs nofun (makeDir_notes ..).quiet h
  next hs => exact hquiet hs nofun (makeDir_notes ..).quiet h
  next hs =>
    cases h
    exact .quiet (by simp [hs]) (.refl w)
  next hs =>
    rw [(moved_eq h).2]
    exact .installs hs (install_installs ..)
  next hs =>
    split at h
    · exact hquiet hs nofun (accept_notes ..).quiet h
    · cases h
  next => cases h
  next hs => exact hquiet hs nofun (record_notes ..).quiet h
  next hs => exact hquiet hs nofun (discard_notes ..).quiet h
  all_goals cases h

end Provisioning

/-! ### Tasks -/

namespace Task

variable {f : Facilities} {t t' : Task} {w w' : World}

theorem advance_quiet (t : Task) (w : World) (next : Lifecycle) :
    w.Quiet (t.advance w next).2 := by
  unfold advance
  split
  · exact .refl w
  · exact w.note_quiet ..

theorem report_keeps (t : Task) (w : World) (r : EnvResult) : w.Keeps (t.report w r).2 :=
  w.emit_keeps _

theorem finish_keeps (t : Task) (w : World) (outcomes : List CommandOutcome)
    (failure : Option String) : w.Keeps (t.finish w outcomes failure).2 :=
  report_keeps ..

theorem begin_keeps (t : Task) (w : World) : w.Keeps (t.begin w).2 := by
  unfold begin
  split
  · exact ((advance_quiet ..).trans (World.note_quiet ..)).toKeeps.trans (report_keeps ..)
  · split
    · have h₁ := t.advance_quiet w .provisioning
      have h₂ (t : Task) (w : World) := t.advance_quiet w .running
      have h₃ (t : Task) (w : World) := t.advance_quiet w .succeeded
      refine Keeps.trans (Quiet.toKeeps ?_) (finish_keeps ..)
      exact ((h₁.trans (h₂ _ _)).trans (h₃ _ _)).trans (World.note_quiet ..)
    · exact ((advance_quiet ..).trans (Provisioning.start_notes ..).quiet).toKeeps

theorem provisionFailed_keeps (t : Task) (w : World) (failure : String) :
    w.Keeps (t.provisionFailed w failure).2 :=
  ((w.emit_keeps _).trans (advance_quiet ..).toKeeps).trans (finish_keeps ..)

theorem provisioned_keeps (t : Task) (w : World) (c : Context) :
    w.Keeps (t.provisioned w c).2 :=
  (w.emit_keeps _).trans (advance_quiet ..).toKeeps

theorem record_keeps (t : Task) (w : World) (c : Context) (p : Progress) (o : CommandOutcome) :
    w.Keeps (t.record w c p o).2 :=
  w.emit_keeps _

theorem refuse_keeps (t : Task) (w : World) (c : Context) (p : Progress) (command : Command)
    (e : CommandError) : w.Keeps (t.refuse w c p command e).2 :=
  (w.note_quiet ..).toKeeps.trans (record_keeps ..)

theorem settle_keeps (t : Task) (w : World) (c : Context) (p : Progress) (command : Command)
    (argv : List String) (path : Path) (reply : RunReply) :
    w.Keeps (t.settle w c p command argv path reply).2 := by
  have h := (w.withTree_noteAll_notes reply.tree reply.notes).toKeeps
  unfold settle
  dsimp only
  split
  · exact h.trans (record_keeps ..)
  · exact h.trans (refuse_keeps ..)
  · exact h.trans (Context.drop_notes ..).toKeeps

theorem close_keeps (t : Task) (w : World) (c : Context) (p : Progress) :
    w.Keeps (t.close w c p).2 := by
  have h := (c.teardown_notes w).toKeeps
  unfold close
  split
  next heq =>
    rw [heq] at h
    exact h.trans (finish_keeps ..)
  next heq =>
    rw [heq] at h
    exact (h.trans (World.emit_keeps ..)).trans (finish_keeps ..)

theorem drop_quiet (f : Facilities) (t : Task) (w : World) : w.Quiet (t.drop f w) := by
  unfold drop
  split
  · split
    · exact (Context.drop_notes ..).quiet
    · exact (Provisioning.abandon_notes ..).quiet
  · exact (Context.drop_notes ..).quiet
  · exact (Context.drop_notes ..).quiet
  next c _ _ =>
    have h : w.Notes Note.Peaceful (w.abandon c.call?) := w.abandon_notes _
    exact (h.trans (Context.drop_notes ..)).quiet
  all_goals exact .refl w

theorem stepProvisioning_keeps {s : Provisioning} (h : t.stepProvisioning f w s = .moved t' w') :
    w.Keeps w' ∨ ∃ source, Provisioning.Installs w w' ⟨s.name, source⟩ := by
  unfold stepProvisioning at h
  dsimp only at h
  split at h
  · cases h
    exact .inl ((Provisioning.abandon_notes ..).toKeeps.trans (provisionFailed_keeps ..))
  · split at h
    · cases h
      exact .inl (provisioned_keeps ..)
    · cases h
      exact .inl (provisionFailed_keeps ..)
    · split at h
      next hs =>
        cases h
        cases Provisioning.step_acts hs with
        | quiet _ h => exact .inl h.toKeeps
        | installs _ h => exact .inr ⟨_, h⟩
      next => cases h

theorem attend_keeps {c : Context} {p : Progress} {r : Running}
    (h : t.attend f w c p r = .moved t' w') : w.Keeps w' := by
  unfold attend at h
  dsimp only at h
  split at h
  · cases h
    exact settle_keeps ..
  · split at h
    · split at h
      · cases h
        exact settle_keeps ..
      · cases h
    · cases h

end Task

end Testbed
