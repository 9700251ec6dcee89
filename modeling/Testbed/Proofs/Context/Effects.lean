import Testbed.Proofs.Context.Stage
import Testbed.Proofs.Host.Removal
import Testbed.Proofs.World

/-! What the functions of a context's life do to the host, to the locks and to the list of installs.
All ways of giving up a context do the same: they remove what stands at its path, if they can, and
give the lock back. A provisioning that is given up leaves the call that it was waiting for adrift. -/
namespace Testbed

/-- A world that differs from another in its host and in what was said. -/
structure World.Rehosted (w w' : World) (h : Host) : Prop where
  host : w'.host = h
  installs : w'.installs = w.installs
  locks : w'.locks = w.locks
  adrift : w'.adrift = w.adrift

theorem World.Rehosted.sameFiles {w w' : World} (hr : Rehosted w w' w.host) : w.SameFiles w' :=
  ⟨hr.host, hr.adrift⟩

theorem World.Rehosted.note {w w' : World} {h : Host} (hr : Rehosted w w' h) (level : Level)
    (env : Option String) (text : String) : Rehosted w (w'.note level env text) h :=
  ⟨hr.host, hr.installs, hr.locks, hr.adrift⟩

/-! ### Removal -/

theorem World.attempt_rehosted (w : World) (call : Host.FileCall) :
    Rehosted w (w.attempt call).1 (w.host.after call) := by
  rw [attempt_fst]
  exact ⟨rfl, rfl, rfl, rfl⟩

namespace Context

open World (Rehosted attempt_rehosted attempt_ok attempt_error)

theorem removeDir_rehosted (w : World) (dir : Path) :
    Rehosted w (removeDir w dir).1 (w.host.without dir) := by
  have h := attempt_rehosted w (.remove dir)
  unfold removeDir
  split
  next w' heq =>
    rw [heq] at h
    exact ⟨h.host, h.installs, h.locks, h.adrift⟩
  next => exact h

theorem removeQuietly_rehosted (w : World) (name : String) (dir : Path) :
    Rehosted w (removeQuietly w name dir) (w.host.without dir) := by
  have h := attempt_rehosted w (.remove dir)
  unfold removeQuietly
  split
  all_goals
    next heq =>
      rw [heq] at h
      exact ⟨h.host, h.installs, h.locks, h.adrift⟩

/-- A removal has no eye for what is adrift. -/
theorem removeQuietly_adrift (w : World) (calls : List Host.FileCall) (name : String) (dir : Path) :
    removeQuietly { w with adrift := calls } name dir =
      { removeQuietly w name dir with adrift := calls } := by
  unfold removeQuietly World.attempt
  cases w.host.perform (.remove dir) with
  | ok => rfl
  | error fault =>
    obtain ⟨cause, left⟩ := fault
    cases cause <;> rfl

theorem drop_host (c : Context) (w : World) :
    (c.drop w).host = (if c.keep then w.host else w.host.without c.dir) ∧
      (c.drop w).locks = Locks.release w.locks c.client ∧ (c.drop w).adrift = w.adrift := by
  unfold drop release
  split
  · exact ⟨rfl, rfl, rfl⟩
  · have h := removeQuietly_rehosted w c.name c.dir
    exact ⟨h.host, congrArg (Locks.release · c.client) h.locks, h.adrift⟩

theorem removeDir_snd {w : World} {dir : Path} {cause : Host.OsError}
    (h : (removeDir w dir).2 = some cause) : ∃ fault, w.host.removeTree dir = .error fault := by
  unfold removeDir at h
  cases hr : w.host.removeTree dir with
  | ok h' =>
    rw [attempt_ok w (.remove dir) hr] at h
    cases h
  | error fault => exact ⟨fault, rfl⟩

theorem teardown_host (c : Context) (w : World) :
    (c.teardown w).1.host = (if c.keep then w.host else w.host.without c.dir) ∧
      (c.teardown w).1.locks = Locks.release w.locks c.client ∧
      (c.teardown w).1.adrift = w.adrift := by
  unfold teardown release
  split
  · exact ⟨rfl, rfl, rfl⟩
  · have h := removeDir_rehosted w c.dir
    cases hr : removeDir w c.dir with
    | mk w' cause? =>
      rw [hr] at h
      cases cause? with
      | none => exact ⟨h.host, congrArg (Locks.release · c.client) h.locks, h.adrift⟩
      | some cause =>
        have h' := removeQuietly_rehosted w' c.name c.dir
        obtain ⟨fault, hfail⟩ := removeDir_snd (congrArg Prod.snd hr)
        refine ⟨?_, congrArg (Locks.release · c.client) (h'.locks.trans h.locks),
          h'.adrift.trans h.adrift⟩
        exact h'.host.trans (by rw [h.host, Host.without_without hfail])

end Context

/-- Why an install that ended is not accepted, if it is not. -/
def Provisioner.objection? (p : Provisioner) (name : String) (source : Dependency) :
    InstallEnd → Option ProvisionError
  | .refused cause => some cause
  | .exited code stderr =>
    if code ∈ p.okCodes then none else some (.installFailed name source.display code stderr)

namespace Provisioning

open World (Rehosted attempt_ok attempt_error)

theorem discard_host (p : Provisioner) (w : World) (s : Provisioning) (cause : ProvisionError) :
    (discard p w s cause).2.host = w.host.without (s.dir p) ∧
      (discard p w s cause).2.installs = w.installs ∧
      (discard p w s cause).2.locks = Locks.release w.locks s.client ∧
      (discard p w s cause).2.adrift = w.adrift := by
  unfold discard Context.release
  have h := Context.removeDir_rehosted w (s.dir p)
  cases hr : Context.removeDir w (s.dir p) with
  | mk w' cause? =>
    rw [hr] at h
    cases cause? with
    | none =>
      dsimp only at h ⊢
      exact ⟨h.host, h.installs, congrArg (Locks.release · s.client) h.locks, h.adrift⟩
    | some failure =>
      have h' := Context.removeQuietly_rehosted w' s.name (s.dir p)
      obtain ⟨fault, hfail⟩ := Context.removeDir_snd (congrArg Prod.snd hr)
      dsimp only [World.note_host, World.note_installs, World.note_locks] at h ⊢
      refine ⟨?_, h'.installs.trans h.installs,
        congrArg (Locks.release · s.client) (h'.locks.trans h.locks), h'.adrift.trans h.adrift⟩
      rw [h'.host, h.host, Host.without_without hfail]

/-- Whoever gives up while the lock is not held leaves the files alone. The call that was waited for
is adrift then. -/
theorem abandon_host (p : Provisioner) (w : World) (s : Provisioning) (ho : ¬ s.isOver) :
    (abandon p w s).host = (if s.stage = .waiting then w.host else w.host.without (s.dir p)) ∧
      (abandon p w s).locks = Locks.release w.locks s.client ∧
      (abandon p w s).adrift = w.adrift ++ (s.call? p w.host).toList := by
  unfold abandon Context.release
  split
  next hs => exact absurd (.inl hs) ho
  next cause hs => exact absurd (.inr ⟨cause, hs⟩) ho
  next hs => exact ⟨by rw [if_pos hs], rfl, by simp [call?, hs]⟩
  next hs =>
    have h := Context.removeQuietly_rehosted (w.abandon (s.call? p w.host)) s.name (s.dir p)
    rw [if_neg hs]
    exact ⟨h.host, congrArg (Locks.release · s.client) h.locks, h.adrift⟩

/-! ### Building -/

theorem goOn_snd (w : World) (s : Provisioning) (path : Path) (next : Stage)
    (cause? : Option Host.OsError) : Rehosted w (goOn w s path next cause?).2 w.host := by
  cases cause? <;> exact ⟨rfl, rfl, rfl, rfl⟩

theorem makeDir_eq {w : World} {s : Provisioning} {path : Path} {next : Stage} {h : Host}
    (ho : w.host.makeDirAll path = .ok h) :
    makeDir w s path next = ({ s with stage := next }, { w with host := h }) := by
  rw [makeDir, attempt_ok w (.makeDirs path) ho]
  rfl

theorem makeDir_ok {w : World} {s : Provisioning} {path : Path} {next : Stage} {h : Host}
    (ho : w.host.makeDirAll path = .ok h) :
    (makeDir w s path next).1 = { s with stage := next } ∧ Rehosted w (makeDir w s path next).2 h := by
  rw [makeDir_eq ho]
  exact ⟨rfl, rfl, rfl, rfl, rfl⟩

theorem clear_eq {p : Provisioner} {w : World} {s : Provisioning}
    (he : w.host.exists? (s.dir p) = false) : clear p w s = ({ s with stage := .makingBin }, w) := by
  rw [clear, he]
  rfl

theorem clear_rehosted (p : Provisioner) (w : World) (s : Provisioning) :
    Rehosted w (clear p w s).2
      (if w.host.exists? (s.dir p) then w.host.without (s.dir p) else w.host) := by
  unfold clear
  split
  next =>
    have h := Context.removeDir_rehosted
      (w.note .debug (some s.name) "Removing stale context") (s.dir p)
    cases hr : Context.removeDir
      (w.note .debug (some s.name) "Removing stale context") (s.dir p) with
    | mk w' cause? =>
      rw [hr] at h
      have h' := goOn_snd w' s (s.dir p) .makingBin cause?
      exact ⟨h'.host.trans h.host, h'.installs.trans h.installs, h'.locks.trans h.locks,
        h'.adrift.trans h.adrift⟩
  next => exact ⟨rfl, rfl, rfl, rfl⟩

/-- A stale context that is gone one way or another is cleared. -/
theorem clear_ok {p : Provisioner} {w : World} {s : Provisioning}
    (hr : (∃ h, w.host.removeTree (s.dir p) = .ok h) ∨
      ∃ h, w.host.removeTree (s.dir p) = .error ⟨.notFound, h⟩) :
    (clear p w s).1 = { s with stage := .makingBin } := by
  unfold clear Context.removeDir
  split
  · rcases hr with ⟨h, hr⟩ | ⟨h, hr⟩
    · rw [attempt_ok (w.note ..) (.remove (s.dir p)) hr]
      rfl
    · rw [attempt_error (w.note ..) (.remove (s.dir p)) hr]
      rfl
  · rfl

/-- The stage after an install that ended. -/
def judged (p : Provisioner) (s : Provisioning) (source : Dependency) (rest : List Dependency)
    (ending : InstallEnd) : Stage :=
  match p.objection? s.name source ending with
  | none => .installing rest
  | some cause => .discarding cause

theorem accept_eq (p : Provisioner) (w : World) (s : Provisioning) (source : Dependency)
    (rest : List Dependency) (reply : InstallReply) :
    (accept p w s source rest reply).1 = { s with stage := judged p s source rest reply.ending } ∧
      Rehosted w (accept p w s source rest reply).2 { w.host with tree := reply.tree } := by
  have hw : Rehosted w ((w.withTree reply.tree).noteAll reply.notes)
      { w.host with tree := reply.tree } := ⟨by simp, by simp, by simp, by simp⟩
  unfold accept judged Provisioner.objection?
  cases reply.ending with
  | refused cause => exact ⟨rfl, hw.host, hw.installs, hw.locks, hw.adrift⟩
  | exited code stderr =>
    by_cases hc : code ∈ p.okCodes
    · simp only [List.contains_iff_mem, hc, if_true]
      exact ⟨trivial, hw⟩
    · simp only [List.contains_iff_mem, hc, if_false]
      exact ⟨rfl, hw.host, hw.installs, hw.locks, hw.adrift⟩

theorem record_eq {p : Provisioner} {w : World} {s : Provisioning} {h : Host}
    (ho : w.host.write (Metadata.path (s.dir p)) (Text.encode s.metadata.text) = .ok h) :
    record p w s = ({ s with stage := .ready },
      ({ w with host := h }).note .info (some s.name) "Environment provisioned") := by
  unfold record
  dsimp only
  rw [attempt_ok w (.write (Metadata.path (s.dir p)) (Text.encode s.metadata.text)) ho]

theorem record_ok {p : Provisioner} {w : World} {s : Provisioning} {h : Host}
    (ho : w.host.write (Metadata.path (s.dir p)) (Text.encode s.metadata.text) = .ok h) :
    (record p w s).1 = { s with stage := .ready } ∧ Rehosted w (record p w s).2 h := by
  rw [record_eq ho]
  exact ⟨rfl, rfl, rfl, rfl, rfl⟩

theorem record_error {p : Provisioner} {w : World} {s : Provisioning} {fault : Host.Fault Host}
    (ho : w.host.write (Metadata.path (s.dir p)) (Text.encode s.metadata.text) = .error fault) :
    (record p w s).1 =
        { s with stage := .discarding (.context (Metadata.path (s.dir p)) fault.cause) } ∧
      Rehosted w (record p w s).2 w.host := by
  have hleft := Host.left_of_write ho
  unfold record
  dsimp only
  rw [attempt_error w (.write (Metadata.path (s.dir p)) (Text.encode s.metadata.text)) ho]
  exact ⟨rfl, hleft, rfl, rfl, rfl⟩

end Provisioning

end Testbed
