import Testbed.Context.Crowd
import Testbed.Proofs.Context.Effects
import Testbed.Proofs.Locks.Clients

/-! Clients that share their locks. A client left alone does in several steps what is done at once
where nobody else is around. Among others, only the one that holds the lock of a name touches the
files of its context, whatever way the clients take through building, using and giving up. -/
namespace Testbed

namespace Pursuit

variable {installer : Installer} {p : Provisioner} {s s' : Provisioning} {w w' : World}

/-! ### Alone -/

/-- So many steps while all others rest. -/
def alone (installer : Installer) : Nat → Option Pursuit × World → Option Pursuit × World
  | 0, r => r
  | _ + 1, (none, w) => (none, w)
  | n + 1, (some a, w) => alone installer n (a.step installer w)

/-- Who is left after a step of a provisioning that is taken at once. -/
def outcome (p : Provisioner) (s : Provisioning) : Option Pursuit :=
  match s.stage with
  | .failed _ => none
  | _ => some (proceed p s)

theorem outcome_eq (p : Provisioner) (hs : ∀ cause, s.stage ≠ .failed cause) :
    outcome p s = some (proceed p s) := by
  unfold outcome
  split
  next cause hf => exact absurd hf (hs cause)
  next => rfl

/-- A client that neither clears nor discards goes on as its provisioning does. -/
theorem step_building (installer : Installer) (w : World) (p : Provisioner) (hc : s.stage ≠ .clearing)
    (hd : ∀ cause, s.stage ≠ .discarding cause) :
    step installer w ⟨p, s, .building⟩ = match s.step p installer w with
      | .moved s' w' => (some (proceed p s'), w')
      | .blocked _ => (some ⟨p, s, .building⟩, w) := by
  unfold step
  dsimp only
  split
  next hs => exact absurd hs hc
  next cause hs => exact absurd hs (hd cause)
  next => rfl

theorem alone_discard (w : World) (cause : ProvisionError) (hs : s.stage = .discarding cause) :
    ∃ n, alone installer n (some ⟨p, s, .building⟩, w) = (none, (s.discard p w cause).2) := by
  cases hr : Context.removeDir w (s.dir p) with
  | mk w' cause? =>
    have hdir : Context.removeDir w (dir ⟨p, s, .building⟩) = (w', cause?) := hr
    cases cause? with
    | none =>
      refine ⟨2, ?_⟩
      simp only [alone, step, hs, hdir, move, Provisioning.discard, hr]
    | some failure =>
      refine ⟨3, ?_⟩
      simp only [alone, step, hs, hdir, move, Provisioning.discard, hr, if_true]
      rfl

theorem alone_clear (w : World) (hs : s.stage = .clearing) :
    ∃ n, alone installer n (some ⟨p, s, .building⟩, w) =
      (some (proceed p (s.clear p w).1), (s.clear p w).2) := by
  by_cases he : w.host.exists? (s.dir p)
  · refine ⟨2, ?_⟩
    have hexists : w.host.exists? (dir ⟨p, s, .building⟩) := he
    simp only [alone, step, hs, hexists, move, Provisioning.clear, he, if_true]
    rfl
  · refine ⟨1, ?_⟩
    have hexists : ¬ w.host.exists? (dir ⟨p, s, .building⟩) := he
    simp only [alone, step, hs, if_neg hexists, Provisioning.clear, if_neg he]

/-- The steps of a provisioning are taken at once or one by one with the same result. -/
theorem alone_step (h : s.step p installer w = .moved s' w') :
    ∃ n, alone installer n (some ⟨p, s, .building⟩, w) = (outcome p s', w') := by
  by_cases hd : ∃ cause, s.stage = .discarding cause
  · obtain ⟨cause, hs⟩ := hd
    simp only [Provisioning.step, hs] at h
    obtain ⟨rfl, rfl⟩ := Provisioning.moved_eq h
    exact alone_discard w cause hs
  · have hd (cause : ProvisionError) : s.stage ≠ .discarding cause := fun hs => hd ⟨cause, hs⟩
    have hfailed (cause : ProvisionError) : s'.stage ≠ .failed cause := by
      intro hs'
      have hedge := (Provisioning.step_follows h).edge
      rw [hs'] at hedge
      exact hd cause hedge.eq_discarding
    rw [outcome_eq p hfailed]
    by_cases hc : s.stage = .clearing
    · simp only [Provisioning.step, hc] at h
      obtain ⟨rfl, rfl⟩ := Provisioning.moved_eq h
      exact alone_clear w hc
    · refine ⟨1, ?_⟩
      rw [alone, step_building installer w p hc hd, h]
      rfl

theorem alone_dropping (w : World) :
    alone installer 2 (some ⟨p, s, .dropping false⟩, w) =
      (none, Context.release (Context.removeQuietly w s.name (s.dir p)) s.client) := by
  have hdrop : step installer w ⟨p, s, .dropping false⟩ =
      (some ⟨p, s, .parting⟩, Context.removeQuietly w s.name (s.dir p)) := rfl
  have hpart (w : World) :
      step installer w ⟨p, s, .parting⟩ = (none, Context.release w s.client) := rfl
  rw [alone, hdrop, alone, hpart, alone]

theorem alone_teardown (w : World) :
    ∃ n, alone installer n (some (teardown ⟨p, s, .alive⟩), w) =
      (none, ((s.context p).teardown w).1) := by
  cases hk : p.keep with
  | true =>
    refine ⟨1, ?_⟩
    simp [alone, step, teardown, move, Context.teardown, Provisioning.context, hk]
  | false =>
    cases hr : Context.removeDir w (s.dir p) with
    | mk w' cause? =>
      have hdir : Context.removeDir w (dir ⟨p, s, .leaving⟩) = (w', cause?) := hr
      cases cause? with
      | none =>
        refine ⟨2, ?_⟩
        simp [alone, step, teardown, move, Context.teardown, Provisioning.context, hk, hr, hdir]
      | some cause =>
        refine ⟨3, ?_⟩
        have hleave : step installer w (teardown ⟨p, s, .alive⟩) = (some ⟨p, s, .dropping false⟩, w') := by
          simp [step, teardown, move, hk, hdir]
        rw [alone, hleave, alone_dropping]
        simp [Context.teardown, Provisioning.context, hk, hr]

theorem alone_drop (w : World) :
    ∃ n, alone installer n (some (drop ⟨p, s, .alive⟩), w) = (none, (s.context p).drop w) := by
  cases hk : p.keep with
  | true =>
    refine ⟨1, ?_⟩
    simp [alone, step, drop, move, Context.drop, Provisioning.context, hk]
  | false =>
    refine ⟨2, ?_⟩
    have hdrop : drop ⟨p, s, .alive⟩ = ⟨p, s, .dropping false⟩ := by simp [drop, move, hk]
    rw [hdrop, alone_dropping]
    simp [Context.drop, Provisioning.context, hk]

/-- Among others a call takes effect when it is made, and none is adrift. -/
theorem alone_abandon (w : World) (ho : ¬ s.isOver) :
    ∃ n, alone installer n (some (abandon ⟨p, s, .building⟩), w) =
      (none, { s.abandon p w with adrift := w.adrift }) := by
  unfold Provisioning.abandon
  split
  next hs => exact absurd (.inl hs) ho
  next cause hs => exact absurd (.inr ⟨cause, hs⟩) ho
  next hs =>
    refine ⟨1, ?_⟩
    simp only [alone, step, abandon, move, hs, if_true]
    rfl
  next hs =>
    refine ⟨2, ?_⟩
    simp only [abandon, if_neg hs, World.abandon, Context.removeQuietly_adrift]
    rw [← (Context.removeQuietly_rehosted w s.name (s.dir p)).adrift]
    exact alone_dropping w

/-! ### What a step does to files and locks -/

/-- What an errand does to the files of the context that a client is after, if anything. -/
inductive Touches (a : Pursuit) : Errand → Host → Host → Prop
  | look (installer : Installer) (h : Host) : Touches a (.step installer) h h
  | remove (installer : Installer) (h : Host) : Touches a (.step installer) h (h.without a.dir)
  | makeDir (installer : Installer) (h : Host) {sub : String} (hsub : sub ∈ ["bin", "tmp"]) :
      Touches a (.step installer) h (h.after (.makeDirs (a.dir.join sub)))
  | install (installer : Installer) (h : Host) (source : Dependency) :
      Touches a (.step installer) h { h with tree := (installer h (a.s.target a.p) source).tree }
  | record (installer : Installer) (h : Host) :
      Touches a (.step installer) h
        (h.after (.write (Metadata.path a.dir) (Text.encode a.s.metadata.text)))
  | work (change : Host.Tree → Host.Tree) (h : Host) :
      Touches a (.work change) h { h with tree := change h.tree }

/-- The client stands in line for its lock. -/
def Waits (a : Pursuit) : Prop := a.footing = .building ∧ a.s.stage = .waiting

end Pursuit

namespace Provisioning

open World (Rehosted)

variable {installer : Installer} {p : Provisioner} {s s' : Provisioning} {w w' : World}

theorem makeDir_rehosted (w : World) (s : Provisioning) (path : Path) (next : Stage) :
    Rehosted w (makeDir w s path next).2 (w.host.after (.makeDirs path)) := by
  have h := World.attempt_rehosted w (.makeDirs path)
  have h' := goOn_snd (w.attempt (.makeDirs path)).1 s path next (w.attempt (.makeDirs path)).2
  exact ⟨h'.host.trans h.host, h'.installs.trans h.installs, h'.locks.trans h.locks,
    h'.adrift.trans h.adrift⟩

theorem record_rehosted (p : Provisioner) (w : World) (s : Provisioning) :
    Rehosted w (record p w s).2
      (w.host.after (.write (Metadata.path (s.dir p)) (Text.encode s.metadata.text))) := by
  have h := World.attempt_rehosted w
    (.write (Metadata.path (s.dir p)) (Text.encode s.metadata.text))
  unfold record
  dsimp only
  split
  all_goals
    next heq =>
      rw [heq] at h
      exact ⟨h.host, h.installs, h.locks, h.adrift⟩

theorem client_of_or {r : Provisioning × World} {stage : Stage}
    (hr : r.1 = { s with stage := stage } ∨ ∃ cause, r.1 = { s with stage := .discarding cause }) :
    r.1.client = s.client := by
  obtain hr | ⟨cause, hr⟩ := hr
  · rw [hr]
  · rw [hr]

theorem install_touches (p : Provisioner) (installer : Installer) (w : World) (s : Provisioning)
    (source : Dependency) (rest : List Dependency) :
    (install p installer w s source rest).1.client = s.client ∧
      (install p installer w s source rest).2.locks = w.locks ∧
      (install p installer w s source rest).2.adrift = w.adrift ∧
      Pursuit.Touches ⟨p, s, .building⟩ (.step installer) w.host
        (install p installer w s source rest).2.host := by
  unfold install
  dsimp only
  split
  next =>
    obtain ⟨hs, hr⟩ := accept_eq p (((w.note .debug (some s.name) "Installing").recordInstall
      ⟨s.name, source⟩).cancelIf (installer w.host (s.target p) source).cancels) s source rest
      (installer w.host (s.target p) source)
    refine ⟨by rw [hs], hr.locks, hr.adrift, ?_⟩
    rw [hr.host]
    exact .install installer w.host source
  next => exact ⟨rfl, rfl, rfl, .look installer w.host⟩
  next => exact ⟨rfl, rfl, rfl, .look installer w.host⟩

/-- What a step of a provisioning that has the lock and removes nothing does. -/
theorem step_touches (h : s.step p installer w = .moved s' w') (hw : s.stage ≠ .waiting)
    (hc : s.stage ≠ .clearing) (hd : ∀ cause, s.stage ≠ .discarding cause) :
    s'.client = s.client ∧ w'.locks = w.locks ∧ w'.adrift = w.adrift ∧
      Pursuit.Touches ⟨p, s, .building⟩ (.step installer) w.host w'.host := by
  unfold step at h
  split at h
  case h_1 hs => exact absurd hs hw
  case h_2 hs => exact absurd hs hc
  case h_3 hs =>
    obtain ⟨rfl, rfl⟩ := moved_eq h
    have hr := makeDir_rehosted w s ((s.dir p).join "bin") .makingTmp
    refine ⟨client_of_or (makeDir_fst ..), hr.locks, hr.adrift, ?_⟩
    rw [hr.host]
    exact .makeDir installer w.host (by simp)
  case h_4 hs =>
    obtain ⟨rfl, rfl⟩ := moved_eq h
    have hr := makeDir_rehosted w s ((s.dir p).join "tmp") (.installing s.metadata.sources)
    refine ⟨client_of_or (makeDir_fst ..), hr.locks, hr.adrift, ?_⟩
    rw [hr.host]
    exact .makeDir installer w.host (by simp)
  case h_5 hs =>
    cases h
    exact ⟨rfl, rfl, rfl, .look installer w.host⟩
  case h_6 source rest hs =>
    obtain ⟨rfl, rfl⟩ := moved_eq h
    exact install_touches p installer w s source rest
  case h_7 source rest moment hs =>
    split at h
    · obtain ⟨rfl, rfl⟩ := moved_eq h
      obtain ⟨hs', hr⟩ := accept_eq p w s source rest (installer w.host (s.target p) source)
      refine ⟨by rw [hs'], hr.locks, hr.adrift, ?_⟩
      rw [hr.host]
      exact .install installer w.host source
    · cases h
  case h_8 => cases h
  case h_9 hs =>
    obtain ⟨rfl, rfl⟩ := moved_eq h
    have hr := record_rehosted p w s
    refine ⟨client_of_or (record_fst ..), hr.locks, hr.adrift, ?_⟩
    rw [hr.host]
    exact .record installer w.host
  case h_10 cause hs => exact absurd hs (hd cause)
  case h_11 => cases h
  case h_12 => cases h

end Provisioning

namespace Pursuit

variable {installer : Installer} {w : World} {a : Pursuit}

/-- After a step of the client that holds its lock. -/
structure Owned (a : Pursuit) (installer : Installer) (w : World) (a' : Pursuit) (w' : World) : Prop where
  name : a'.s.name = a.s.name
  client : a'.s.client = a.s.client
  enters : ¬ a'.Waits
  locks : w'.locks = w.locks
  touches : a.Touches (.step installer) w.host w'.host

/-- A client in line looks whether it is its turn. -/
theorem step_waits (installer : Installer) (w : World) (ha : a.Waits) :
    ∃ a', a.step installer w = (some a', w) ∧ a'.s.name = a.s.name ∧
      a'.s.client = a.s.client.poll w.locks ∧ (a'.Waits ∨ a'.s.client.held = true) := by
  obtain ⟨p, s, footing⟩ := a
  obtain ⟨hfooting, hs⟩ := ha
  obtain rfl : footing = .building := hfooting
  have hs : s.stage = .waiting := hs
  rw [step_building installer w p (by simp [hs]) (by simp [hs])]
  cases hheld : (s.client.poll w.locks).held with
  | true =>
    simp only [Provisioning.step, hs, hheld, if_true]
    exact ⟨_, rfl, rfl, rfl, .inr hheld⟩
  | false =>
    simp only [Provisioning.step, hs, hheld]
    exact ⟨_, rfl, rfl, (Locks.Client.poll_of_not_held hheld).symm, .inl ⟨rfl, hs⟩⟩

theorem step_on (installer : Installer) (w : World) (h : Host) (ha : a.Waits) :
    a.step installer { w with host := h } =
      ((a.step installer w).1, { (a.step installer w).2 with host := h }) := by
  obtain ⟨p, s, footing⟩ := a
  obtain ⟨hfooting, hs⟩ := ha
  obtain rfl : footing = .building := hfooting
  have hs : s.stage = .waiting := hs
  rw [step_building installer w p (by simp [hs]) (by simp [hs]),
    step_building installer _ p (by simp [hs]) (by simp [hs])]
  cases hheld : (s.client.poll w.locks).held <;> simp [Provisioning.step, hs, hheld]

theorem step_parting (installer : Installer) (w : World) (ha : a.footing = .parting) :
    a.step installer w = (none, Context.release w a.s.client) := by
  simp only [step, ha]

theorem not_waits_proceed (p : Provisioner) {s : Provisioning} (hs : s.stage ≠ .waiting) :
    ¬ (proceed p s).Waits := fun h => hs h.2

/-- A removal touches the context, whatever is said of it. -/
theorem Owned.of_removal {a' : Pursuit} {w' : World} (hs : a'.s = a.s) (hw : ¬ a'.Waits)
    (hr : World.Rehosted w w' (w.host.without a.dir)) : Owned a installer w a' w' where
  name := by rw [hs]
  client := by rw [hs]
  enters := hw
  locks := hr.locks
  touches := hr.host ▸ .remove installer w.host

theorem step_clearing_owned (installer : Installer) (w : World) (ha : a.footing = .clearing) :
    ∃ a' w', a.step installer w = (some a', w') ∧ Owned a installer w a' w' := by
  have hr := Context.removeDir_rehosted w a.dir
  simp only [step, ha]
  cases heq : Context.removeDir w a.dir with
  | mk w' cause? =>
    rw [heq] at hr
    have hgo := Provisioning.goOn_snd w' a.s a.dir .makingBin cause?
    have hhost := hgo.host.trans hr.host
    refine ⟨_, _, rfl, ?_⟩
    obtain hs | ⟨cause, hs⟩ := Provisioning.goOn_fst w' a.s a.dir .makingBin cause?
    all_goals
      exact ⟨by rw [hs]; rfl, by rw [hs]; rfl, not_waits_proceed a.p (by rw [hs]; nofun),
        hgo.locks.trans hr.locks, hhost ▸ .remove installer w.host⟩

theorem step_building_owned (installer : Installer) (w : World) (ha : a.footing = .building)
    (hw : a.s.stage ≠ .waiting) :
    ∃ a' w', a.step installer w = (some a', w') ∧ Owned a installer w a' w' := by
  obtain ⟨p, s, footing⟩ := a
  obtain rfl : footing = .building := ha
  by_cases hc : s.stage = .clearing
  · simp only [step, hc]
    split
    · exact ⟨_, _, rfl, rfl, rfl, (fun h => nomatch h.1), rfl, .look installer w.host⟩
    · exact ⟨_, _, rfl, rfl, rfl, not_waits_proceed p nofun, rfl, .look installer w.host⟩
  · by_cases hd : ∃ cause, s.stage = .discarding cause
    · obtain ⟨cause, hs⟩ := hd
      have hr := Context.removeDir_rehosted w (s.dir p)
      simp only [step, hs]
      split
      all_goals
        next heq =>
          rw [show dir ⟨p, s, .building⟩ = s.dir p from rfl] at heq
          rw [heq] at hr
          exact ⟨_, _, rfl, .of_removal rfl (fun h => nomatch h.1) hr⟩
    · have hd (cause : ProvisionError) : s.stage ≠ .discarding cause := fun hs => hd ⟨cause, hs⟩
      rw [step_building installer w p hc hd]
      cases hstep : s.step p installer w with
      | blocked until? => exact ⟨_, _, rfl, rfl, rfl, fun h => hw h.2, rfl, .look installer w.host⟩
      | moved s' w' =>
        obtain ⟨hclient, hlocks, -, htouches⟩ := Provisioning.step_touches hstep hw hc hd
        have hfollows := Provisioning.step_follows hstep
        exact ⟨_, _, rfl, hfollows.name, hclient, not_waits_proceed p hfollows.edge.ne_waiting, hlocks,
          htouches⟩

/-- A client that is past the line touches its own context at most. -/
theorem step_owned (installer : Installer) (w : World) (ha : ¬ a.Waits) (hp : a.footing ≠ .parting) :
    ∃ a' w', a.step installer w = (some a', w') ∧ Owned a installer w a' w' := by
  cases hfooting : a.footing with
  | building => exact step_building_owned installer w hfooting fun hs => ha ⟨hfooting, hs⟩
  | clearing => exact step_clearing_owned installer w hfooting
  | alive =>
    simp only [step, hfooting]
    exact ⟨_, _, rfl, rfl, rfl, ha, rfl, .look installer w.host⟩
  | leaving =>
    have hr := Context.removeDir_rehosted w a.dir
    simp only [step, hfooting]
    split
    all_goals
      next heq =>
        rw [heq] at hr
        exact ⟨_, _, rfl, .of_removal rfl (fun h => nomatch h.1) ⟨hr.host, hr.installs, hr.locks, hr.adrift⟩⟩
  | dropping discarded =>
    have hr := Context.removeQuietly_rehosted w a.s.name a.dir
    simp only [step, hfooting]
    refine ⟨_, _, rfl, .of_removal rfl (fun h => nomatch h.1) ?_⟩
    split
    · exact hr.note ..
    · exact hr
  | parting => exact absurd hfooting hp

end Pursuit

/-! ### Giving up and getting in line -/

namespace Pursuit

/-- A client that gives something up only changes its footing, and it was past the line if it does not
leave at once. -/
structure Moves (a a' : Pursuit) : Prop where
  same : a'.s = a.s
  footing : a' = a ∨ a'.footing = .parting ∨ ¬ a.Waits ∧ a.footing ≠ .parting

theorem not_waits_of_footing {a : Pursuit} (h : a.footing ≠ .building) : ¬ a.Waits := fun hw => h hw.1

theorem Moves.of_footing {a a' : Pursuit} (hs : a'.s = a.s) (hb : a.footing ≠ .building)
    (hp : a.footing ≠ .parting) : a.Moves a' :=
  ⟨hs, .inr (.inr ⟨not_waits_of_footing hb, hp⟩)⟩

theorem abandon_moves (a : Pursuit) : a.Moves a.abandon := by
  unfold abandon
  split
  next hf =>
    refine ⟨rfl, .inr ?_⟩
    by_cases hs : a.s.stage = .waiting
    · exact .inl (if_pos hs)
    · exact .inr ⟨fun hw => hs hw.2, by simp [hf]⟩
  next hf => exact .of_footing rfl (by simp [hf]) (by simp [hf])
  next hf => exact .of_footing rfl (by simp [hf]) (by simp [hf])
  next => exact ⟨rfl, .inl rfl⟩

theorem teardown_moves (a : Pursuit) : a.Moves a.teardown := by
  unfold teardown
  split
  next hf => exact .of_footing rfl (by simp [hf]) (by simp [hf])
  next => exact ⟨rfl, .inl rfl⟩

theorem drop_moves (a : Pursuit) : a.Moves a.drop := by
  unfold drop
  split
  next hf => exact .of_footing rfl (by simp [hf]) (by simp [hf])
  next => exact ⟨rfl, .inl rfl⟩

theorem works_spec {a : Pursuit} (h : a.works = true) : ¬ a.Waits ∧ a.footing ≠ .parting := by
  unfold works at h
  split at h
  next hf => exact ⟨not_waits_of_footing (by simp [hf]), by simp [hf]⟩
  next hf hs => exact ⟨fun hw => by simp [hw.2] at hs, by simp [hf]⟩
  next => cases h

end Pursuit

namespace Provisioning

/-- A provisioning that starts has the client that the lock gave it, and goes past the line only when
that one holds the lock. -/
theorem start_spec (w : World) (name : String) (deps : List Dependency) :
    (start w name deps).1.name = name ∧
      (start w name deps).1.client = (Locks.acquire w.locks name).1 ∧
      (start w name deps).2.locks = (Locks.acquire w.locks name).2 ∧
      ((start w name deps).1.stage = .waiting ∨ (start w name deps).1.client.held = true) := by
  unfold start
  dsimp only
  split
  next hheld => exact ⟨rfl, rfl, rfl, .inr hheld⟩
  next => exact ⟨rfl, rfl, rfl, .inl rfl⟩

theorem start_on (w : World) (h : Host) (name : String) (deps : List Dependency) :
    start { w with host := h } name deps =
      ((start w name deps).1, { (start w name deps).2 with host := h }) := by
  unfold start
  dsimp only
  split <;> rfl

end Provisioning

/-! ### All together -/

namespace Crowd

variable {x : Crowd} {i : Nat} {e : Errand}

/-- The same on another host. -/
def on (x : Crowd) (h : Host) : Crowd := { x with world := { x.world with host := h } }

/-- What the errand does neither depends on any file nor changes one. -/
def Blind (x : Crowd) (i : Nat) (e : Errand) : Prop := ∀ h, (x.on h).act i e = (x.act i e).on h

end Crowd

/-- A client asks for the lock of its context, and holds it unless it is in line or on its way out. -/
def Pursuit.Fits (a : Pursuit) : Prop :=
  a.s.client.name = a.s.name ∧ (a.Waits ∨ a.footing = .parting ∨ a.s.client.held = true)

namespace Crowd

variable {x : Crowd} {i : Nat} {e : Errand}

def client? (x : Crowd) (i : Nat) : Option Locks.Client := (x.pursuits i).map fun a => a.s.client

theorem client?_eq_some {c : Locks.Client} :
    x.client? i = some c ↔ ∃ a, x.pursuits i = some a ∧ a.s.client = c := Option.map_eq_some_iff

theorem client?_put (x : Crowd) (i j : Nat) (a? : Option Pursuit) (w : World) :
    (x.put i a? w).client? j = if j = i then a?.map fun a => a.s.client else x.client? j := by
  unfold client? put
  dsimp only
  split <;> rfl

/-- The locks are attended by the clients that there are. -/
structure Sound (x : Crowd) : Prop where
  attended : Locks.Attended x.world.locks fun i c => x.client? i = some c
  fits {i a} : x.pursuits i = some a → a.Fits

namespace Sound

theorem start (w : World) : (start w).Sound where
  attended := Locks.Attended.empty.congr fun _ _ => iff_of_false nofun not_false
  fits := nofun

theorem fits_put (h : x.Sound) (a? : Option Pursuit) {w : World} (ha : ∀ a, a? = some a → a.Fits)
    {j : Nat} {b : Pursuit} (hb : (x.put i a? w).pursuits j = some b) : b.Fits := by
  unfold put at hb
  dsimp only at hb
  split at hb
  · exact ha b hb
  · exact h.fits hb

theorem fits_some {a : Pursuit} (ha : a.Fits) (b : Pursuit) (hb : some a = some b) : b.Fits :=
  Option.some.inj hb ▸ ha

/-- A client that keeps its place in line changes nothing for the others. -/
theorem put_same (h : x.Sound) {a a' : Pursuit} {w : World} (ha : x.pursuits i = some a)
    (hlocks : w.locks = x.world.locks) (hclient : a'.s.client = a.s.client) (hfits : a'.Fits) :
    (x.put i (some a') w).Sound where
  attended := by
    have hc : x.client? i = some a.s.client := client?_eq_some.2 ⟨a, ha, rfl⟩
    refine (hlocks ▸ h.attended : Locks.Attended w.locks _).congr fun j c => ?_
    rw [client?_put]
    split
    next hj => rw [hj, hc, Option.map_some, hclient]
    next => rfl
  fits := h.fits_put _ (fits_some hfits)

theorem put_new (h : x.Sound) {a : Pursuit} {w : World} (hi : x.pursuits i = none)
    (hlocks : w.locks = (Locks.acquire x.world.locks a.s.name).2)
    (hclient : a.s.client = (Locks.acquire x.world.locks a.s.name).1) (hfits : a.Fits) :
    (x.put i (some a) w).Sound where
  attended := by
    have hc : x.client? i = none := by rw [client?, hi, Option.map_none]
    rw [show (x.put i (some a) w).world = w from rfl, hlocks]
    refine (h.attended.acquire i a.s.name).congr fun j c => ?_
    rw [client?_put]
    split
    next hj => simp [hj, hc, hclient, eq_comm]
    next hj => simp [hj]
  fits := h.fits_put _ (fits_some hfits)

theorem put_polled (h : x.Sound) {a a' : Pursuit} (ha : x.pursuits i = some a)
    (hclient : a'.s.client = a.s.client.poll x.world.locks) (hfits : a'.Fits) :
    (x.put i (some a') x.world).Sound where
  attended := by
    have hc : x.client? i = some a.s.client := client?_eq_some.2 ⟨a, ha, rfl⟩
    refine (h.attended.poll hc).congr fun j c => ?_
    rw [client?_put]
    split
    next hj => simp [hj, hc, hclient, eq_comm]
    next hj => simp [hj]
  fits := h.fits_put _ (fits_some hfits)

theorem put_gone (h : x.Sound) {a : Pursuit} (ha : x.pursuits i = some a) :
    (x.put i none (Context.release x.world a.s.client)).Sound where
  attended := by
    have hc : x.client? i = some a.s.client := client?_eq_some.2 ⟨a, ha, rfl⟩
    refine (h.attended.leave hc).congr fun j c => ?_
    rw [client?_put]
    split
    next hj => simp [hj, hc, eq_comm]
    next hj => simp [hj]
  fits := h.fits_put none fun _ ha => by cases ha

theorem step (h : x.Sound) (i : Nat) (installer : Installer) : (x.act i (.step installer)).Sound := by
  cases ha : x.pursuits i with
  | none => simpa only [Crowd.act, ha] using h
  | some a =>
    simp only [Crowd.act, ha]
    obtain ⟨hname, hfits⟩ := h.fits ha
    by_cases hp : a.footing = .parting
    · rw [Pursuit.step_parting installer x.world hp]
      exact h.put_gone ha
    · by_cases hw : a.Waits
      · obtain ⟨a', hstep, hname', hclient, hnext⟩ := Pursuit.step_waits installer x.world hw
        rw [hstep]
        refine h.put_polled ha hclient ⟨?_, hnext.imp_right .inr⟩
        rw [hclient, Locks.Client.poll_name, hname, hname']
      · obtain ⟨a', w', hstep, hown⟩ := Pursuit.step_owned installer x.world hw hp
        rw [hstep]
        refine h.put_same ha hown.locks hown.client ⟨?_, .inr (.inr ?_)⟩
        · rw [hown.client, hname, hown.name]
        · rw [hown.client]
          exact (hfits.resolve_left hw).resolve_left hp

/-- Changing one's footing is of no concern to the others. -/
theorem put_moved (h : x.Sound) {a a' : Pursuit} (ha : x.pursuits i = some a) (hm : a.Moves a') :
    (x.put i (some a') x.world).Sound := by
  obtain ⟨hname, hheld⟩ := h.fits ha
  refine h.put_same ha rfl (by rw [hm.same]) ?_
  obtain rfl | hp | ⟨hw, hp⟩ := hm.footing
  · exact h.fits ha
  · exact ⟨by rw [hm.same, hname], .inr (.inl hp)⟩
  · exact ⟨by rw [hm.same, hname], .inr (.inr (hm.same ▸ (hheld.resolve_left hw).resolve_left hp))⟩

theorem start_put (h : x.Sound) (hi : x.pursuits i = none) (p : Provisioner) (name : String)
    (deps : List Dependency) : (x.act i (.start p name deps)).Sound := by
  obtain ⟨hname, hclient, hlocks, hstage⟩ := Provisioning.start_spec x.world name deps
  simp only [Crowd.act, hi]
  refine h.put_new hi ?_ ?_ ⟨?_, ?_⟩
  · rw [hlocks, hname]
  · rw [hclient, hname]
  · rw [hclient, hname, Locks.acquire_eq, Locks.Client.poll_name]
  · exact hstage.imp (fun hs => ⟨rfl, hs⟩) .inr

theorem act (h : x.Sound) (i : Nat) (e : Errand) : (x.act i e).Sound := by
  cases ha : x.pursuits i with
  | none =>
    cases e with
    | start p name deps => exact h.start_put ha p name deps
    | wait ms => exact ⟨h.attended, h.fits⟩
    | _ => simpa only [Crowd.act, ha] using h
  | some a =>
    cases e with
    | start p name deps => simpa only [Crowd.act, ha] using h
    | wait ms => exact ⟨h.attended, h.fits⟩
    | step installer => exact h.step i installer
    | work change =>
      simp only [Crowd.act, ha]
      split
      · exact h.put_same ha rfl rfl (h.fits ha)
      · exact h
    | abandon =>
      simp only [Crowd.act, ha]
      exact h.put_moved ha a.abandon_moves
    | teardown =>
      simp only [Crowd.act, ha]
      exact h.put_moved ha a.teardown_moves
    | drop =>
      simp only [Crowd.act, ha]
      exact h.put_moved ha a.drop_moves

theorem after (h : x.Sound) (errands : List (Nat × Errand)) : (x.after errands).Sound := by
  induction errands generalizing x with
  | nil => exact h
  | cons d errands ih => exact ih (h.act d.1 d.2)

/-- Whoever is past the line and not on the way out owns the lock. -/
theorem owner (h : x.Sound) {a : Pursuit} (ha : x.pursuits i = some a) (hw : ¬ a.Waits)
    (hp : a.footing ≠ .parting) :
    a.s.client.held = true ∧ x.world.locks.owner? a.s.name = some a.s.client.ticket := by
  obtain ⟨hname, hfits⟩ := h.fits ha
  have hheld := (hfits.resolve_left hw).resolve_left hp
  exact ⟨hheld, hname ▸ h.attended.first (client?_eq_some.2 ⟨a, ha, rfl⟩) hheld⟩

theorem step_blind_or_owned (h : x.Sound) {a : Pursuit} (ha : x.pursuits i = some a)
    (installer : Installer) :
    x.Blind i (.step installer) ∨ a.s.client.held = true ∧
      x.world.locks.owner? a.s.name = some a.s.client.ticket ∧
      a.Touches (.step installer) x.world.host (x.act i (.step installer)).world.host := by
  have hact (h : Host) : (x.on h).act i (.step installer) =
      (x.on h).put i (a.step installer (x.on h).world).1 (a.step installer (x.on h).world).2 := by
    simp only [Crowd.act, on, ha]
  by_cases hp : a.footing = .parting
  · refine .inl fun host => ?_
    rw [hact, Pursuit.step_parting installer _ hp]
    simp only [Crowd.act, ha, Pursuit.step_parting installer x.world hp]
    rfl
  · by_cases hw : a.Waits
    · refine .inl fun host => ?_
      rw [hact, on, Pursuit.step_on installer x.world host hw]
      simp only [Crowd.act, ha]
      rfl
    · obtain ⟨hheld, howner⟩ := h.owner ha hw hp
      obtain ⟨a', w', hstep, hown⟩ := Pursuit.step_owned installer x.world hw hp
      refine .inr ⟨hheld, howner, ?_⟩
      simp only [Crowd.act, ha, hstep]
      exact hown.touches

theorem blind_or_owned (h : x.Sound) (i : Nat) (e : Errand) :
    x.Blind i e ∨ ∃ a, x.pursuits i = some a ∧ a.s.client.held = true ∧
      x.world.locks.owner? a.s.name = some a.s.client.ticket ∧
      a.Touches e x.world.host (x.act i e).world.host := by
  cases ha : x.pursuits i with
  | none =>
    refine .inl fun host => ?_
    cases e with
    | start p name deps =>
      simp only [Crowd.act, on, ha, Provisioning.start_on]
      rfl
    | _ => simp only [Crowd.act, on, ha]
  | some a =>
    cases e with
    | step installer =>
      exact (h.step_blind_or_owned ha installer).imp_right fun howned => ⟨a, rfl, howned⟩
    | work change =>
      by_cases hworks : a.works
      · obtain ⟨hw, hp⟩ := Pursuit.works_spec hworks
        obtain ⟨hheld, howner⟩ := h.owner ha hw hp
        refine .inr ⟨a, rfl, hheld, howner, ?_⟩
        simp only [Crowd.act, ha, hworks, if_true]
        exact .work change x.world.host
      · refine .inl fun host => ?_
        simp only [Crowd.act, on, ha, if_neg hworks]
    | start p name deps => exact .inl fun host => by simp only [Crowd.act, on, ha]
    | wait ms => exact .inl fun host => by simp only [Crowd.act, on]
    | _ =>
      refine .inl fun host => ?_
      simp only [Crowd.act, on, ha]
      rfl

end Sound

/-- Only the client that holds the lock of a name touches the files of its context, however the
clients' errands come between each other: every other errand neither reads nor changes a file. The
lock has one holder, whoever has a complete context holds it, and nobody who has gone stands in
line. -/
theorem touched_by_owner (w : World) (errands : List (Nat × Errand)) :
    (∀ i e, ((start w).after errands).Blind i e ∨
      ∃ a, ((start w).after errands).pursuits i = some a ∧ a.s.client.held = true ∧
        ((start w).after errands).world.locks.owner? a.s.name = some a.s.client.ticket ∧
        a.Touches e ((start w).after errands).world.host
          (((start w).after errands).act i e).world.host) ∧
    (∀ i j a b, ((start w).after errands).pursuits i = some a →
      ((start w).after errands).pursuits j = some b → a.s.name = b.s.name →
      a.s.client.held = true → b.s.client.held = true → i = j) ∧
    (∀ i a, ((start w).after errands).pursuits i = some a → a.footing = .alive →
      a.s.client.held = true) ∧
    ∀ name, ∀ t ∈ ((start w).after errands).world.locks.line name, ∃ i a,
      ((start w).after errands).pursuits i = some a ∧ a.s.name = name ∧ a.s.client.ticket = t := by
  have h : ((start w).after errands).Sound := (Sound.start w).after errands
  refine ⟨h.blind_or_owned, ?_, ?_, ?_⟩
  · intro i j a b ha hb hname hheld hheld'
    have hclient : a.s.client.name = b.s.client.name := by
      rw [(h.fits ha).1, (h.fits hb).1, hname]
    exact (h.attended.exclusive (client?_eq_some.2 ⟨a, ha, rfl⟩) (client?_eq_some.2 ⟨b, hb, rfl⟩)
      hclient hheld hheld').1
  · intro i a ha halive
    exact (h.owner ha (Pursuit.not_waits_of_footing (by simp [halive])) (by simp [halive])).1
  · intro name t ht
    obtain ⟨i, c, hc, hname, hticket⟩ := h.attended.known ht
    obtain ⟨a, ha, rfl⟩ := client?_eq_some.1 hc
    exact ⟨i, a, ha, (h.fits ha).1.symm.trans hname, hticket⟩

end Crowd

end Testbed
