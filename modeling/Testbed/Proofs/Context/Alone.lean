import Testbed.Proofs.Context.Effects
import Testbed.Proofs.Dependency.Resolution
import Testbed.Proofs.Locks

/-! A provisioning that goes on alone hands its sources to the installer one after the other, up to
the first that is not accepted, and waits for each install that ends. -/
namespace Testbed

/-! ### Installs -/

/-- The sources were handed to the installer in turn, each install ended and was accepted, and this
is the host afterwards. -/
inductive Accepted (p : Provisioner) (installer : Installer) (target : InstallTarget) :
    List Dependency → Host → Host → Prop
  | nil (h : Host) : Accepted p installer target [] h h
  | cons {source : Dependency} {rest : List Dependency} {h h' : Host}
      (hpause : (installer h target source).pause ≠ .forever)
      (hend : p.objection? target.envName source (installer h target source).ending = none)
      (hrest : Accepted p installer target rest
        { h with tree := (installer h target source).tree } h') :
      Accepted p installer target (source :: rest) h h'

/-- The sources up to one were accepted, and the install of that one does not end, or is objected
to. -/
structure Stops (p : Provisioner) (installer : Installer) (target : InstallTarget)
    (sources : List Dependency) (h : Host) (before : List Dependency) (source : Dependency) (h' : Host)
    (cause? : Option ProvisionError) : Prop where
  sources : ∃ after, sources = before ++ source :: after
  before : Accepted p installer target before h h'
  stops : match cause? with
    | none => (installer h' target source).pause = .forever
    | some cause => (installer h' target source).pause ≠ .forever ∧
      p.objection? target.envName source (installer h' target source).ending = some cause

variable {p : Provisioner} {installer : Installer} {target : InstallTarget}

/-- Either all sources are accepted, or there is a first that is not. -/
theorem accepted_or_stops (sources : List Dependency) (h : Host) :
    (∃ h', Accepted p installer target sources h h') ∨
      ∃ before source h' cause?, Stops p installer target sources h before source h' cause? := by
  induction sources generalizing h with
  | nil => exact .inl ⟨h, .nil h⟩
  | cons source rest ih =>
    by_cases hpause : (installer h target source).pause = .forever
    · exact .inr ⟨[], source, h, none, ⟨⟨rest, rfl⟩, .nil h, hpause⟩⟩
    · cases hend : p.objection? target.envName source (installer h target source).ending with
      | some cause => exact .inr ⟨[], source, h, some cause, ⟨⟨rest, rfl⟩, .nil h, hpause, hend⟩⟩
      | none =>
        rcases ih { h with tree := (installer h target source).tree } with ⟨h', ha⟩ |
          ⟨before, next, h', cause?, ⟨after, rfl⟩, hb, hs⟩
        · exact .inl ⟨h', .cons hpause hend ha⟩
        · exact .inr ⟨source :: before, next, h', cause?, ⟨after, rfl⟩, .cons hpause hend hb, hs⟩

/-! ### Going on alone -/

namespace Provisioning

variable {w w' : World} {s s' : Provisioning} {fuel : Nat}

theorem drive_moved {r : Provisioning × World} (h : step p installer w s = moved r) :
    drive p installer (fuel + 1) w s = drive p installer fuel r.2 r.1 := by
  rw [drive, h]
  rfl

theorem drive_waiting {moment : Nat} (h : step p installer w s = .blocked (some moment)) :
    drive p installer (fuel + 1) w s = drive p installer fuel { w with clock := moment } s := by
  rw [drive, h]

theorem drive_blocked (h : step p installer w s = .blocked none) :
    drive p installer fuel w s = (s, w) := by
  cases fuel with
  | zero => rfl
  | succ fuel => rw [drive, h]

/-- A world in which so many installs were begun besides, on such a host. -/
structure Reached (w w' : World) (installs : List Install) (h : Host) : Prop where
  host : w'.host = h
  installs : w'.installs = w.installs ++ installs

/-- An install that ends is judged by what it leaves, however long it takes. -/
theorem drive_call {source : Dependency} {rest : List Dependency}
    (hs : s.stage = .installing (source :: rest))
    (hpause : (installer w.host (s.target p) source).pause ≠ .forever) (fuel : Nat) :
    ∃ fuel' w', fuel ≤ fuel' ∧
      drive p installer (fuel + 3) w s = drive p installer fuel' w'
        { s with stage := judged p s source rest (installer w.host (s.target p) source).ending } ∧
      Reached w w' [⟨s.name, source⟩]
        { w.host with tree := (installer w.host (s.target p) source).tree } := by
  generalize hr : installer w.host (s.target p) source = reply at hpause ⊢
  let w₁ : World := ((w.note .debug (some s.name) "Installing").recordInstall
    ⟨s.name, source⟩).cancelIf reply.cancels
  have hstep : step p installer w s = moved (install p installer w s source rest) := by
    simp only [step, hs]
  -- taking over what the install did, at whatever moment
  have haccept (w₂ : World) (s₂ : Provisioning) (hw : w₂.host = w.host)
      (hi : w₂.installs = w.installs ++ [⟨s.name, source⟩]) (hs₂ : s₂ = { s with stage := s₂.stage }) :
      (accept p w₂ s₂ source rest reply).1 =
          { s with stage := judged p s source rest reply.ending } ∧
        Reached w (accept p w₂ s₂ source rest reply).2 [⟨s.name, source⟩]
          { w.host with tree := reply.tree } := by
    obtain ⟨hstage, heff⟩ := accept_eq p w₂ s₂ source rest reply
    refine ⟨?_, heff.host.trans (by rw [hw]), heff.installs.trans hi⟩
    rw [hstage, hs₂]
    rfl
  cases hp : reply.pause with
  | none =>
    obtain ⟨h₁, h₂⟩ := haccept w₁ s rfl rfl rfl
    refine ⟨fuel + 2, (accept p w₁ s source rest reply).2, by omega, ?_, h₂⟩
    have hin : install p installer w s source rest = accept p w₁ s source rest reply := by
      simp only [install, hr, hp]
      rfl
    rw [drive_moved hstep, hin, h₁]
  | forever => exact absurd hp hpause
  | lasting ms =>
    let s₁ : Provisioning := { s with stage := .awaiting source rest (some (w.clock + ms)) }
    have hin : install p installer w s source rest = (s₁, w₁) := by
      simp only [install, hr, hp]
      rfl
    have hcall (w₂ : World) (hw : w₂.host = w.host) (hm : w.clock + ms ≤ w₂.clock) :
        step p installer w₂ s₁ = moved (accept p w₂ s₁ source rest reply) := by
      have htarget : s₁.target p = s.target p := rfl
      simp only [step, s₁, hm, if_true, hw]
      rw [← hr, ← htarget]
    rw [drive_moved hstep, hin]
    by_cases hm : w.clock + ms ≤ w₁.clock
    · obtain ⟨h₁, h₂⟩ := haccept w₁ s₁ rfl rfl rfl
      refine ⟨fuel + 1, (accept p w₁ s₁ source rest reply).2, by omega, ?_, h₂⟩
      rw [drive_moved (hcall w₁ rfl hm), h₁]
    · obtain ⟨h₁, h₂⟩ := haccept { w₁ with clock := w.clock + ms } s₁ rfl rfl rfl
      refine ⟨fuel, (accept p { w₁ with clock := w.clock + ms } s₁ source rest reply).2,
        Nat.le_refl _, ?_, h₂⟩
      have hwait : step p installer w₁ s₁ = .blocked (some (w.clock + ms)) := by
        simp only [step, s₁, hm, if_false]
      have hthen := hcall { w₁ with clock := w.clock + ms } rfl (Nat.le_refl _)
      rw [drive_waiting hwait, drive_moved hthen, h₁]

theorem Reached.trans {w₁ w₂ w₃ : World} {is is' : List Install} {h h' : Host}
    (r : Reached w₁ w₂ is h) (r' : Reached w₂ w₃ is' h') : Reached w₁ w₃ (is ++ is') h' :=
  ⟨r'.host, by rw [r'.installs, r.installs, List.append_assoc]⟩

theorem reached_of_rehosted {h : Host} (r : World.Rehosted w w' h) : Reached w w' [] h :=
  ⟨r.host, by rw [r.installs, List.append_nil]⟩

/-- Sources that are accepted are passed one after the other. -/
theorem drive_accepted {sources : List Dependency} {h h' : Host}
    (ha : Accepted p installer (s.target p) sources h h') (hw : w.host = h) {rest : List Dependency}
    (hs : s.stage = .installing (sources ++ rest)) (fuel : Nat) :
    ∃ fuel' w', fuel ≤ fuel' ∧
      drive p installer (fuel + 3 * sources.length) w s =
        drive p installer fuel' w' { s with stage := .installing rest } ∧
      Reached w w' (sources.map (Install.mk s.name)) h' := by
  generalize htarget : s.target p = target at ha
  induction ha generalizing w s fuel with
  | nil h =>
    refine ⟨fuel, w, Nat.le_refl _, ?_, hw, by simp⟩
    rw [List.nil_append] at hs
    rw [← hs]
    rfl
  | @cons source sources h h' hpause hend hrest ih =>
    subst hw htarget
    rw [List.cons_append] at hs
    obtain ⟨fuel₁, w₁, hle, hdrive, hreached⟩ :=
      drive_call hs hpause (fuel + 3 * sources.length)
    have hnone : p.objection? s.name source (installer w.host (s.target p) source).ending = none :=
      hend
    simp only [judged, hnone] at hdrive
    obtain ⟨k, rfl⟩ : ∃ k, fuel₁ = k + 3 * sources.length := ⟨fuel₁ - 3 * sources.length, by omega⟩
    obtain ⟨fuel₂, w₂, hle₂, hdrive₂, hreached₂⟩ :=
      @ih w₁ { s with stage := .installing (sources ++ rest) } hreached.host rfl k rfl
    refine ⟨fuel₂, w₂, by omega, ?_, hreached.trans hreached₂⟩
    rw [List.length_cons, Nat.mul_succ, ← Nat.add_assoc, hdrive, hdrive₂]

theorem drive_endless {source : Dependency} {rest : List Dependency}
    (hs : s.stage = .installing (source :: rest))
    (hpause : (installer w.host (s.target p) source).pause = .forever) (fuel : Nat) :
    ∃ w', drive p installer (fuel + 1) w s = ({ s with stage := .awaiting source rest none }, w') ∧
      Reached w w' [⟨s.name, source⟩] w.host := by
  have hstep : step p installer w s = moved (install p installer w s source rest) := by
    simp only [step, hs]
  have hin : (install p installer w s source rest).1 =
      { s with stage := .awaiting source rest none } := by
    simp only [install, hpause]
  refine ⟨(install p installer w s source rest).2, ?_, ?_⟩
  · rw [drive_moved hstep, hin]
    exact drive_blocked (by simp only [step])
  · simp only [install, hpause]
    exact ⟨rfl, rfl⟩

/-- What is to be discarded is gone with the next step. -/
theorem drive_discard {cause : ProvisionError} (hs : s.stage = .discarding cause) (fuel : Nat) :
    ∃ w', drive p installer (fuel + 1) w s = ({ s with stage := .failed cause }, w') ∧
      Reached w w' [] (w.host.without (s.dir p)) := by
  have hstep : step p installer w s = moved (discard p w s cause) := by
    simp only [step, hs]
  obtain ⟨hhost, hinstalls, -⟩ := discard_host p w s cause
  refine ⟨(discard p w s cause).2, ?_, hhost, by rw [hinstalls, List.append_nil]⟩
  rw [drive_moved hstep, discard_fst]
  exact drive_blocked (by simp only [step])

theorem drive_record (hs : s.stage = .installing []) (fuel : Nat) :
    drive p installer (fuel + 2) w s =
      drive p installer fuel (record p w { s with stage := .recording }).2
        (record p w { s with stage := .recording }).1 := by
  have hstep : step p installer w s = moved ({ s with stage := .recording }, w) := by
    simp only [step, hs]
    rfl
  have hthen : step p installer w { s with stage := .recording } =
      moved (record p w { s with stage := .recording }) := by
    simp only [step]
  rw [drive_moved hstep, drive_moved hthen]

theorem drive_makeDir {next : Stage} {path : Path} {h : Host}
    (hstep : step p installer w s = moved (makeDir w s path next))
    (ho : w.host.makeDirAll path = .ok h) (fuel : Nat) :
    ∃ w', drive p installer (fuel + 1) w s = drive p installer fuel w' { s with stage := next } ∧
      Reached w w' [] h := by
  obtain ⟨hstage, hmake⟩ := @makeDir_ok w s path next h ho
  refine ⟨(makeDir w s path next).2, ?_, reached_of_rehosted hmake⟩
  rw [drive_moved hstep, hstage]

/-- Before the first install a stale context goes, and two directories are made. -/
theorem drive_built {h₀ h₁ h₂ : Host} (hs : s.stage = .clearing)
    (hr : (∃ h, w.host.removeTree (s.dir p) = .ok h) ∨
      ∃ h, w.host.removeTree (s.dir p) = .error ⟨.notFound, h⟩)
    (hclear : (if w.host.exists? (s.dir p) then w.host.without (s.dir p) else w.host) = h₀)
    (hbin : h₀.makeDirAll ((s.dir p).join "bin") = .ok h₁)
    (htmp : h₁.makeDirAll ((s.dir p).join "tmp") = .ok h₂) (fuel : Nat) :
    ∃ w', drive p installer (fuel + 3) w s =
        drive p installer fuel w' { s with stage := .installing s.metadata.sources } ∧
      Reached w w' [] h₂ := by
  have hstep : step p installer w s = moved (clear p w s) := by
    simp only [step, hs]
  have r₀ := reached_of_rehosted (clear_rehosted p w s)
  rw [hclear] at r₀
  obtain ⟨w₁, hdrive₁, r₁⟩ := @drive_makeDir p installer (clear p w s).2
    { s with stage := .makingBin } .makingTmp ((s.dir p).join "bin") h₁ rfl
    (by
      rw [r₀.host]
      exact hbin) (fuel + 1)
  obtain ⟨w₂, hdrive₂, r₂⟩ := @drive_makeDir p installer w₁
    { s with stage := .makingTmp } (.installing s.metadata.sources) ((s.dir p).join "tmp") h₂ rfl
    (by
      rw [r₁.host]
      exact htmp) fuel
  refine ⟨w₂, ?_, (r₀.trans r₁).trans r₂⟩
  rw [drive_moved hstep, clear_ok hr, hdrive₁, hdrive₂]

/-! ### A whole run -/

/-- What a provisioning that goes on no more says. -/
def verdict (p : Provisioner) (s : Provisioning) : Option (Except ProvisionError Context) :=
  match s.stage with
  | .ready => some (.ok (s.context p))
  | .failed cause => some (.error cause)
  | _ => none

/-- A provisioning that has the lock and whose context is laid out. -/
def laid (w : World) (name : String) (deps : List Dependency) : Provisioning :=
  let metadata := Metadata.ofDeclared name deps w.date
  ⟨name, metadata, ⟨name, w.locks.next, true⟩, .installing metadata.sources⟩

variable {name : String} {deps : List Dependency}

theorem laid_dir : ((laid w name deps).context p).dir = p.envDir name := rfl

theorem start_free (deps : List Dependency) (hfree : w.locks.line name = []) :
    start w name deps = ({ laid w name deps with stage := .clearing },
      { w with locks := (w.locks.enter name).2 }) := by
  simp only [start, Locks.acquire_free hfree, if_true, laid]

theorem run_eq (p : Provisioner) (installer : Installer) (w : World) (name : String)
    (deps : List Dependency) : run p installer w name deps =
      (verdict p (drive p installer (bound deps.length) (start w name deps).2 (start w name deps).1).1,
        (drive p installer (bound deps.length) (start w name deps).2 (start w name deps).1).2) := by
  unfold run verdict
  cases start w name deps with
  | mk s w' =>
    dsimp only
    cases drive p installer (bound deps.length) w' s with
    | mk s' w'' => cases s'.stage <;> rfl

/-- A provisioning takes its lock and comes to its first install, with patience for all of them, on
such a host. -/
def LaysOut (p : Provisioner) (installer : Installer) (w : World) (name : String)
    (deps : List Dependency) (h : Host) : Prop :=
  ∃ w', run p installer w name deps =
      (verdict p (drive p installer (4 * deps.length + 13) w' (laid w name deps)).1,
        (drive p installer (4 * deps.length + 13) w' (laid w name deps)).2) ∧
    Reached w w' [] h

theorem laysOut {h₀ h₁ h₂ : Host} (hfree : w.locks.line name = [])
    (hr : (∃ h, w.host.removeTree (p.envDir name) = .ok h) ∨
      ∃ h, w.host.removeTree (p.envDir name) = .error ⟨.notFound, h⟩)
    (hclear : (if w.host.exists? (p.envDir name) then w.host.without (p.envDir name) else w.host) = h₀)
    (hbin : h₀.makeDirAll ((p.envDir name).join "bin") = .ok h₁)
    (htmp : h₁.makeDirAll ((p.envDir name).join "tmp") = .ok h₂) :
    LaysOut p installer w name deps h₂ := by
  obtain ⟨w', hdrive, hreached⟩ := @drive_built p installer { w with locks := (w.locks.enter name).2 }
    { laid w name deps with stage := .clearing } h₀ h₁ h₂ rfl hr hclear hbin htmp
    (4 * deps.length + 13)
  refine ⟨w', ?_, hreached.host, hreached.installs⟩
  rw [run_eq, start_free deps hfree, bound, hdrive]
  rfl

section Outcomes

variable {before rest : List Dependency} {source : Dependency} {h₀ h h' : Host}
  {cause : ProvisionError}

/-- Sources that are accepted leave the rest to be installed, and patience to do so. -/
theorem run_accepted (hl : LaysOut p installer w name deps h₀)
    (hsources : Dependency.resolve deps = before ++ rest)
    (ha : Accepted p installer ⟨name, p.envDir name, p.root⟩ before h₀ h) :
    ∃ fuel w', 3 < fuel ∧ Reached w w' (before.map (Install.mk name)) h ∧
      run p installer w name deps =
        (verdict p (drive p installer fuel w' { laid w name deps with stage := .installing rest }).1,
          (drive p installer fuel w' { laid w name deps with stage := .installing rest }).2) := by
  obtain ⟨w₁, hrun, h₁⟩ := hl
  have hlen : before.length ≤ deps.length := by
    have := Dependency.length_resolve_le deps
    rw [hsources, List.length_append] at this
    omega
  obtain ⟨k, hk⟩ : ∃ k, 4 * deps.length + 13 = k + 3 * before.length :=
    ⟨4 * deps.length + 13 - 3 * before.length, by omega⟩
  obtain ⟨fuel, w₂, hle, hdrive, h₂⟩ :=
    @drive_accepted p installer w₁ (laid w name deps) before _ h ha h₁.host rest
      (congrArg Stage.installing hsources) k
  refine ⟨fuel, w₂, by omega, h₁.trans h₂, ?_⟩
  rw [hrun, hk, hdrive]

theorem run_ready (hl : LaysOut p installer w name deps h₀)
    (ha : Accepted p installer ⟨name, p.envDir name, p.root⟩ (Dependency.resolve deps) h₀ h)
    (hwrite : h.write (Metadata.path (p.envDir name))
      (Text.encode (Metadata.ofDeclared name deps w.date).text) = .ok h') :
    ∃ w', Reached w w' ((Dependency.resolve deps).map (Install.mk name)) h' ∧
      run p installer w name deps = (some (.ok ((laid w name deps).context p)), w') := by
  obtain ⟨fuel, w₁, hfuel, h₁, hrun⟩ := run_accepted hl (List.append_nil _).symm ha
  obtain ⟨k, rfl⟩ : ∃ k, fuel = k + 2 := ⟨fuel - 2, by omega⟩
  let s : Provisioning := { laid w name deps with stage := .recording }
  have hw : w₁.host.write (Metadata.path (s.dir p)) (Text.encode s.metadata.text) = .ok h' := by
    rw [h₁.host]
    exact hwrite
  obtain ⟨hstage, hrecord⟩ := record_ok hw
  have hready : drive p installer k (record p w₁ s).2 { s with stage := .ready } =
      ({ s with stage := .ready }, (record p w₁ s).2) := drive_blocked rfl
  refine ⟨(record p w₁ s).2, ?_, ?_⟩
  · simpa using h₁.trans (reached_of_rehosted hrecord)
  · rw [hrun, drive_record rfl]
    change (verdict p (drive p installer k (record p w₁ s).2 (record p w₁ s).1).1,
      (drive p installer k (record p w₁ s).2 (record p w₁ s).1).2) = _
    rw [hstage, hready]
    rfl

/-- What went wrong is reported once what was built is gone. -/
theorem run_discarded {fuel : Nat} {w₁ : World} {installs : List Install} (hfuel : 0 < fuel)
    (h₁ : Reached w w₁ installs h)
    (hrun : run p installer w name deps =
      (verdict p (drive p installer fuel w₁
        { laid w name deps with stage := .discarding cause }).1,
        (drive p installer fuel w₁ { laid w name deps with stage := .discarding cause }).2)) :
    ∃ w', Reached w w' installs (h.without (p.envDir name)) ∧
      run p installer w name deps = (some (.error cause), w') := by
  obtain ⟨k, rfl⟩ : ∃ k, fuel = k + 1 := ⟨fuel - 1, by omega⟩
  obtain ⟨w₂, hdrive, h₂⟩ :=
    @drive_discard p installer w₁ { laid w name deps with stage := .discarding cause } cause rfl k
  have h₃ := h₁.trans h₂
  rw [h₁.host, List.append_nil] at h₃
  refine ⟨w₂, h₃, ?_⟩
  rw [hrun, hdrive]
  rfl

theorem run_unrecorded {fault : Host.Fault Host} (hl : LaysOut p installer w name deps h₀)
    (ha : Accepted p installer ⟨name, p.envDir name, p.root⟩ (Dependency.resolve deps) h₀ h)
    (hwrite : h.write (Metadata.path (p.envDir name))
      (Text.encode (Metadata.ofDeclared name deps w.date).text) = .error fault) :
    ∃ w', Reached w w' ((Dependency.resolve deps).map (Install.mk name))
        (h.without (p.envDir name)) ∧
      run p installer w name deps =
        (some (.error (.context (Metadata.path (p.envDir name)) fault.cause)), w') := by
  obtain ⟨fuel, w₁, hfuel, h₁, hrun⟩ := run_accepted hl (List.append_nil _).symm ha
  obtain ⟨k, rfl⟩ : ∃ k, fuel = k + 2 := ⟨fuel - 2, by omega⟩
  let s : Provisioning := { laid w name deps with stage := .recording }
  have hw : w₁.host.write (Metadata.path (s.dir p)) (Text.encode s.metadata.text) = .error fault := by
    rw [h₁.host]
    exact hwrite
  obtain ⟨hstage, hrecord⟩ := record_error hw
  rw [h₁.host] at hrecord
  have h₂ := h₁.trans (reached_of_rehosted hrecord)
  rw [List.append_nil] at h₂
  refine @run_discarded p installer w name deps _ _ k _ _ (by omega) h₂ ?_
  rw [hrun, drive_record rfl]
  change (verdict p (drive p installer k (record p w₁ s).2 (record p w₁ s).1).1,
    (drive p installer k (record p w₁ s).2 (record p w₁ s).1).2) = _
  rw [hstage]
  rfl

/-- The source that is not accepted is the last to be handed over. -/
theorem run_stopped (hl : LaysOut p installer w name deps h₀)
    (hs : Stops p installer ⟨name, p.envDir name, p.root⟩ (Dependency.resolve deps)
      h₀ before source h (some cause)) :
    ∃ w', Reached w w' ((before ++ [source]).map (Install.mk name))
        (Host.without { h with tree := (installer h ⟨name, p.envDir name, p.root⟩ source).tree }
          (p.envDir name)) ∧
      run p installer w name deps = (some (.error cause), w') := by
  obtain ⟨after, hsources⟩ := hs.sources
  obtain ⟨hpause, hend⟩ := hs.stops
  obtain ⟨fuel, w₁, hfuel, h₁, hrun⟩ := run_accepted hl hsources hs.before
  obtain ⟨k, rfl⟩ : ∃ k, fuel = k + 3 := ⟨fuel - 3, by omega⟩
  let s : Provisioning := { laid w name deps with stage := .installing (source :: after) }
  have hobjection : p.objection? s.name source (installer h (s.target p) source).ending =
    some cause := hend
  obtain ⟨fuel₂, w₂, hle, hdrive, h₂⟩ :=
    @drive_call p installer w₁ s source after rfl (by rwa [h₁.host]) k
  rw [h₁.host] at hdrive h₂
  simp only [judged, hobjection] at hdrive
  have h₃ : Reached w w₂ ((before ++ [source]).map (Install.mk name))
      { h with tree := (installer h (s.target p) source).tree } := by
    rw [List.map_append]
    exact h₁.trans h₂
  refine @run_discarded p installer w name deps _ cause fuel₂ w₂ _ (by omega) h₃ ?_
  rw [hrun, hdrive]

theorem run_endless (hl : LaysOut p installer w name deps h₀)
    (hs : Stops p installer ⟨name, p.envDir name, p.root⟩ (Dependency.resolve deps)
      h₀ before source h none) :
    ∃ w', Reached w w' ((before ++ [source]).map (Install.mk name)) h ∧
      run p installer w name deps = (none, w') := by
  obtain ⟨after, hsources⟩ := hs.sources
  obtain ⟨fuel, w₁, hfuel, h₁, hrun⟩ := run_accepted hl hsources hs.before
  obtain ⟨k, rfl⟩ : ∃ k, fuel = k + 1 := ⟨fuel - 1, by omega⟩
  have hpause : (installer w₁.host ⟨name, p.envDir name, p.root⟩ source).pause = .forever := by
    rw [h₁.host]
    exact hs.stops
  obtain ⟨w₂, hdrive, h₂⟩ := @drive_endless p installer w₁
    { laid w name deps with stage := .installing (source :: after) } source after rfl hpause k
  rw [h₁.host] at h₂
  have h₃ : Reached w w₂ ((before ++ [source]).map (Install.mk name)) h := by
    rw [List.map_append]
    exact h₁.trans h₂
  refine ⟨w₂, h₃, ?_⟩
  rw [hrun, hdrive]
  rfl

/-- Who succeeds had all sources accepted, in order, and the record was written after them. -/
theorem run_succeeded {c : Context} (hl : LaysOut p installer w name deps h₀)
    (hc : (run p installer w name deps).1 = some (.ok c)) :
    c = (laid w name deps).context p ∧
      (run p installer w name deps).2.installs =
        w.installs ++ (Dependency.resolve deps).map (Install.mk name) ∧
      ∃ h, Accepted p installer ⟨name, p.envDir name, p.root⟩ (Dependency.resolve deps) h₀ h ∧
        h.write (Metadata.path (p.envDir name))
          (Text.encode (Metadata.ofDeclared name deps w.date).text) =
            .ok (run p installer w name deps).2.host := by
  rcases @accepted_or_stops p installer ⟨name, p.envDir name, p.root⟩ (Dependency.resolve deps) h₀
    with ⟨h, ha⟩ | ⟨before, source, h, cause?, hs⟩
  · cases hwrite : h.write (Metadata.path (p.envDir name))
      (Text.encode (Metadata.ofDeclared name deps w.date).text) with
    | ok h' =>
      obtain ⟨w', hr, hrun⟩ := run_ready hl ha hwrite
      rw [hrun] at hc ⊢
      refine ⟨(Except.ok.inj (Option.some.inj hc)).symm, hr.installs, h, ha, ?_⟩
      rw [hwrite, hr.host]
    | error fault =>
      obtain ⟨w', -, hrun⟩ := run_unrecorded hl ha hwrite
      rw [hrun] at hc
      cases hc
  · cases cause? with
    | some cause =>
      obtain ⟨w', -, hrun⟩ := run_stopped hl hs
      rw [hrun] at hc
      cases hc
    | none =>
      obtain ⟨w', -, hrun⟩ := run_endless hl hs
      rw [hrun] at hc
      cases hc

/-- Only the host as it is laid out decides what comes of a provisioning. -/
theorem run_same {w' : World} (hl : LaysOut p installer w name deps h₀)
    (hl' : LaysOut p installer w' name deps h₀) (hlocks : w'.locks = w.locks)
    (hdate : w'.date = w.date) (hinstalls : w'.installs = w.installs) :
    (run p installer w' name deps).1 = (run p installer w name deps).1 ∧
      (run p installer w' name deps).2.host = (run p installer w name deps).2.host ∧
      (run p installer w' name deps).2.installs = (run p installer w name deps).2.installs := by
  have hlaid : laid w' name deps = laid w name deps := by
    simp only [laid, hdate, hlocks]
  -- both runs end the same way, with the same host and the same installs besides
  suffices hboth : ∃ result installs h,
      (∃ w₁, Reached w w₁ installs h ∧ run p installer w name deps = (result, w₁)) ∧
      (∃ w₁, Reached w' w₁ installs h ∧ run p installer w' name deps = (result, w₁)) by
    obtain ⟨result, installs, h, ⟨w₁, h₁, hrun₁⟩, w₂, h₂, hrun₂⟩ := hboth
    rw [hrun₁, hrun₂]
    exact ⟨rfl, h₂.host.trans h₁.host.symm, by rw [h₂.installs, h₁.installs, hinstalls]⟩
  rcases @accepted_or_stops p installer ⟨name, p.envDir name, p.root⟩ (Dependency.resolve deps) h₀
    with ⟨h, ha⟩ | ⟨before, source, h, cause?, hs⟩
  · cases hwrite : h.write (Metadata.path (p.envDir name))
      (Text.encode (Metadata.ofDeclared name deps w.date).text) with
    | ok h' =>
      refine ⟨_, _, _, run_ready hl ha hwrite, ?_⟩
      rw [← hlaid]
      exact run_ready hl' ha (hdate ▸ hwrite)
    | error fault =>
      exact ⟨_, _, _, run_unrecorded hl ha hwrite, run_unrecorded hl' ha (hdate ▸ hwrite)⟩
  · cases cause? with
    | some cause => exact ⟨_, _, _, run_stopped hl hs, run_stopped hl' hs⟩
    | none => exact ⟨_, _, _, run_endless hl hs, run_endless hl' hs⟩

end Outcomes

end Provisioning

end Testbed
