import Testbed.Proofs.Context.Crowd
import Testbed.Proofs.Context.Ground
import Testbed.Proofs.Host.Removal
import Testbed.Proofs.Run.Act
import Testbed.Proofs.Run.Chronicle
import Testbed.Proofs.Run.Isolation

/-! What runs remove. The one thing that is ever removed is the directory of a context, by the task of
the environment that it is for, and that one is chosen and has commands. Names are identifiers, so
such a directory stands right below the work directory, no other stands in it, and its removal leaves
all others alone. -/
namespace Testbed

open Host (FileCall)

/-! ### What one environment does to files -/

/-- The calls that are made for the context of a name: it is removed, laid out, or its record is
written. -/
inductive Host.FileCall.IsFor (p : Provisioner) (name : String) : FileCall → Prop
  | remove : IsFor p name (.remove (p.envDir name))
  | makeDirs {sub : String} (hs : sub ∈ ["bin", "tmp"]) :
      IsFor p name (.makeDirs ((p.envDir name).join sub))
  | write (m : Metadata) :
      IsFor p name (.write (Metadata.path (p.envDir name)) (Text.encode m.text))

namespace Task

/-- What a step on behalf of an environment makes of a host. Where a context is found in the way, is
discarded, torn down or dropped, its directory goes; whatever installers and programs do, they do on
their own account. -/
inductive Alters (f : Facilities) (spec : EnvSpec) (h : Host) : Host → Prop
  | call {call : FileCall} (hc : call.IsFor f.provisioner spec.name) :
      Alters f spec h (h.after call)
  | install (target : InstallTarget) (source : Dependency) :
      Alters f spec h { h with tree := (f.installer h target source).tree }
  | program (external : Bool) (i : Invocation) (cutAt : Option Nat) :
      Alters f spec h { h with tree := ((executableFor f external).run h i cutAt).tree }
  /-- A program of which the task dies. -/
  | abort (external : Bool) (i : Invocation) (cutAt : Option Nat) :
      Alters f spec h (Host.without
        { h with tree := ((executableFor f external).run h i cutAt).tree }
        (f.provisioner.envDir spec.name))

/-- A world after a step, which may have left the files alone. A call that it leaves adrift is for the
context of the environment. -/
structure Leads (f : Facilities) (spec : EnvSpec) (w w' : World) : Prop where
  host : w'.host = w.host ∨ Alters f spec w.host w'.host
  adrift : ∀ call ∈ w'.adrift, call ∈ w.adrift ∨ call.IsFor f.provisioner spec.name

variable {f : Facilities} {t t' : Task} {w w' : World} {c : Context} {p : Progress}
  {spec : EnvSpec}

theorem Leads.of_sameFiles (h : w.SameFiles w') : Leads f spec w w' :=
  ⟨.inl h.host, fun _ hcall => .inl (h.adrift ▸ hcall)⟩

/-- Only the files count, and what is adrift. -/
theorem Leads.congr {v v' : World} (hw : w.SameFiles v) (h : Leads f spec v v')
    (hw' : v'.SameFiles w') : Leads f spec w w' := by
  refine ⟨?_, ?_⟩
  · rw [hw'.host, ← hw.host]
    exact h.host
  · rw [hw'.adrift, ← hw.adrift]
    exact h.adrift

theorem Leads.of_alters (ha : Alters f spec w.host w'.host) (h : w'.adrift = w.adrift) :
    Leads f spec w w' := ⟨.inr ha, fun _ hcall => .inl (h ▸ hcall)⟩

theorem alters_without (h : Host) (spec : EnvSpec) :
    Alters f spec h (h.without (f.provisioner.envDir spec.name)) := .call .remove

theorem Leads.of_without {keep : Bool}
    (hw : w'.host = if keep then w.host else w.host.without (f.provisioner.envDir spec.name))
    (h : w'.adrift = w.adrift) : Leads f spec w w' := by
  cases keep with
  | true => exact .of_sameFiles ⟨hw, h⟩
  | false =>
    refine .of_alters ?_ h
    rw [hw]
    exact alters_without ..

/-! ### Building -/

theorem alters_of_touches {s : Provisioning} (hs : s.name = spec.name) {h h' : Host}
    (ht : Pursuit.Touches ⟨f.provisioner, s, .building⟩ (.step f.installer) h h') :
    h' = h ∨ Alters f spec h h' := by
  have hdir : Pursuit.dir ⟨f.provisioner, s, .building⟩ = f.provisioner.envDir spec.name :=
    congrArg f.provisioner.envDir hs
  cases ht with
  | look => exact .inl rfl
  | remove =>
    rw [hdir]
    exact .inr (alters_without ..)
  | makeDir _ _ hsub =>
    rw [hdir]
    exact .inr (.call (.makeDirs hsub))
  | install _ _ source => exact .inr (.install _ source)
  | record =>
    rw [hdir]
    exact .inr (.call (.write _))

theorem building_leads {s s' : Provisioning} (hs : s.name = spec.name)
    (h : s.step f.provisioner f.installer w = .moved s' w') : Leads f spec w w' := by
  have hdir : s.dir f.provisioner = f.provisioner.envDir spec.name :=
    congrArg f.provisioner.envDir hs
  by_cases hwait : s.stage = .waiting
  · simp only [Provisioning.step, hwait] at h
    split at h
    · cases h
      exact .of_sameFiles (.refl w)
    · cases h
  by_cases hclear : s.stage = .clearing
  · simp only [Provisioning.step, hclear] at h
    obtain ⟨rfl, rfl⟩ := Provisioning.moved_eq h
    have hr := Provisioning.clear_rehosted f.provisioner w s
    have hhost := hr.host
    rw [hdir] at hhost
    split at hhost
    · exact .of_alters (hhost ▸ alters_without ..) hr.adrift
    · exact .of_sameFiles ⟨hhost, hr.adrift⟩
  by_cases hdiscard : ∃ cause, s.stage = .discarding cause
  · obtain ⟨cause, hcause⟩ := hdiscard
    simp only [Provisioning.step, hcause] at h
    obtain ⟨rfl, rfl⟩ := Provisioning.moved_eq h
    obtain ⟨hhost, -, -, hadrift⟩ := Provisioning.discard_host f.provisioner w s cause
    rw [hdir] at hhost
    exact .of_alters (hhost ▸ alters_without ..) hadrift
  · have hother (cause : ProvisionError) : s.stage ≠ .discarding cause := fun hc =>
      hdiscard ⟨cause, hc⟩
    obtain ⟨-, -, hadrift, htouches⟩ := Provisioning.step_touches h hwait hclear hother
    rcases alters_of_touches hs htouches with hhost | ha
    · exact .of_sameFiles ⟨hhost, hadrift⟩
    · exact .of_alters ha hadrift

/-- A provisioning waits for calls for its own context. -/
theorem isFor_of_call? {q : Provisioner} {s : Provisioning} {h : Host} {call : FileCall}
    (hcall : s.call? q h = some call) : call.IsFor q s.name := by
  unfold Provisioning.call? at hcall
  split at hcall
  · split at hcall
    · cases hcall
      exact .remove
    · cases hcall
  · cases hcall
    exact .makeDirs (by simp)
  · cases hcall
    exact .makeDirs (by simp)
  · cases hcall
    exact .write _
  · cases hcall
    exact .remove
  all_goals cases hcall

theorem abandon_leads {s : Provisioning} (hs : s.name = spec.name) (w : World) :
    Leads f spec w (s.abandon f.provisioner w) := by
  by_cases ho : s.isOver
  · have hsame : s.abandon f.provisioner w = w := by
      rcases ho with ho | ⟨cause, ho⟩ <;> simp only [Provisioning.abandon, ho]
    rw [hsame]
    exact .of_sameFiles (.refl w)
  · have hdir : s.dir f.provisioner = f.provisioner.envDir spec.name :=
      congrArg f.provisioner.envDir hs
    obtain ⟨hhost, -, hadrift⟩ := Provisioning.abandon_host f.provisioner w s ho
    refine ⟨?_, fun call hcall => ?_⟩
    · rw [hhost, hdir]
      split
      · exact .inl rfl
      · exact .inr (alters_without ..)
    · rw [hadrift, List.mem_append, Option.mem_toList] at hcall
      exact hcall.imp_right fun h => hs ▸ isFor_of_call? h

theorem stepProvisioning_leads {s : Provisioning} (hs : s.name = t.spec.name)
    (h : t.stepProvisioning f w s = .moved t' w') : Leads f t.spec w w' := by
  unfold stepProvisioning at h
  dsimp only at h
  split at h
  next =>
    cases h
    have hr := t.provisionFailed_rehosted (s.abandon f.provisioner w)
      "run cancelled during provisioning"
    have hl := @abandon_leads f t.spec s hs w
    exact ⟨by rw [hr.host]; exact hl.host, by rw [hr.adrift]; exact hl.adrift⟩
  next =>
    split at h
    next =>
      cases h
      have hr := (t.advance_rehosted (w.emit (.provisioned t.spec.name
        (s.context f.provisioner).metadata.digest)) .running).sameFiles
      exact .of_sameFiles ⟨hr.host, hr.adrift⟩
    next cause _ =>
      cases h
      exact .of_sameFiles (t.provisionFailed_rehosted w cause.message).sameFiles
    next =>
      split at h
      next s' w₁ hstep =>
        cases h
        exact building_leads hs hstep
      next => cases h

/-! ### Commands -/

/-- What has been said and cancelled since the program was started leaves the files alone. -/
theorem settle_leads {v : World} (hv : w.SameFiles v)
    (hc : c.dir = f.provisioner.envDir t.spec.name) (external : Bool) (i : Invocation)
    (cutAt : Option Nat) (command : Command) (argv : List String) (path : Path) :
    Leads f t.spec w
      (t.settle v c p command argv path ((executableFor f external).run w.host i cutAt)).2 := by
  generalize hr : (executableFor f external).run w.host i cutAt = reply
  have htree : ((v.withTree reply.tree).noteAll reply.notes).host =
      { w.host with tree := reply.tree } := by simp [hv.host]
  have hadrift : ((v.withTree reply.tree).noteAll reply.notes).adrift = w.adrift := by
    simp [hv.adrift]
  have hprogram : Alters f t.spec w.host { w.host with tree := reply.tree } :=
    hr ▸ .program external i cutAt
  unfold settle
  dsimp only
  split
  next => exact .of_alters (htree ▸ hprogram) hadrift
  next => exact .of_alters (htree ▸ hprogram) hadrift
  next =>
    obtain ⟨hdrop, -, hdropped⟩ := c.drop_host ((v.withTree reply.tree).noteAll reply.notes)
    refine .of_alters ?_ (hdropped.trans hadrift)
    rw [hdrop, htree, hc]
    split
    · exact hprogram
    · exact hr ▸ .abort external i cutAt

theorem proceed_leads (w : World) (hc : c.dir = f.provisioner.envDir t.spec.name) :
    Leads f t.spec w (t.proceed f w c p).2 := by
  unfold proceed
  split
  next => exact .of_sameFiles (advance_rehosted ..).sameFiles
  next command _ =>
    split
    · exact .of_sameFiles (.refl w)
    · split
      · exact .of_sameFiles ⟨rfl, rfl⟩
      · unfold runCommand
        split
        · exact .of_sameFiles ⟨rfl, rfl⟩
        · split
          · exact .of_sameFiles ⟨rfl, rfl⟩
          · unfold launch
            dsimp only
            split
            · refine settle_leads ?_ hc ..
              exact ⟨rfl, rfl⟩
            · exact .of_sameFiles ⟨rfl, rfl⟩
            · exact .of_sameFiles ⟨rfl, rfl⟩

theorem attend_leads {r : Running} (hc : c.dir = f.provisioner.envDir t.spec.name)
    (h : t.attend f w c p r = .moved t' w') : Leads f t.spec w w' := by
  unfold attend at h
  dsimp only at h
  split at h
  · cases h
    exact settle_leads (.refl w) hc ..
  · split at h
    · split at h
      · cases h
        exact settle_leads (.refl w) hc ..
      · cases h
    · cases h

theorem close_leads (w : World) (hc : c.dir = f.provisioner.envDir t.spec.name) :
    Leads f t.spec w (t.close w c p).2 := by
  have hclose : (c.teardown w).1.SameFiles (t.close w c p).2 := by
    unfold close
    split <;> next heq => rw [heq]; exact ⟨rfl, rfl⟩
  obtain ⟨hhost, -, hadrift⟩ := c.teardown_host w
  rw [hc] at hhost
  exact .of_without (hclose.host.trans hhost) (hclose.adrift.trans hadrift)

/-! ### Steps -/

/-- Only for commands a context is built, used and closed. -/
def HasWork (t : Task) : Prop :=
  match t.phase with
  | .fresh | .finished _ | .aborted => True
  | .provisioning _ | .commands .. | .awaiting .. | .closing .. => t.spec.commands ≠ []

theorem Act.hasWork {installs : List Install} {es : List Event} (h : Act f t installs t' es)
    (ht : t.HasWork) : t'.HasWork := by
  unfold HasWork at ht ⊢
  cases h with
  | skip | pass | fail | abort | close => trivial
  | provision s _ hn => exact hn
  | build hp | enter hp | waive hp | halt hp | outcome hp | launch _ hp | collect hp | leave hp =>
    rw [hp] at ht
    exact ht

theorem Course.hasWork {xs : List Scene} (h : Course spec xs t) : t.HasWork := by
  induction h with
  | start x => trivial
  | step x _ hs ih =>
    obtain ⟨es, hact, -⟩ := step_acts hs
    exact hact.hasWork ih

/-- A step on behalf of an environment leaves the files alone, or alters them for the sake of its
commands. -/
def Treats (f : Facilities) (spec : EnvSpec) (w w' : World) : Prop :=
  w.SameFiles w' ∨ spec.commands ≠ [] ∧ Leads f spec w w'

theorem Leads.treats (hl : Leads f spec w w') (hn : spec.commands ≠ []) : Treats f spec w w' :=
  .inr ⟨hn, hl⟩

theorem Treats.congr {v v' : World} (hw : w.SameFiles v) (h : Treats f spec v v')
    (hw' : v'.SameFiles w') : Treats f spec w w' :=
  h.imp (fun h => (hw.trans h).trans hw') fun ⟨hn, h⟩ => ⟨hn, h.congr hw hw'⟩

theorem step_treats (hhome : t.IsHome f.provisioner) (hwork : t.HasWork)
    (h : t.step f w = .moved t' w') : Treats f t.spec w w' := by
  obtain ⟨w₁, h₁, rfl⟩ := step_of_stepIn h
  have hbefore : w.SameFiles { w.tick with span := some t.spec.name } := ⟨rfl, rfl⟩
  have hafter : w₁.SameFiles { w₁ with span := none } := ⟨rfl, rfl⟩
  refine .congr hbefore ?_ hafter
  unfold stepIn at h₁
  unfold IsHome at hhome
  unfold HasWork at hwork
  dsimp only at h₁
  split at h₁
  next =>
    cases h₁
    exact .inl (begin_sameFiles ..)
  next s hp =>
    rw [hp] at hhome hwork
    exact (stepProvisioning_leads hhome h₁).treats hwork
  next c p hp =>
    rw [hp] at hhome hwork
    cases h₁
    exact (proceed_leads _ hhome.2).treats hwork
  next c p r hp =>
    rw [hp] at hhome hwork
    exact (attend_leads hhome.2 h₁).treats hwork
  next c p hp =>
    rw [hp] at hhome hwork
    cases h₁
    exact (close_leads _ hhome.2).treats hwork
  all_goals cases h₁

theorem drop_treats (hhome : t.IsHome f.provisioner) (hwork : t.HasWork) (w : World) :
    Treats f t.spec w (t.drop f w) := by
  have hdrop (c : Context) (hc : c.dir = f.provisioner.envDir t.spec.name) (w : World) :
      Leads f t.spec w (c.drop w) := by
    obtain ⟨hhost, -, hadrift⟩ := c.drop_host w
    rw [hc] at hhost
    exact .of_without hhost hadrift
  unfold IsHome at hhome
  unfold HasWork at hwork
  unfold drop
  split
  next s hp =>
    rw [hp] at hhome hwork
    split
    · exact (hdrop _ (congrArg f.provisioner.envDir hhome) w).treats hwork
    · exact (abandon_leads hhome w).treats hwork
  next c p hp =>
    rw [hp] at hhome hwork
    exact (hdrop c hhome.2 w).treats hwork
  next c p r hp =>
    rw [hp] at hhome hwork
    exact (hdrop c hhome.2 w).treats hwork
  next c p hp =>
    rw [hp] at hhome hwork
    -- the removal that the teardown was waiting for goes on
    have hl := hdrop c hhome.2 (w.abandon c.call?)
    refine .inr ⟨hwork, hl.host, fun call hcall => ?_⟩
    rcases hl.adrift call hcall with hmem | hfor
    · rw [World.abandon, List.mem_append, Option.mem_toList] at hmem
      refine hmem.imp_right fun hcall => ?_
      unfold Context.call? at hcall
      split at hcall
      · cases hcall
      · cases hcall
        rw [hhome.2]
        exact .remove
    · exact .inr hfor
  all_goals exact .inl (.refl w)

end Task

/-! ### Moves -/

/-- The job that a move brings on, or kills, and with which facilities. -/
def Move.job? : Move → Option (Facilities × Nat)
  | .turn f i | .race f i | .kill f i => some (f, i)
  | .wait _ | .cancel | .meddle _ | .land _ => none

/-- A call for the context of an environment that is chosen and has commands. -/
def Host.FileCall.Serves (p : Provisioner) (specs : List EnvSpec) (call : FileCall) : Prop :=
  ∃ spec ∈ specs, spec.commands ≠ [] ∧ call.IsFor p spec.name

namespace Crew

variable {f : Facilities} {c : Crew} {w w' : World} {i : Nat}

/-- What a move makes of the files. Only the task of the job that moves alters them for its
environment, or a call that was left adrift takes effect: one of those `given` before the run, or one
that an environment left. -/
inductive Handles (p : Provisioner) (specs : List EnvSpec) (given : List FileCall) (c : Crew)
    (m : Move) (w w' : World) : Prop
  | same (hh : w'.host = w.host)
  | meddle (hm : m = .meddle w'.host)
  | alter {f : Facilities} {i : Nat} {t : Task} (hm : m.job? = some (f, i)) (ht : c.task? i = some t)
      (hf : f.provisioner = p) (hs : t.spec ∈ specs) (hn : t.spec.commands ≠ [])
      (ha : Task.Alters f t.spec w.host w'.host)
  | land {k : Nat} {call : FileCall} (hm : m = .land k)
      (hcall : call ∈ given ∨ call.Serves p specs) (hh : w'.host = w.host.after call)

/-- A call that is adrift was there before the run, or is for one of its environments. -/
def Owned (p : Provisioner) (specs : List EnvSpec) (given : List FileCall) (w : World) : Prop :=
  ∀ call ∈ w.adrift, call ∈ given ∨ call.Serves p specs

/-- The tasks of a crew, each for one of the environments. -/
def Settled (p : Provisioner) (specs : List EnvSpec) (c : Crew) : Prop :=
  ∀ i t, c.task? i = some t → t.phase = .aborted ∨ t.IsHome p ∧ t.HasWork ∧ t.spec ∈ specs

variable {p : Provisioner} {specs : List EnvSpec} {given : List FileCall}

/-- What the task of a job does is done for its environment. -/
theorem handles_of_treats {m : Move} {t : Task} (hm : m.job? = some (f, i))
    (ht : c.task? i = some t) (hf : f.provisioner = p) (hs : t.spec ∈ specs)
    (ho : Owned p specs given w) (h : Task.Treats f t.spec w w') :
    Handles p specs given c m w w' ∧ Owned p specs given w' := by
  subst hf
  rcases h with hsame | ⟨hn, hl⟩
  · refine ⟨.same hsame.host, ?_⟩
    rw [Owned, hsame.adrift]
    exact ho
  · refine ⟨?_, fun call hcall => ?_⟩
    · rcases hl.host with hh | ha
      · exact .same hh
      · exact .alter hm ht rfl hs hn ha
    · rcases hl.adrift call hcall with hmem | hfor
      · exact ho call hmem
      · exact .inr ⟨t.spec, hs, hn, hfor⟩

theorem go_handles {m : Move} (hc : c.Settled p specs) (hm : m.job? = some (f, i))
    (hf : f.provisioner = p) {v : World} (hw : w.SameFiles v) (hw' : (c.go f v i).2.SameFiles w')
    (ho : Owned p specs given w) :
    Handles p specs given c m w w' ∧ Owned p specs given w' := by
  rcases go_steps f c v i with heq | ⟨t, t', ht, hstep⟩
  · rw [heq] at hw'
    have hsame := hw.trans hw'
    refine ⟨.same hsame.host, ?_⟩
    rw [Owned, hsame.adrift]
    exact ho
  · have hlive : t.phase ≠ .aborted := fun ha => Task.not_isOver_of_step hstep (.inr ha)
    obtain ⟨hhome, hwork, hspec⟩ := (hc i t ht).resolve_left hlive
    exact handles_of_treats hm ht hf hspec ho
      (.congr hw (Task.step_treats (hf ▸ hhome) hwork hstep) hw')

theorem make_handles (hc : c.Settled p specs) {m : Move} (hm : m.Uses (·.provisioner = p))
    (ho : Owned p specs given w) :
    Handles p specs given c m w (c.make w m).2 ∧ Owned p specs given (c.make w m).2 := by
  cases m with
  | turn f i => exact go_handles hc rfl hm (.refl w) (.refl _) ho
  | race f i =>
    unfold make
    dsimp only
    split
    · exact go_handles hc rfl hm (v := w.unaware) ⟨rfl, rfl⟩ ⟨rfl, rfl⟩ ho
    · exact ⟨.same rfl, ho⟩
  | kill f i =>
    rcases kill_drops f c w i with heq | ⟨t, ht, heq⟩
    · rw [make, heq]
      exact ⟨.same rfl, ho⟩
    · rw [make, heq]
      rcases hc i t ht with ha | ⟨hhome, hwork, hspec⟩
      · have hsame : t.drop f w = w := by simp only [Task.drop, ha]
        rw [hsame]
        exact ⟨.same rfl, ho⟩
      · have hf : f.provisioner = p := hm
        exact handles_of_treats rfl ht hf hspec ho (Task.drop_treats (hf ▸ hhome) hwork w)
  | meddle host => exact ⟨.meddle rfl, ho⟩
  | land k =>
    unfold make World.land
    dsimp only
    split
    next call hk =>
      exact ⟨.land rfl (ho call (List.mem_of_getElem? hk)) rfl,
        fun other hother => ho other (List.mem_of_mem_eraseIdx hother)⟩
    next => exact ⟨.same rfl, ho⟩
  | wait | cancel => exact ⟨.same rfl, ho⟩

theorem after_settled {permits : Nat}
    (hc : c = .row (.start specs) ∨ c = .pool (.start permits specs)) (w : World)
    {moves : List Move} (hm : ∀ m ∈ moves, m.Uses (·.provisioner = p)) :
    (c.after w moves).1.Settled p specs := by
  intro i t ht
  refine (task_reaches hc ht).imp_right ?_
  rintro ⟨spec, hspec, xs, hxs, hcourse⟩
  have hx : ∀ x ∈ xs, x.facilities.provisioner = p := fun x hx =>
    facilities_of_mem_scenes hm x (hxs.subset hx)
  obtain rfl := hcourse.names.1
  exact ⟨hcourse.isHome hx, hcourse.hasWork, hspec⟩

/-- Whatever the moves, what is adrift is there for one of the environments. -/
theorem after_owned {permits : Nat}
    (hc : c = .row (.start specs) ∨ c = .pool (.start permits specs)) (w : World)
    {moves : List Move} (hm : ∀ m ∈ moves, m.Uses (·.provisioner = p)) :
    Owned p specs w.adrift (c.after w moves).2 := by
  induction moves using List.reverseRecOn with
  | nil => exact fun call hcall => .inl hcall
  | append_singleton moves m ih =>
    obtain ⟨hmoves, hlast⟩ := List.forall_mem_append.1 hm
    rw [after_concat]
    exact (make_handles (after_settled hc w hmoves) (hlast m (List.mem_singleton_self m))
      (ih hmoves)).2

end Crew

/-! ### Places -/

/-- Neither path leads through the other. -/
def Path.Apart (p q : Path) : Prop :=
  ¬ p.components <+: q.components ∧ ¬ q.components <+: p.components

namespace Provisioner

/-- The path of the work directory leads to a place. -/
def LeadsTo (p : Provisioner) (h : Host) (place : Host.Location) : Prop :=
  h.tree.follow true h.cwd (p.workDir.join ".").text = .found place .directory

/-- A name whose context stands right below the work directory, and is removed from there. -/
structure Houses (p : Provisioner) (name : String) : Prop where
  piece : Host.IsPiece name
  plain : Host.Tree.IsPlain name
  child : (p.envDir name).components = p.workDir.components ++ [.name name.toList]
  /-- If anything goes, then what stands at this name, or below it, in the directory that the path of
  the work directory leads to, and nothing else. -/
  removes : ∀ h : Host, h.without (p.envDir name) = h ∨ ∃ place, p.LeadsTo h place ∧
    h.Clears p.workDir name place (h.without (p.envDir name)) ∧
    ∀ loc, ¬ place ++ [name] <+: loc → (h.without (p.envDir name)).tree.get? loc = h.tree.get? loc

/-- The removal of one context leaves all that belongs to another as it is. -/
def Spares (p : Provisioner) (name other : String) : Prop :=
  ∀ (h : Host) (place loc : Host.Location), p.LeadsTo h place → place ++ [other] <+: loc →
    (h.without (p.envDir name)).tree.get? loc = h.tree.get? loc

theorem houses_of_isIdentifier (p : Provisioner) {name : String}
    (h : Config.isIdentifier name = true) : p.Houses name := by
  obtain ⟨hpiece, hplain⟩ := isPiece_of_isIdentifier h
  refine ⟨hpiece, hplain, Host.components_join p.workDir hpiece hplain, fun host => ?_⟩
  refine (Host.without_join host p.workDir hpiece hplain).imp_right ?_
  rintro ⟨place, hplace, hclears⟩
  exact ⟨place, hplace, hclears, fun loc hloc => hclears.get?_eq hloc⟩

variable {p : Provisioner} {a b : String}

theorem Houses.apart (ha : p.Houses a) (hb : p.Houses b) (hne : a ≠ b) :
    (p.envDir a).Apart (p.envDir b) := by
  unfold Path.Apart
  rw [ha.child, hb.child]
  constructor
  all_goals
    rw [List.prefix_append_right_inj, List.cons_prefix_cons, Path.Component.name.injEq,
      String.toList_inj]
  · exact fun h => hne h.1
  · exact fun h => hne h.1.symm

theorem Houses.spares (ha : p.Houses a) (hne : a ≠ b) : p.Spares a b := by
  intro h place loc hplace hloc
  rcases ha.removes h with hsame | ⟨place', hplace', -, hother⟩
  · rw [hsame]
  · obtain rfl : place' = place := (Host.Tree.Walked.found.inj (hplace'.symm.trans hplace)).1
    refine hother loc fun hle => hne ?_
    -- both names would come next in the same place
    have hboth := List.prefix_of_prefix_length_le hle hloc (by simp)
    rw [List.prefix_append_right_inj, List.cons_prefix_cons] at hboth
    exact hboth.1

end Provisioner

namespace Run

theorem begin_sameFiles (c : Config) (s : Selection) (o : RunOptions) (w : World) :
    w.SameFiles (begin c s o w).2 := by
  unfold begin
  dsimp only
  split
  · exact .refl w
  · split
    · exact .refl w
    · exact ⟨rfl, rfl⟩

theorem sayCasualties_host (w : World) (n : Nat) : (sayCasualties w n).host = w.host := by
  induction n generalizing w with
  | zero => rfl
  | succ n ih => exact ih (w.note .warn none "Environment task aborted")

theorem conclude_host (runId : Uuid) (origin : World) (c : Crew) (w : World) :
    (conclude runId origin c w).2.host = w.host := by
  unfold conclude
  split
  · rfl
  · split
    · exact sayCasualties_host w c.casualties
    · rfl

/-- Two environments, the name of one of which begins with that of the other. -/
def neighbourFile : Config.File where
  settings := .empty
  base := ⟨none, none, [], [⟨.line "x", false, []⟩], [], [], none, none, none⟩
  envs := [⟨some "a", none, [], [], [], [], none, none, none⟩,
    ⟨some "a.b", none, [], [], [], [], none, none, none⟩]

def neighbours : Config :=
  ⟨⟨"/"⟩, ⟨⟨"/.envrun"⟩, none, 1, false, InstallCommand.default, [0]⟩,
    [⟨"a", none, [], [⟨["x"], false, []⟩], [], [], none, false, 0⟩,
      ⟨"a.b", none, [], [⟨["x"], false, []⟩], [], [], none, false, 0⟩]⟩

/-- Contexts of both are left from an earlier run. -/
def leftovers : Host :=
  ⟨⟨[([".envrun"], .directory), ([".envrun", "a"], .directory), ([".envrun", "a.b"], .directory)]⟩,
    [], []⟩

def clearing : Facilities := { overlooking with provisioner := Provisioning.rootSite false }

/-- Nothing is overridden. -/
def asDeclared : RunOptions := ⟨none, none, none, []⟩

/-- The run is killed before it has cleared the first one. -/
theorem after_leftovers : ∃ crew w₀,
    begin neighbours .all asDeclared (.start leftovers) = (.going crew, w₀) ∧
      (crew.after w₀ [.turn clearing 0, .turn clearing 0]).2.host = leftovers ∧
      (crew.after w₀ ([.turn clearing 0, .turn clearing 0] ++ [.kill clearing 0])).2.host =
        { leftovers with tree := leftovers.tree.erase [".envrun", "a"] } := by
  have hnames : ∀ name ∈ ["a"], Config.isIdentifier name = true ∧
      name.utf8ByteSize ≤ Host.Tree.maxName := by decide
  have hsits : ∀ name ∈ ["a"], Sits leftovers.tree [".envrun", name] := fun name hn => by
    obtain rfl := List.mem_singleton.1 hn
    exact .inr (by decide)
  have hground := Provisioning.ground_rootSite false hnames (by decide) hsits
  have hgone := hground.without_eq rfl (.inl rfl) (List.mem_singleton_self _) (hsits "a" (by simp))
  refine ⟨_, _, rfl, rfl, ?_⟩
  rw [Crew.after_concat]
  exact (Provisioning.abandon_host clearing.provisioner _ ⟨"a", _, _, .clearing⟩
    (by simp [Provisioning.isOver])).1.trans hgone

end Run

end Testbed
