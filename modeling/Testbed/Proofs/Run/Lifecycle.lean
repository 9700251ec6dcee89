import Mathlib.Logic.Relation
import Testbed.Proofs.Run.Entry

/-! The life of an environment never leaves the edges it may take. An edge that is not allowed would
be taken all the same, and told of as a violation; but no task ever tells of one, whatever is
installed, whatever its programs do and whenever the run is cancelled. Every phase of a task has its
place in life, every step goes on from there along allowed edges, and where the task has a result
its life is over and is what the result and the last event say. -/
namespace Testbed

/-! ### What is told of violations -/

/-- A note of the installer or of a program that was run. -/
inductive Facilities.Says (f : Facilities) (n : Note) : Prop
  | installing (h : Host) (target : InstallTarget) (source : Dependency)
      (hn : n ∈ (f.installer h target source).notes)
  | running (external : Bool) (h : Host) (i : Invocation) (cutAt : Option Nat)
      (hn : n ∈ ((Task.executableFor f external).run h i cutAt).notes)

namespace World

/-- From one world to the other no violation is told of, except by what others said. -/
def Lawful (said : Note → Prop) (w w' : World) : Prop :=
  ∃ lines, w'.journal = w.journal ++ lines ∧ ∀ line ∈ lines, ∀ n, line.remark = .note n →
    n.text = "Lifecycle violation" → said n

variable {said : Note → Prop} {w w₁ w₂ : World}

theorem lawful_of_journal (h : w₁.journal = w.journal) : w.Lawful said w₁ :=
  ⟨[], by rw [h, List.append_nil], nofun⟩

theorem Lawful.refl (w : World) : w.Lawful said w := lawful_of_journal rfl

theorem Lawful.trans (h : w.Lawful said w₁) (h' : w₁.Lawful said w₂) : w.Lawful said w₂ := by
  obtain ⟨lines, hlines, hsaid⟩ := h
  obtain ⟨lines', hlines', hsaid'⟩ := h'
  refine ⟨lines ++ lines', by rw [hlines', hlines, List.append_assoc], ?_⟩
  rw [List.forall_mem_append]
  exact ⟨hsaid, hsaid'⟩

/-- Notes that are not of a violation are lawful, and those of others are if they said them. -/
theorem Notes.lawful {kind : Note → Prop} (h : w.Notes kind w₁)
    (hk : ∀ n, kind n → n.Peaceful ∨ said n) : w.Lawful said w₁ := by
  obtain ⟨lines, hlines, hkind⟩ := h.lines
  refine ⟨lines, hlines, fun line hl n hn hviolation => ?_⟩
  obtain ⟨n', hn', hkn⟩ := hkind line hl
  obtain rfl : n = n' := Remark.note.inj (hn.symm.trans hn')
  exact (hk n hkn).resolve_left (absurd hviolation)

theorem Notes.lawful_of_peaceful (h : w.Notes Note.Peaceful w₁) : w.Lawful said w₁ :=
  h.lawful fun _ => .inl

theorem emit_lawful (w : World) (e : Event) : w.Lawful said (w.emit e) :=
  ⟨[⟨w.span, .event e⟩], rfl, by simp⟩

theorem note_lawful (w : World) (level : Level) (env : Option String) {text : String}
    (h : text ≠ "Lifecycle violation") : w.Lawful said (w.note level env text) :=
  (w.note_peaceful level env h).lawful_of_peaceful

end World

open World (Lawful)

variable {said : Note → Prop}

/-! ### Provisioning -/

namespace Provisioning

theorem accept_lawful (p : Provisioner) (w : World) (s : Provisioning) (source : Dependency)
    (rest : List Dependency) (reply : InstallReply) (hn : ∀ n ∈ reply.notes, said n) :
    w.Lawful said (accept p w s source rest reply).2 :=
  (accept_notes p w s source rest reply).lawful fun n => .imp_right (hn n)

theorem install_lawful (p : Provisioner) (installer : Installer) (w : World) (s : Provisioning)
    (source : Dependency) (rest : List Dependency)
    (hn : ∀ h target source, ∀ n ∈ (installer h target source).notes, said n) :
    w.Lawful said (install p installer w s source rest).2 := by
  have h (now : Bool) : w.Lawful said (((w.note .debug (some s.name) "Installing").recordInstall
      ⟨s.name, source⟩).cancelIf now) :=
    (w.note_lawful _ _ (by decide)).trans (World.lawful_of_journal rfl)
  unfold install
  dsimp only
  split
  · exact (h _).trans (accept_lawful _ _ _ _ _ _ (hn _ _ _))
  · exact h _
  · exact h _

theorem step_lawful {p : Provisioner} {installer : Installer} {w w' : World} {s s' : Provisioning}
    (hn : ∀ h target source, ∀ n ∈ (installer h target source).notes, said n)
    (h : step p installer w s = .moved s' w') : w.Lawful said w' := by
  have hmoved {r : Provisioning × World} (hr : w.Lawful said r.2) (h : moved r = .moved s' w') :
      w.Lawful said w' := by
    rwa [(moved_eq h).2]
  unfold step at h
  split at h
  · dsimp only at h
    split at h
    · cases h
      exact .refl w
    · cases h
  · exact hmoved (clear_notes ..).lawful_of_peaceful h
  · exact hmoved (makeDir_notes ..).lawful_of_peaceful h
  · exact hmoved (makeDir_notes ..).lawful_of_peaceful h
  · cases h
    exact .refl w
  · exact hmoved (install_lawful _ _ _ _ _ _ hn) h
  · split at h
    · exact hmoved (accept_lawful _ _ _ _ _ _ (hn _ _ _)) h
    · cases h
  · cases h
  · exact hmoved (record_notes ..).lawful_of_peaceful h
  · exact hmoved (discard_notes ..).lawful_of_peaceful h
  all_goals cases h

end Provisioning

/-! ### Tasks -/

/-- It tells that an environment has come to its end. -/
def Event.isEnd : Event → Bool
  | .envFinished .. => true
  | _ => false

namespace Task

/-- The result, once there is one. -/
def result? (t : Task) : Option EnvResult :=
  match t.phase with
  | .finished r => some r
  | _ => none

/-- One place in life may follow the other in any number of allowed edges. -/
def LeadsTo : Lifecycle → Lifecycle → Prop :=
  Relation.ReflTransGen fun s s' => s.allows s' = true

/-- Where a task is in life, by its phase. -/
def Lives (t : Task) : Prop :=
  match t.phase with
  | .fresh => t.life = .pending
  | .provisioning _ => t.life = .provisioning
  | .commands .. | .awaiting .. => t.life = .running
  | .closing _ p => t.life = p.status
  | .finished r => t.life.isTerminal = true ∧ r.status = t.life
  | .aborted => True

variable {f : Facilities} {t t' : Task} {w w' : World} {c : Context} {p : Progress}

theorem advance_of_allows (w : World) {next : Lifecycle} (h : t.life.allows next = true) :
    t.advance w next = ({ t with life := next }, w) := by
  simp only [advance, Lifecycle.transition, if_pos h]

/-- An edge that is not allowed does not go by untold. -/
theorem advance_lawful_iff (hsaid : ¬ said ⟨.warn, some t.spec.name, "Lifecycle violation"⟩)
    (w : World) (next : Lifecycle) :
    w.Lawful said (t.advance w next).2 ↔ t.life.allows next = true := by
  constructor
  · intro h
    by_contra hnot
    simp only [advance, Lifecycle.transition, if_neg hnot] at h
    obtain ⟨lines, hlines, hlawful⟩ := h
    obtain rfl := List.append_cancel_left hlines
    exact hsaid (hlawful _ (List.mem_singleton_self _) _ rfl rfl)
  · intro h
    rw [advance_of_allows w h]
    exact .refl w

theorem running_allows_status (p : Progress) : Lifecycle.running.allows p.status = true := by
  rcases p.status_cases with h | h <;> rw [h] <;> rfl

theorem report_lawful (t : Task) (w : World) (r : EnvResult) : w.Lawful said (t.report w r).2 :=
  w.emit_lawful _

/-- All three edges at once. -/
theorem pass_lawful (w : World) (hl : t.life = .pending) : w.Lawful said (t.pass w).2 := by
  have hprovisioning : t.advance w .provisioning = ({ t with life := .provisioning }, w) :=
    advance_of_allows w (by rw [hl]; rfl)
  have hrunning : Task.advance { t with life := .provisioning } w .running =
      ({ t with life := .running }, w) := advance_of_allows w rfl
  have hsucceeded : Task.advance { t with life := .running } w .succeeded =
      ({ t with life := .succeeded }, w) := advance_of_allows w rfl
  simp only [pass, hprovisioning, hrunning, hsucceeded]
  exact (w.note_lawful _ _ (by decide)).trans (report_lawful ..)

theorem begin_lawful (w : World) (hl : t.life = .pending) : w.Lawful said (t.begin w).2 := by
  unfold begin
  split
  · unfold skip
    rw [advance_of_allows w (by rw [hl]; rfl)]
    exact (w.note_lawful _ _ (by decide)).trans (report_lawful ..)
  · split
    · exact pass_lawful w hl
    · unfold provision
      rw [advance_of_allows w (by rw [hl]; rfl)]
      exact (Provisioning.start_notes ..).lawful_of_peaceful

theorem provisionFailed_lawful (w : World) (failure : String) (hl : t.life = .provisioning) :
    w.Lawful said (t.provisionFailed w failure).2 := by
  unfold provisionFailed
  rw [advance_of_allows _ (by rw [hl]; rfl)]
  exact (w.emit_lawful _).trans (report_lawful ..)

theorem provisioned_lawful (w : World) (c : Context) (hl : t.life = .provisioning) :
    w.Lawful said (t.provisioned w c).2 := by
  unfold provisioned
  rw [advance_of_allows _ (by rw [hl]; rfl)]
  exact w.emit_lawful _

theorem record_lawful (t : Task) (w : World) (c : Context) (p : Progress) (o : CommandOutcome) :
    w.Lawful said (t.record w c p o).2 :=
  w.emit_lawful _

theorem refuse_lawful (t : Task) (w : World) (c : Context) (p : Progress) (command : Command)
    (e : CommandError) : w.Lawful said (t.refuse w c p command e).2 :=
  (w.note_lawful _ _ (by decide)).trans (record_lawful ..)

theorem settle_lawful (t : Task) (w : World) (c : Context) (p : Progress) (command : Command)
    (argv : List String) (path : Path) {reply : RunReply} (hn : ∀ n ∈ reply.notes, said n) :
    w.Lawful said (t.settle w c p command argv path reply).2 := by
  have h : w.Lawful said _ := (w.withTree_noteAll_notes reply.tree reply.notes).lawful
    fun n hmem => .inr (hn n hmem)
  unfold settle
  dsimp only
  split
  · exact h.trans (record_lawful ..)
  · exact h.trans (refuse_lawful ..)
  · exact h.trans (Context.drop_notes ..).lawful_of_peaceful

theorem runCommand_lawful (t : Task) (w : World) (c : Context) (p : Progress) (command : Command) :
    w.Lawful f.Says (t.runCommand f w c p command).2 := by
  rw [runCommand_eq]
  split
  next e _ => exact refuse_lawful ..
  next path program args _ =>
    have hsaid (l : Launch) (now : Bool) : w.Lawful f.Says (((w.note .debug (some t.spec.name)
        "Resolved executable").recordLaunch l).cancelIf now) :=
      (w.note_lawful _ _ (by decide)).trans (World.lawful_of_journal rfl)
    unfold launch
    dsimp only
    split
    · exact (hsaid ..).trans (settle_lawful _ _ _ _ _ _ _ fun n hn => .running _ _ _ _ hn)
    · exact hsaid ..
    · exact hsaid ..

theorem proceed_lawful (w : World) (c : Context) (p : Progress) (hl : t.life = .running) :
    w.Lawful f.Says (t.proceed f w c p).2 := by
  unfold proceed
  split
  · rw [advance_of_allows w (by rw [hl]; exact running_allows_status p)]
    exact .refl w
  · split
    · exact .refl w
    · split
      · exact w.note_lawful _ _ (by decide)
      · exact runCommand_lawful ..

theorem attend_lawful {r : Running} (h : t.attend f w c p r = .moved t' w') :
    w.Lawful f.Says w' := by
  have hended (command : Command) (cutAt : Option Nat) : w.Lawful f.Says
      (t.settle w c p command r.argv r.invocation.path
        ((executableFor f r.executable).run w.host r.invocation cutAt)).2 :=
    settle_lawful _ _ _ _ _ _ _ fun n hn => .running _ _ _ _ hn
  unfold attend at h
  dsimp only at h
  split at h
  · cases h
    exact hended _ _
  · split at h
    · split at h
      · cases h
        exact hended _ _
      · cases h
    · cases h

theorem close_lawful (t : Task) (w : World) (c : Context) (p : Progress) :
    w.Lawful said (t.close w c p).2 := by
  have h : w.Lawful said _ := (c.teardown_notes w).lawful_of_peaceful
  unfold close
  split
  next heq =>
    rw [heq] at h
    exact h.trans (report_lawful ..)
  next heq =>
    rw [heq] at h
    exact (h.trans (World.emit_lawful ..)).trans (report_lawful ..)

theorem stepProvisioning_lawful {s : Provisioning} (hl : t.life = .provisioning)
    (h : t.stepProvisioning f w s = .moved t' w') : w.Lawful f.Says w' := by
  unfold stepProvisioning at h
  dsimp only at h
  split at h
  · cases h
    exact (Provisioning.abandon_notes ..).lawful_of_peaceful.trans (provisionFailed_lawful _ _ hl)
  · split at h
    · cases h
      exact provisioned_lawful _ _ hl
    · cases h
      exact provisionFailed_lawful _ _ hl
    · split at h
      next hs =>
        cases h
        exact Provisioning.step_lawful (fun _ _ _ _ hn => .installing _ _ _ hn) hs
      next => cases h

theorem step_lawful (ht : t.Lives) (h : t.step f w = .moved t' w') : w.Lawful f.Says w' := by
  obtain ⟨w₁, h₁, rfl⟩ := step_of_stepIn h
  have hbefore : w.Lawful f.Says { w.tick with span := some t.spec.name } :=
    World.lawful_of_journal rfl
  have hafter : w₁.Lawful f.Says { w₁ with span := none } := World.lawful_of_journal rfl
  refine (hbefore.trans ?_).trans hafter
  unfold Lives at ht
  unfold stepIn at h₁
  dsimp only at h₁
  split at h₁
  next hp =>
    rw [hp] at ht
    cases h₁
    exact begin_lawful _ ht
  next hp =>
    rw [hp] at ht
    exact stepProvisioning_lawful ht h₁
  next c p hp =>
    rw [hp] at ht
    cases h₁
    exact proceed_lawful _ c p ht
  next => exact attend_lawful h₁
  next c p _ =>
    cases h₁
    exact close_lawful t _ c p
  all_goals cases h₁

/-! ### The course of a life -/

/-- A step goes on in life along allowed edges. -/
theorem Act.lives {installs : List Install} {es : List Event} (h : Act f t installs t' es)
    (ht : t.Lives) : t'.Lives ∧ LeadsTo t.life t'.life := by
  unfold Lives at ht ⊢
  cases h with
  | skip hp =>
    rw [hp] at ht
    exact ⟨⟨rfl, rfl⟩, .single (by rw [ht]; rfl)⟩
  | pass ms hp =>
    rw [hp] at ht
    have hrunning : LeadsTo t.life .running := .tail (.single (by rw [ht]; rfl)) (rfl :
      Lifecycle.provisioning.allows .running = true)
    exact ⟨⟨rfl, rfl⟩, hrunning.tail rfl⟩
  | provision s hp =>
    rw [hp] at ht
    exact ⟨rfl, .single (by rw [ht]; rfl)⟩
  | build hp | waive hp | halt hp | outcome hp | launch r hp | collect hp =>
    rw [hp] at ht
    exact ⟨ht, .refl⟩
  | fail failure ms hp =>
    rw [hp] at ht
    exact ⟨⟨rfl, rfl⟩, .single (by rw [ht]; rfl)⟩
  | enter hp =>
    rw [hp] at ht
    exact ⟨rfl, .single (by rw [ht]; rfl)⟩
  | abort => exact ⟨trivial, .refl⟩
  | @leave c p hp =>
    rw [hp] at ht
    exact ⟨rfl, .single (by rw [ht]; exact running_allows_status p)⟩
  | @close c p trouble r hp hr =>
    rw [hp] at ht
    obtain ⟨ms, rfl⟩ := hr
    have hterminal : t.life.isTerminal = true := by
      rcases p.status_cases with h | h <;> rw [ht, h] <;> rfl
    exact ⟨⟨hterminal, rfl⟩, .refl⟩

/-- What is said of an environment that has come to an end in life. -/
def endOf (t : Task) (r : EnvResult) : Event :=
  .envFinished t.spec.name t.life r.passedCount r.failedCount r.skippedCount

/-- What a task tells of its end is told with the result, and of the place in life it has then. -/
theorem Act.ends {installs : List Install} {es : List Event} (h : Act f t installs t' es) :
    es.filter Event.isEnd = t'.result?.toList.map t'.endOf := by
  cases h with
  | skip | pass | fail => rfl
  | provision | build | enter | waive | halt | outcome | launch | collect | abort | leave => rfl
  | close trouble r hp hr =>
    obtain ⟨ms, rfl⟩ := hr
    cases trouble <;> rfl

theorem Course.lives {spec : EnvSpec} {xs : List Scene} (h : Course spec xs t) :
    t.Lives ∧ LeadsTo .pending t.life := by
  induction h with
  | start x => exact ⟨rfl, .refl⟩
  | step x _ hs ih =>
    obtain ⟨es, hact, -⟩ := step_acts hs
    obtain ⟨hlives, hleads⟩ := hact.lives ih.1
    exact ⟨hlives, ih.2.trans hleads⟩

theorem Course.length_add_left_le {spec : EnvSpec} {xs : List Scene} (h : Course spec xs t) :
    xs.length + t.left ≤ Phase.left spec .fresh + 1 := by
  induction h with
  | start x => exact Nat.le_of_eq (Nat.add_comm ..)
  | step x _ hs ih =>
    have hlt := step_left_lt hs
    rw [List.length_append, List.length_singleton]
    omega

theorem Course.exists_not_steady {spec : EnvSpec} {xs : List Scene} (h : Course spec xs t)
    (ha : t.phase = .aborted) : ∃ x ∈ xs, ¬ x.facilities.Steady := by
  cases h with
  | start x => cases ha
  | step x _ hs => exact ⟨x, by simp, fun hf => step_phase_ne_aborted hf hs ha⟩

/-- What the life of an environment keeps to, whose task has come through some scenes and is looked
at in another. -/
structure LivesLawfully (spec : EnvSpec) (xs : List Scene) (t : Task) (x : Scene) : Prop where
  path : LeadsTo .pending t.life
  /-- No step takes an edge that is not allowed, and what it tells of an end is its result. -/
  step : ∀ t' w', t.step x.facilities x.world = .moved t' w' →
    LeadsTo t.life t'.life ∧ x.world.Lawful x.facilities.Says w' ∧
      ∃ es, w'.journal.events = x.world.journal.events ++ es ∧
        es.filter Event.isEnd = t'.result?.toList.map t'.endOf
  result : ∀ r, t.phase = .finished r → t.life.isTerminal = true ∧ r.status = t.life
  /-- There is a result in the end, unless a program kills whoever waits for it. -/
  bounded : xs.length + t.left ≤ Phase.left spec .fresh + 1
  going : ¬ t.isOver → x.world.cancelled = true ∨ ¬ t.Hangs x.world.locks →
    t.moment ≤ x.world.clock → ∃ t' w', t.step x.facilities x.world = .moved t' w'
  alive : t.phase = .aborted → ∃ y ∈ xs, ¬ y.facilities.Steady

/-- Whatever happens around an environment, its life keeps to the edges that are allowed, from its
start to one of the ends, and its result and the event that tells of it have that end. -/
theorem Course.lives_lawfully {spec : EnvSpec} {xs : List Scene} (h : Course spec xs t)
    (x : Scene) : t.LivesLawfully spec xs x where
  path := h.lives.2
  step t' w' hs := by
    obtain ⟨es, hact, hes⟩ := step_acts hs
    exact ⟨(hact.lives h.lives.1).2, step_lawful h.lives.1 hs, es, hes, hact.ends⟩
  result r hr := by
    have hlives := h.lives.1
    rwa [Lives, hr] at hlives
  bounded := h.length_add_left_le
  going ho hh hm := exists_step x.facilities ho hh hm
  alive := h.exists_not_steady

/-- An environment that is cancelled while it is being provisioned. -/
theorem Course.lives_lawfully_interrupted :
    let x : Scene := ⟨failing, World.start default⟩
    let y : Scene := ⟨failing, (World.start default).cancel⟩
    ∃ t, Course twoCommands.spec [x, x, y] t ∧ t.life = .provisionFailed ∧
      t.LivesLawfully twoCommands.spec [x, x, y] y := by
  intro x y
  have hstarted : Course twoCommands.spec [x] (Task.start twoCommands.spec x.world) := .start x
  have hprovisioning : Course twoCommands.spec ([x] ++ [x])
      ((Task.start twoCommands.spec x.world).look x) := hstarted.step x rfl
  have hcancelled : Course twoCommands.spec ([x] ++ [x] ++ [y])
      (((Task.start twoCommands.spec x.world).look x).look y) := hprovisioning.step y rfl
  exact ⟨_, hcancelled, rfl, hcancelled.lives_lawfully y⟩

end Task

end Testbed
