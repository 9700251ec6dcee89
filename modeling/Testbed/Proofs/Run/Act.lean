import Testbed.Proofs.Run.Cutoff

/-! All that a task does in one step: where it gets, with the result or the outcome that comes about,
and the events that it tells of on the way. Each of the edges between phases is one way to act. -/
namespace Testbed

/-- The outcome of a command that had its turn: it did not start, or its program was run. -/
inductive CommandOutcome.Stems (f : Facilities) (index : Nat) : CommandOutcome → Prop
  | refused (display message : String) : Stems f index (.errored index display message)
  | ran (external : Bool) (h : Host) (i : Invocation) (cutAt : Option Nat) (e : ExitOutcome)
      (display : String)
      (he : ((Task.executableFor f external).run h i cutAt).ending = .exited e) :
      Stems f index (e.toOutcome index display)

namespace Task

/-- An environment that is through without a context. -/
def through (spec : EnvSpec) (ms : Nat) : EnvResult := ⟨spec.name, .succeeded, [], none, ms⟩

/-- An environment that got no context. -/
def unbuilt (spec : EnvSpec) (failure : String) (ms : Nat) : EnvResult :=
  ⟨spec.name, .provisionFailed, skipped spec, some failure, ms⟩

/-- A task after one step, with what has been installed so far and with the events that it told
of. -/
inductive Act (f : Facilities) (t : Task) (installs : List Install) : Task → List Event → Prop
  | skip (ht : t.phase = .fresh) :
      Act f t installs
        { t with life := .skipped, phase := .finished (.unstarted t.spec.name) }
        [.ofResult (.unstarted t.spec.name)]
  | pass (ms : Nat) (ht : t.phase = .fresh) (hn : t.spec.commands = []) :
      Act f t installs { t with life := .succeeded, phase := .finished (through t.spec ms) }
        [.ofResult (through t.spec ms)]
  | provision (s : Provisioning) (ht : t.phase = .fresh) (hn : t.spec.commands ≠ [])
      (hs : s.name = t.spec.name)
      (hm : ∃ date, s.metadata = .ofDeclared t.spec.name t.spec.deps date)
      (hstage : s.stage = .waiting ∨ s.stage = .clearing) :
      Act f t installs { t with life := .provisioning, phase := .provisioning s } []
  /-- A source that is next is handed to the installer. -/
  | build {s s' : Provisioning} (ht : t.phase = .provisioning s) (hs : s.Follows s')
      (hi : ∀ source rest, s.stage = .installing (source :: rest) → ⟨s.name, source⟩ ∈ installs) :
      Act f t installs { t with phase := .provisioning s' } []
  | fail {s : Provisioning} (failure : String) (ms : Nat) (ht : t.phase = .provisioning s) :
      Act f t installs
        { t with life := .provisionFailed, phase := .finished (unbuilt t.spec failure ms) }
        [.provisionFailed t.spec.name failure, .ofResult (unbuilt t.spec failure ms)]
  | enter {s : Provisioning} (ht : t.phase = .provisioning s) (hs : s.stage = .ready) :
      Act f t installs
        { t with life := .running, phase := .commands (s.context f.provisioner) .start }
        [.provisioned t.spec.name s.metadata.digest]
  /-- Once the environment has stopped. -/
  | waive {c : Context} {p : Progress} {command : Command} (ht : t.phase = .commands c p)
      (hc : t.spec.commands[p.index]? = some command) (hs : p.stopped = true) :
      Act f t installs { t with phase := .commands c (p.skip command) } []
  | halt {c : Context} {p : Progress} {command : Command} (ht : t.phase = .commands c p)
      (hc : t.spec.commands[p.index]? = some command) (hs : p.stopped = false) :
      Act f t installs { t with phase := .commands c (p.halt.skip command) } []
  | outcome {c : Context} {p : Progress} {o : CommandOutcome} (ht : t.phase = .commands c p)
      (hi : p.index < t.spec.commands.length) (hs : p.stopped = false) (ho : o.Stems f p.index) :
      Act f t installs { t with phase := .commands c (p.record t.spec.continueOnError o) }
        [.ofOutcome t.spec.name o]
  | launch {c : Context} {p : Progress} (r : Running) (ht : t.phase = .commands c p)
      (hi : p.index < t.spec.commands.length) (hs : p.stopped = false) :
      Act f t installs { t with phase := .awaiting c p r } []
  | collect {c : Context} {p : Progress} {r : Running} {o : CommandOutcome}
      (ht : t.phase = .awaiting c p r) (ho : o.Stems f p.index) :
      Act f t installs { t with phase := .commands c (p.record t.spec.continueOnError o) }
        [.ofOutcome t.spec.name o]
  | abort : Act f t installs { t with phase := .aborted } []
  | leave {c : Context} {p : Progress} (ht : t.phase = .commands c p)
      (hi : t.spec.commands.length ≤ p.index) :
      Act f t installs { t with life := p.status, phase := .closing c p } []
  /-- The context may not go without trouble. -/
  | close {c : Context} {p : Progress} (trouble : Option String) (r : EnvResult)
      (ht : t.phase = .closing c p) (hr : ∃ ms, r = ⟨t.spec.name, t.life, p.outcomes, p.failure, ms⟩) :
      Act f t installs { t with phase := .finished r }
        (trouble.toList.map (.teardownError t.spec.name) ++ [.ofResult r])

/-- The task acts on its way to where it is then. -/
def Acts (f : Facilities) (t : Task) (w : World) (r : Task × World) : Prop :=
  ∃ es, Act f t r.2.installs r.1 es ∧ r.2.journal.events = w.journal.events ++ es

variable {f : Facilities} {t t' : Task} {w w' : World} {c : Context} {p : Progress}

theorem Acts.trans {w₁ : World} {r : Task × World} (h : Acts f t w₁ r)
    (hw : w₁.journal.events = w.journal.events) : Acts f t w r := by
  obtain ⟨es, hact, hes⟩ := h
  exact ⟨es, hact, by rw [hes, hw]⟩

/-! ### What each function does -/

theorem begin_acts (w : World) (ht : t.phase = .fresh) : Acts f t w (t.begin w) := by
  have hadvance (t : Task) (w : World) (next : Lifecycle) := (t.advance_quiet w next).events
  unfold begin
  split
  · refine ⟨[.ofResult (.unstarted t.spec.name)], ?_, ?_⟩
    · simp only [skip, report, advance_fst]
      exact .skip ht
    · simp [skip, report, advance_fst, hadvance]
  · split
    next hn =>
      have hidle : t.spec.commands = [] := by simpa [EnvSpec.isNoop] using hn
      simp only [pass, finish, report, advance_fst]
      exact ⟨_, .pass _ ht hidle, by simp [hadvance, through]⟩
    next hn =>
      refine ⟨[], ?_, ?_⟩
      · simp only [provision, advance_fst, Provisioning.start]
        have hbusy : t.spec.commands ≠ [] := by simpa [EnvSpec.isNoop] using hn
        split
        · exact .provision _ ht hbusy rfl ⟨_, rfl⟩ (.inr rfl)
        · exact .provision _ ht hbusy rfl ⟨_, rfl⟩ (.inl rfl)
      · rw [List.append_nil]
        exact (Provisioning.start_notes ..).quiet.events.trans (hadvance ..)

theorem provisionFailed_acts (w : World) (failure : String) {s : Provisioning}
    (ht : t.phase = .provisioning s) : Acts f t w (t.provisionFailed w failure) := by
  simp only [provisionFailed, finish, report, advance_fst]
  exact ⟨_, .fail failure _ ht, by simp [(advance_quiet ..).events, unbuilt]⟩

theorem provisioned_acts (w : World) {s : Provisioning} (ht : t.phase = .provisioning s)
    (hs : s.stage = .ready) : Acts f t w (t.provisioned w (s.context f.provisioner)) := by
  simp only [provisioned, advance_fst]
  exact ⟨_, .enter ht hs, by simp [(advance_quiet ..).events, Provisioning.context]⟩

/-- A program that was run has its outcome recorded, or whoever waited for it is dead. -/
theorem settle_acts (w : World) (command : Command) (argv : List String) (path : Path)
    (external : Bool) (h : Host) (i : Invocation) (cutAt : Option Nat)
    (ho : ∀ installs, ∀ o : CommandOutcome, o.Stems f p.index → Act f t installs
      { t with phase := .commands c (p.record t.spec.continueOnError o) }
      [.ofOutcome t.spec.name o]) :
    Acts f t w
      (t.settle w c p command argv path ((executableFor f external).run h i cutAt)) := by
  have hquiet := (w.withTree_noteAll_notes ((executableFor f external).run h i cutAt).tree
    ((executableFor f external).run h i cutAt).notes).quiet
  unfold settle
  dsimp only
  split
  next e he =>
    exact ⟨_, ho _ _ (.ran external h i cutAt e _ he), by simp [record, hquiet.events]⟩
  next reason _ =>
    exact ⟨_, ho _ _ (.refused command.display _), by simp [refuse, record, hquiet.events]⟩
  next =>
    exact ⟨[], .abort, by simpa using (hquiet.trans (Context.drop_notes ..).quiet).events⟩

theorem runCommand_acts (w : World) (command : Command) (ht : t.phase = .commands c p)
    (hi : p.index < t.spec.commands.length) (hs : p.stopped = false) :
    Acts f t w (t.runCommand f w c p command) := by
  have hrefuse (e : CommandError) : Acts f t w (t.refuse w c p command e) :=
    ⟨_, .outcome ht hi hs (.refused command.display e.message), by simp [refuse, record]⟩
  rw [runCommand_eq]
  split
  next e _ => exact hrefuse e
  next path program args _ =>
    have hsaid (l : Launch) (now : Bool) : (((w.note .debug (some t.spec.name)
        "Resolved executable").recordLaunch l).cancelIf now).journal.events = w.journal.events :=
      w.note_events ..
    unfold launch
    dsimp only
    split
    · exact (settle_acts _ command _ path command.external w.host _ none
        fun installs o ho => .outcome ht hi hs ho).trans (hsaid ..)
    · exact ⟨[], .launch _ ht hi hs, by simpa using hsaid ..⟩
    · exact ⟨[], .launch _ ht hi hs, by simpa using hsaid ..⟩

theorem proceed_acts (w : World) (ht : t.phase = .commands c p) :
    Acts f t w (t.proceed f w c p) := by
  unfold proceed
  split
  next hn =>
    refine ⟨[], ?_, by simpa using (advance_quiet ..).events⟩
    simp only [advance_fst]
    exact .leave ht (List.getElem?_eq_none_iff.1 hn)
  next command hc =>
    split
    next hs => exact ⟨[], .waive ht hc hs, by simp⟩
    next hs =>
      have hs : p.stopped = false := by simpa using hs
      split
      · exact ⟨[], .halt ht hc hs, by simp⟩
      · exact runCommand_acts w command ht (List.getElem?_eq_some_iff.1 hc).1 hs

theorem attend_acts {r : Running} (ht : t.phase = .awaiting c p r)
    (h : t.attend f w c p r = .moved t' w') : Acts f t w (t', w') := by
  have hended (command : Command) (cutAt : Option Nat) :
      Acts f t w (t.settle w c p command r.argv r.invocation.path
        ((executableFor f r.executable).run w.host r.invocation cutAt)) :=
    settle_acts w command _ _ r.executable w.host r.invocation cutAt
      fun installs o ho => .collect ht ho
  unfold attend at h
  dsimp only at h
  split at h
  · cases h
    exact hended _ _
  · split at h
    · split at h
      · cases h
        exact hended _ _
      · cases h
    · cases h

theorem close_acts (w : World) (ht : t.phase = .closing c p) : Acts f t w (t.close w c p) := by
  have hquiet := (c.teardown_notes w).quiet
  unfold close
  split
  next w' heq =>
    rw [heq] at hquiet
    exact ⟨_, .close none _ ht ⟨_, rfl⟩, by simp [finish, report, hquiet.events]⟩
  next w' e heq =>
    rw [heq] at hquiet
    exact ⟨_, .close (some e.message) _ ht ⟨_, rfl⟩, by simp [finish, report, hquiet.events]⟩

theorem stepProvisioning_acts {s : Provisioning} (ht : t.phase = .provisioning s)
    (h : t.stepProvisioning f w s = .moved t' w') : Acts f t w (t', w') := by
  unfold stepProvisioning at h
  dsimp only at h
  split at h
  · cases h
    exact (provisionFailed_acts (s.abandon f.provisioner w) _ ht).trans
      (Provisioning.abandon_notes ..).quiet.events
  · split at h
    next hs =>
      cases h
      exact provisioned_acts w ht hs
    · cases h
      exact provisionFailed_acts w _ ht
    · split at h
      next s' w'' hstep =>
        cases h
        have hfollows := Provisioning.step_follows hstep
        cases Provisioning.step_acts hstep with
        | quiet hs hq =>
          exact ⟨[], .build ht hfollows fun source rest h => absurd h (hs source rest),
            by simpa using hq.events⟩
        | installs hs hi =>
          refine ⟨[], .build ht hfollows fun source rest h => ?_, by simpa using hi.events⟩
          rw [hs] at h
          cases h
          simp [hi.installs]
      next => cases h

/-! ### A step -/

theorem stepIn_acts (h : t.stepIn f w = .moved t' w') : Acts f t w (t', w') := by
  unfold stepIn at h
  dsimp only at h
  split at h
  next ht =>
    cases h
    exact begin_acts w ht
  next ht => exact stepProvisioning_acts ht h
  next ht =>
    cases h
    exact proceed_acts w ht
  next ht => exact attend_acts ht h
  next ht =>
    cases h
    exact close_acts w ht
  all_goals cases h

theorem step_acts (h : t.step f w = .moved t' w') : Acts f t w (t', w') := by
  obtain ⟨w₁, h₁, rfl⟩ := step_of_stepIn h
  obtain ⟨es, hact, hes⟩ := stepIn_acts h₁
  exact ⟨es, hact, hes⟩

end Task

end Testbed
