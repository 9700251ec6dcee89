import Testbed.Proofs.Run.Course
import Testbed.Proofs.Run.Frame

/-! When programs are started. A context is built and given up without any; a task starts one only
where a command is next, and then it is that command's, found where the command may come from. So
every program that environments start, under any schedule, is that of a command whose turn it was
in one of their tasks. -/
namespace Testbed

namespace Task

variable {f : Facilities} {t t' : Task} {w w' : World}

/-! ### Starting a program -/

/-- The program of a command, where it is found, and its arguments. -/
def locate (f : Facilities) (h : Host) (c : Context) (command : Command) :
    Except CommandError (Path × String × List String) :=
  match Placeholders.expand c f.posargs command.argv with
  | [] => .error .empty
  | program :: args =>
    ((executableFor f command.external).resolve h c program).map (fun path => (path, program, args))

/-- Finding the program decides whether it is started. -/
theorem runCommand_eq (f : Facilities) (t : Task) (w : World) (c : Context) (p : Progress)
    (command : Command) : t.runCommand f w c p command =
      match locate f w.host c command with
      | .error e => t.refuse w c p command e
      | .ok (path, program, args) => t.launch f w c p command (program :: args) args path := by
  unfold runCommand locate
  cases Placeholders.expand c f.posargs command.argv with
  | nil => rfl
  | cons program args =>
    dsimp only
    cases (executableFor f command.external).resolve w.host c program <;> rfl

/-- A launch is that of the command that is next. -/
structure Starts (f : Facilities) (h : Host) (t : Task) (c : Context) (p : Progress)
    (command : Command) (program : String) (l : Launch) : Prop where
  phase : t.phase = .commands c p
  turn : t.spec.commands[p.index]? = some command
  located : locate f h c command = .ok (l.path, program, l.args)
  launch : l = ⟨command.external, t.spec.name, l.path, l.args, t.spec.timeoutSecs⟩

/-- One program is started and nothing installed. -/
structure Launches (w w' : World) (l : Launch) : Prop where
  installs : w'.installs = w.installs
  launches : w'.launches = w.launches ++ [l]

theorem launch_launches (f : Facilities) (t : Task) (w : World) (c : Context) (p : Progress)
    (command : Command) (argv args : List String) (path : Path) :
    Launches w (t.launch f w c p command argv args path).2
      ⟨command.external, t.spec.name, path, args, t.spec.timeoutSecs⟩ := by
  unfold launch
  dsimp only
  split
  · have h (v : World) := settle_keeps t v c p command argv path
      ((executableFor f command.external).run w.host ⟨path, args, c, t.spec⟩ none)
    exact ⟨(h _).installs, (h _).launches⟩
  · exact ⟨rfl, rfl⟩
  · exact ⟨rfl, rfl⟩

/-- What a step does besides bringing the task on. -/
inductive Effects (f : Facilities) (t : Task) (w w' : World) : Prop
  | keeps (h : w.Keeps w')
  | installs (s : Provisioning) (source : Dependency) (ht : t.phase = .provisioning s)
      (h : Provisioning.Installs w w' ⟨s.name, source⟩)
  /-- Only where the run is not cancelled. -/
  | launches (c : Context) (p : Progress) (command : Command) (program : String) (l : Launch)
      (hs : Starts f w.host t c p command program l) (hc : w.cancelled = false)
      (h : Launches w w' l)

theorem proceed_effects (f : Facilities) (w : World) {c : Context} {p : Progress}
    (ht : t.phase = .commands c p) : Effects f t w (t.proceed f w c p).2 := by
  unfold proceed
  split
  next => exact .keeps (advance_quiet ..).toKeeps
  next command hc =>
    split
    · exact .keeps (.refl w)
    · split
      · exact .keeps (w.note_quiet ..).toKeeps
      next hcancelled =>
        rw [runCommand_eq]
        cases hl : locate f w.host c command with
        | error e => exact .keeps (refuse_keeps ..)
        | ok found =>
          obtain ⟨path, program, args⟩ := found
          exact .launches c p command program _ ⟨ht, hc, hl, rfl⟩ (by simpa using hcancelled)
            (launch_launches ..)

theorem stepIn_effects (h : t.stepIn f w = .moved t' w') : Effects f t w w' := by
  unfold stepIn at h
  dsimp only at h
  split at h
  next =>
    cases h
    exact .keeps (begin_keeps ..)
  next s ht =>
    rcases stepProvisioning_keeps h with hkeeps | ⟨source, hinstalls⟩
    · exact .keeps hkeeps
    · exact .installs s source ht hinstalls
  next c p ht =>
    cases h
    exact proceed_effects f w ht
  next => exact .keeps (attend_keeps h)
  next =>
    cases h
    exact .keeps (close_keeps ..)
  all_goals cases h

theorem step_effects (h : t.step f w = .moved t' w') : Effects f t w.tick w' := by
  unfold step at h
  split at h
  next t₁ w₁ h₁ =>
    have hin := stepIn_effects h₁
    cases h
    cases hin with
    | keeps h => exact .keeps ⟨h.installs, h.launches, h.cancelled⟩
    | installs s source ht h =>
      exact .installs s source ht ⟨h.installs, h.launches, h.cancelled, h.events⟩
    | launches c p command program l hs hc h =>
      exact .launches c p command program l hs hc ⟨h.installs, h.launches⟩
  next => cases h

/-- A step starts nothing, or the program of the command that is next. -/
theorem step_launches (h : t.step f w = .moved t' w') : w'.launches = w.launches ∨
    ∃ c p command program l, Starts f w.host t c p command program l ∧
      w'.launches = w.launches ++ [l] := by
  cases step_effects h with
  | keeps h => exact .inl h.launches
  | installs s source ht h => exact .inl h.launches
  | launches c p command program l hs hc h =>
    exact .inr ⟨c, p, command, program, l, hs, h.launches⟩

/-- A cancellation stands. -/
theorem step_cancelled (h : t.step f w = .moved t' w') (hc : w.cancelled = true) :
    w'.cancelled = true := by
  have htick : w.tick.cancelled = true := by simp [World.tick, hc]
  cases step_effects h with
  | keeps h => exact h.cancelled.trans htick
  | installs s source ht h => exact h.cancelled htick
  | launches c p command program l hs hnot h =>
    rw [hnot] at htick
    cases htick

/-- A launch that the step of a task adds in a scene. -/
def Makes (x : Scene) (t : Task) (l : Launch) : Prop :=
  ∃ t' w', t.step x.facilities x.world = .moved t' w' ∧ w'.launches = x.world.launches ++ [l]

theorem Makes.starts {x : Scene} {l : Launch} (h : t.Makes x l) :
    ∃ c p command program, Starts x.facilities x.world.host t c p command program l := by
  obtain ⟨t', w', hstep, hl⟩ := h
  rcases step_launches hstep with hsame | ⟨c, p, command, program, l', hstarts, hl'⟩
  · simp [hsame] at hl
  · obtain rfl : l' = l := by simpa [hl] using hl'.symm
    exact ⟨c, p, command, program, hstarts⟩

theorem makes_of_step (h : t.step f w = .moved t' w') : w'.launches = w.launches ∨
    ∃ l, t.Makes ⟨f, w⟩ l ∧ w'.launches = w.launches ++ [l] := by
  rcases step_launches h with hsame | ⟨-, -, -, -, l, -, hl⟩
  · exact .inl hsame
  · exact .inr ⟨l, ⟨t', w', h, hl⟩, hl⟩

end Task

/-! ### Environments together -/

/-- A launch is made in one of the scenes by a task that has come there for one of the
environments. -/
def Launch.ComesFrom (xs : List Scene) (specs : List EnvSpec) (l : Launch) : Prop :=
  ∃ x ∈ xs, ∃ spec ∈ specs, ∃ t, Task.Reaches xs spec t ∧ t.Makes x l

theorem Launch.ComesFrom.mono {xs ys : List Scene} {specs : List EnvSpec} {l : Launch}
    (h : l.ComesFrom xs specs) (hs : xs.Sublist ys) : l.ComesFrom ys specs := by
  obtain ⟨x, hx, spec, hspec, t, ht, hmakes⟩ := h
  exact ⟨x, hs.subset hx, spec, hspec, t, ht.mono hs, hmakes⟩

namespace Crew

variable {c : Crew} {w : World} {i : Nat}

theorem go_launches (f : Facilities) (c : Crew) (w : World) (i : Nat) :
    (c.go f w i).2.launches = w.launches ∨
      ∃ t l, c.task? i = some t ∧ t.Makes ⟨f, w⟩ l ∧
        (c.go f w i).2.launches = w.launches ++ [l] := by
  rcases go_steps f c w i with heq | ⟨t, t', ht, hstep⟩
  · exact .inl (congrArg World.launches heq)
  · exact (Task.makes_of_step hstep).imp_right fun ⟨l, hl⟩ => ⟨t, l, ht, hl⟩

theorem kill_launches (f : Facilities) (c : Crew) (w : World) (i : Nat) :
    (c.kill f w i).2.launches = w.launches := by
  rcases kill_drops f c w i with heq | ⟨t, -, heq⟩
  · rw [heq]
  · rw [heq]
    exact (Task.drop_quiet ..).launches

/-- A move starts nothing, or what a task starts that has its turn. -/
theorem make_launches (c : Crew) (w : World) (m : Move) :
    (c.make w m).2.launches = w.launches ∨
      ∃ x i t l, m.scene? w = some x ∧ c.task? i = some t ∧ t.Makes x l ∧
        (c.make w m).2.launches = w.launches ++ [l] := by
  cases m with
  | turn f i =>
    rcases go_launches f c w i with h | ⟨t, l, h⟩
    · exact .inl h
    · exact .inr ⟨⟨f, w⟩, i, t, l, rfl, h⟩
  | race f i =>
    simp only [make]
    split
    · rcases go_launches f c w.unaware i with h | ⟨t, l, h⟩
      · exact .inl h
      · exact .inr ⟨⟨f, w.unaware⟩, i, t, l, rfl, h⟩
    · exact .inl rfl
  | kill f i => exact .inl (kill_launches f c w i)
  | wait | cancel | meddle => exact .inl rfl
  | land k => exact .inl (w.land_sameRecord k).launches

/-- A task that is under way has come there in scenes of the moves, unless it was killed. -/
theorem task_reaches {permits : Nat} {specs : List EnvSpec}
    (hc : c = .row (.start specs) ∨ c = .pool (.start permits specs)) {moves : List Move} {t : Task}
    (ht : (c.after w moves).1.task? i = some t) :
    t.phase = .aborted ∨ ∃ spec ∈ specs, Task.Reaches (c.scenes w moves) spec t := by
  rcases hc with rfl | rfl
  · obtain ⟨r, hr, ha⟩ := row_accounted specs w moves
    rw [hr] at ht
    cases ha with
    | between _ _ hnone => simp [task?, hnone] at ht
    | amid done spec t' hs hcur _ hcourse =>
      obtain rfl : t' = t := by simpa [task?, hcur] using ht
      exact hcourse.imp_right fun h => ⟨spec, by simp [hs], _, course_sublist .., h⟩
  · obtain ⟨p, hp, ha⟩ := pool_accounted permits specs w moves
    rw [hp] at ht
    have hj := task?_pool.1 ht
    have hi : i < specs.length := ha.width ▸ (List.getElem?_eq_some_iff.1 hj).1
    have hspec := List.getElem?_eq_getElem hi
    exact .inr ⟨specs[i], List.getElem_mem hi, _, course_sublist .., (ha.jobs i _ _ hspec hj).2⟩

/-- All that environments start is started by their tasks. -/
theorem mem_launches {permits : Nat} {specs : List EnvSpec}
    (hc : c = .row (.start specs) ∨ c = .pool (.start permits specs)) (w : World)
    (moves : List Move) : ∀ l ∈ (c.after w moves).2.launches,
      l ∈ w.launches ∨ l.ComesFrom (c.scenes w moves) specs := by
  induction moves using List.reverseRecOn with
  | nil => exact fun l hl => .inl hl
  | append_singleton moves m ih =>
    intro l hl
    rw [after_concat] at hl
    rw [scenes_concat]
    have hsub := List.sublist_append_left (c.scenes w moves)
      (m.scene? (c.after w moves).2).toList
    have hold (hl : l ∈ (c.after w moves).2.launches) := (ih l hl).imp_right (·.mono hsub)
    rcases make_launches (c.after w moves).1 (c.after w moves).2 m with
      heq | ⟨x, i, t, new, hx, ht, hmakes, heq⟩
    · exact hold (heq ▸ hl)
    · rw [heq, List.mem_append, List.mem_singleton] at hl
      rcases hl with hl | rfl
      · exact hold hl
      · obtain ⟨c', p, command, program, hstarts⟩ := hmakes.starts
        have hlive : t.phase ≠ .aborted := by simp [hstarts.phase]
        obtain ⟨spec, hspec, hreach⟩ := (task_reaches hc ht).resolve_left hlive
        exact .inr ⟨x, by simp [hx], spec, hspec, t, hreach.mono hsub, hmakes⟩

end Crew

end Testbed
