import Testbed.Proofs.Context.Fresh
import Testbed.Proofs.Run.Cancelled
import Testbed.Proofs.Run.WellFormed

/-! The events of a run against its report. Every task tells of its own environment only, and all it
has told of is known at every step; one after the other these accounts follow each other in the
order of the report, and side by side they are what is left of all events when only those about one
environment are looked at, whatever the schedule. -/
namespace Testbed

/-! ### Events about one environment -/

/-- The events about one environment. -/
def Event.about (name : String) (es : List Event) : List Event := es.filter (·.env? == some name)

namespace Event

variable {name other : String} {es : List Event}

theorem about_append (name : String) (es new : List Event) :
    about name (es ++ new) = about name es ++ about name new :=
  List.filter_append ..

theorem about_own (h : ∀ e ∈ es, e.env? = some name) : about name es = es :=
  List.filter_eq_self.2 fun e he => by simp [h e he]

theorem about_other (hne : other ≠ name) (h : ∀ e ∈ es, e.env? = some other) :
    about name es = [] :=
  List.filter_eq_nil_iff.2 fun e he => by simp [h e he, hne]

end Event

/-- A task tells of its own environment. -/
theorem Task.Act.env {f : Facilities} {t t' : Task} {installs : List Install} {es : List Event}
    (h : Act f t installs t' es) : ∀ e ∈ es, e.env? = some t.spec.name := by
  intro e he
  cases h with
  | close trouble r _ hr =>
    obtain ⟨ms, rfl⟩ := hr
    rw [List.mem_append, List.mem_map, List.mem_singleton] at he
    rcases he with ⟨error, -, rfl⟩ | rfl <;> rfl
  | fail =>
    rcases List.mem_pair.1 he with rfl | rfl <;> rfl
  | skip | pass | enter | outcome | collect =>
    obtain rfl := List.mem_singleton.1 he
    rfl
  | provision | build | waive | halt | launch | abort | leave => cases he

/-! ### Accounts of entries -/

/-- The entry and the events that the task of an environment came to. -/
def EnvResult.Tells (good : CommandOutcome → Prop) (spec : EnvSpec) (e : EnvResult)
    (es : List Event) : Prop :=
  ∃ ran, e.Ends good spec ran es

/-- The accounts of environments one after the other. -/
inductive Chronicle (R : EnvSpec → EnvResult → List Event → Prop) :
    List EnvSpec → List EnvResult → List Event → Prop
  | nil : Chronicle R [] [] []
  | cons {spec : EnvSpec} {e : EnvResult} {own : List Event} {specs : List EnvSpec}
      {entries : List EnvResult} {es : List Event} (h : R spec e own)
      (ht : Chronicle R specs entries es) : Chronicle R (spec :: specs) (e :: entries) (own ++ es)

namespace Chronicle

variable {R S : EnvSpec → EnvResult → List Event → Prop} {specs : List EnvSpec}
  {entries : List EnvResult} {es own : List Event} {spec : EnvSpec} {e : EnvResult}

theorem concat (h : Chronicle R specs entries es) (he : R spec e own) :
    Chronicle R (specs ++ [spec]) (entries ++ [e]) (es ++ own) := by
  induction h with
  | nil => simpa using cons he nil
  | cons h _ ih =>
    rw [List.append_assoc]
    exact cons h ih

/-- The environments may be others, with the same accounts. -/
theorem of_map {g : EnvSpec → EnvSpec} (h : Chronicle R (specs.map g) entries es)
    (hg : ∀ spec e es, R (g spec) e es → S spec e es) : Chronicle S specs entries es := by
  induction specs generalizing entries es with
  | nil =>
    cases h
    exact nil
  | cons spec specs ih =>
    cases h with
    | cons h ht => exact cons (hg _ _ _ h) (ih ht)

end Chronicle

/-! ### One after the other -/

variable {good : CommandOutcome → Prop} {specs : List EnvSpec} {w w' : World} {m : Move}
  {es : List Event}

/-- All that was told of the environments of a row: of those that are done, and then of the one
under way. -/
inductive Row.Chronicles (good : CommandOutcome → Prop) (specs : List EnvSpec) (r : Row)
    (es : List Event) : Prop
  | between (done : List EnvSpec) (hs : specs = done ++ r.rest) (hc : r.current = none)
      (hd : Chronicle (EnvResult.Tells good) done r.results es)
  | amid (done : List EnvSpec) (t : Task) (old own : List Event)
      (hs : specs = done ++ t.spec :: r.rest) (hc : r.current = some t)
      (hd : Chronicle (EnvResult.Tells good) done r.results old) (ht : t.Tells good own)
      (he : es = old ++ own)

namespace Row

variable {r r' : Row}

theorem Next.chronicles {f : Facilities} (h : Next f w r r' w') (hf : f.Gives good)
    (hr : Chronicles good specs r es) : ∃ new,
      w'.journal.events = w.journal.events ++ new ∧ Chronicles good specs r' (es ++ new) := by
  cases h with
  | @begin spec rest hc hrest =>
    cases hr with
    | between done hs _ hd =>
      refine ⟨[], (List.append_nil _).symm, .amid done (.start spec w) es [] ?_ rfl hd rfl rfl⟩
      rw [hs, hrest]
      rfl
    | amid _ _ _ _ _ hc' => simp [hc] at hc'
  | work hc hstep =>
    cases hr with
    | between _ _ hc' => simp [hc] at hc'
    | amid done t old own hs hc' hd ht he =>
      obtain rfl := Option.some.inj (hc.symm.trans hc')
      obtain ⟨new, hact, hnew⟩ := Task.step_acts hstep
      refine ⟨new, hnew, .amid done _ old (own ++ new) ?_ rfl hd (hact.tells hf ht) ?_⟩
      · rw [(Task.step_follows hstep).spec, hs]
      · rw [he, List.append_assoc]
  | take hc hfin =>
    cases hr with
    | between _ _ hc' => simp [hc] at hc'
    | amid done t old own hs hc' hd ht he =>
      obtain rfl := Option.some.inj (hc.symm.trans hc')
      rw [Task.Tells, hfin] at ht
      refine ⟨[], (List.append_nil _).symm, .between _ (hs.trans (List.append_cons ..)) rfl ?_⟩
      rw [List.append_nil, he]
      exact hd.concat ht

theorem After.chronicles (h : After w m r r' w') (hm : m.Uses (·.Gives good))
    (hr : Chronicles good specs r es) : ∃ new,
      w'.journal.events = w.journal.events ++ new ∧ Chronicles good specs r' (es ++ new) := by
  cases h with
  | same hw => exact ⟨[], by simp [hw.events], by rwa [List.append_nil]⟩
  | turn hx hn hw =>
    obtain ⟨new, hnew, hr'⟩ := hn.chronicles (hm.facilities hx) hr
    refine ⟨new, ?_, hr'⟩
    rw [hw.events, hnew, (Move.scene?_sameRecord hx).events]
  | @kill f i t _ _ hc _ hw =>
    refine ⟨[], by simp [hw.events], ?_⟩
    rw [List.append_nil]
    cases hr with
    | between _ _ hc' => simp [hc] at hc'
    | amid done t' old own hs hc' hd _ he =>
      obtain rfl : t = t' := Option.some.inj (hc.symm.trans hc')
      exact .amid done { t with phase := .aborted } old own hs rfl hd trivial he

end Row

theorem Crew.row_chronicles (specs : List EnvSpec) (w : World) {moves : List Move}
    (hm : ∀ m ∈ moves, m.Uses (·.Gives good)) :
    ∃ r w' es, (Crew.serial specs).after w moves = (.row r, w') ∧
      w'.journal.events = w.journal.events ++ es ∧ Row.Chronicles good specs r es := by
  induction moves using List.reverseRecOn with
  | nil => exact ⟨_, w, [], rfl, (List.append_nil _).symm, .between [] rfl rfl .nil⟩
  | append_singleton moves m ih =>
    obtain ⟨r, w', es, hafter, hes, hr⟩ := ih fun m' h => hm m' (List.mem_append_left _ h)
    obtain ⟨r', w'', hmake, hmoved⟩ := Crew.make_row r w' m
    obtain ⟨new, hnew, hr'⟩ := hmoved.chronicles (hm m (by simp)) hr
    refine ⟨r', w'', es ++ new, ?_, ?_, hr'⟩
    · rw [Crew.after_concat, hafter, hmake]
    · rw [hnew, hes, List.append_assoc]

/-- When a row is over its entries were told of one after the other. -/
theorem Crew.serial_chronicle (specs : List EnvSpec) (w : World) {moves : List Move}
    (hm : ∀ m ∈ moves, m.Uses (·.Gives good))
    (ho : ((Crew.serial specs).after w moves).1.isOver = true) :
    ∃ es, ((Crew.serial specs).after w moves).2.journal.events = w.journal.events ++ es ∧
      Chronicle (EnvResult.Tells good) specs ((Crew.serial specs).after w moves).1.results es := by
  obtain ⟨r, w', es, hafter, hes, hr⟩ := Crew.row_chronicles specs w hm
  rw [hafter] at ho ⊢
  refine ⟨es, hes, ?_⟩
  have hover : r.current = none ∧ r.rest = [] := by simpa [Crew.isOver, Row.isOver] using ho
  cases hr with
  | between done hs _ hd =>
    rw [hover.2, List.append_nil] at hs
    rwa [hs]
  | amid _ _ _ _ _ hc => simp [hover.1] at hc

/-! ### Side by side -/

namespace Pool

variable {p p' : Pool} {i : Nat} {permits : Nat} {cs : Nat → List Scene}

/-- What was told of the environment of a job. -/
def Tells (good : CommandOutcome → Prop) (p : Pool) (i : Nat) (spec : EnvSpec) (es : List Event) :
    Job → Prop
  | .queued => es = []
  | .active t => t.spec = spec ∧ t.Tells good es
  | .reporting r => r.Tells good spec es
  | .closed => ∃ r, p.slot? i = some r ∧ r.Tells good spec es
  | .dead => True

/-- All that was told is about the environments of a pool, and what is about each of them was told
by its own job. -/
structure Chronicles (good : CommandOutcome → Prop) (specs : List EnvSpec) (p : Pool)
    (es : List Event) : Prop where
  about : ∀ e ∈ es, ∃ spec ∈ specs, e.env? = some spec.name
  jobs : ∀ i spec job, specs[i]? = some spec → p.jobs[i]? = some job →
    Tells good p i spec (Event.about spec.name es) job

theorem start_chronicles (good : CommandOutcome → Prop) (permits : Nat) (specs : List EnvSpec) :
    Chronicles good specs (.start permits specs) [] where
  about := nofun
  jobs i spec job hs hj := by
    simp only [start, List.getElem?_map, hs, Option.map_some, Option.some.injEq] at hj
    subst hj
    rfl

theorem Tells.congr {spec : EnvSpec} {job : Job} (h : Tells good p i spec es job)
    (hs : p'.slot? i = p.slot? i) : Tells good p' i spec es job := by
  cases job with
  | closed => rwa [Tells, hs]
  | _ => exact h

theorem name_ne (hn : (specs.map EnvSpec.name).Nodup) {k : Nat} {spec other : EnvSpec}
    (hi : specs[i]? = some spec) (hk : specs[k]? = some other) (hik : i ≠ k) :
    spec.name ≠ other.name := by
  have hlt : i < (specs.map EnvSpec.name).length := by
    simpa using (List.getElem?_eq_some_iff.1 hi).1
  intro heq
  refine hik ((List.getElem?_inj hlt hn).1 ?_)
  simp [hi, hk, heq]

/-- What one job tells is of no concern to the others. -/
theorem Chronicles.change (h : Chronicles good specs p es) (hn : (specs.map EnvSpec.name).Nodup)
    {spec : EnvSpec} {job job' : Job} {new : List Event} (hs : specs[i]? = some spec)
    (hj : p.jobs[i]? = some job) (hjobs : p'.jobs = p.jobs.set i job')
    (hslots : ∀ k, i ≠ k → p'.slot? k = p.slot? k) (hnew : ∀ e ∈ new, e.env? = some spec.name)
    (ht : Tells good p i spec (Event.about spec.name es) job →
      Tells good p' i spec (Event.about spec.name es ++ new) job') :
    Chronicles good specs p' (es ++ new) where
  about e he := by
    rcases List.mem_append.1 he with he | he
    · exact h.about e he
    · exact ⟨spec, List.mem_of_getElem? hs, hnew e he⟩
  jobs k other job'' hk hj'' := by
    rw [hjobs] at hj''
    rw [Event.about_append]
    by_cases hik : i = k
    · subst hik
      have hi : i < p.jobs.length := (List.getElem?_eq_some_iff.1 hj).1
      obtain rfl : job' = job'' := by simpa [hi] using hj''
      obtain rfl := Option.some.inj (hs.symm.trans hk)
      -- all that is new is about this environment
      rw [Event.about_own hnew]
      exact ht (h.jobs i spec job hs hj)
    · rw [List.getElem?_set_ne hik] at hj''
      -- nothing that is new is about another, for no two environments share a name
      rw [Event.about_other (name_ne hn hs hk hik) hnew, List.append_nil]
      exact (h.jobs k other job'' hk hj'').congr (hslots k hik)

theorem Accounted.spec_of_job (ha : Accounted permits specs cs p) {job : Job}
    (hj : p.jobs[i]? = some job) : ∃ spec, specs[i]? = some spec := by
  have hi : i < specs.length := ha.width ▸ (List.getElem?_eq_some_iff.1 hj).1
  exact ⟨_, List.getElem?_eq_getElem hi⟩

theorem Next.chronicles {f : Facilities} (h : Next f w i p p' w') (hf : f.Gives good)
    (hn : (specs.map EnvSpec.name).Nodup) (ha : Accounted permits specs cs p)
    (hp : Chronicles good specs p es) : ∃ new,
      w'.journal.events = w.journal.events ++ new ∧ Chronicles good specs p' (es ++ new) := by
  have hquiet {job job' : Job} (hj : p.jobs[i]? = some job) (hjobs : p'.jobs = p.jobs.set i job')
      (hslots : ∀ k, i ≠ k → p'.slot? k = p.slot? k)
      (ht : ∀ spec es, specs[i]? = some spec → Tells good p i spec es job →
        Tells good p' i spec es job') :
      ∃ new, w.journal.events = w.journal.events ++ new ∧ Chronicles good specs p' (es ++ new) := by
    obtain ⟨spec, hs⟩ := ha.spec_of_job hj
    refine ⟨[], (List.append_nil _).symm, hp.change hn hs hj hjobs hslots nofun fun h => ?_⟩
    rw [List.append_nil]
    exact ht spec _ hs h
  cases h with
  | enter hj hs _ =>
    refine hquiet hj rfl (fun _ _ => rfl) fun spec es hspec h => ⟨?_, h⟩
    rw [ha.envs, hspec] at hs
    exact (Option.some.inj hs).symm
  | work hj hstep =>
    obtain ⟨spec, hs⟩ := ha.spec_of_job hj
    obtain ⟨rfl, -⟩ := hp.jobs i spec _ hs hj
    obtain ⟨new, hact, hnew⟩ := Task.step_acts hstep
    refine ⟨new, hnew, hp.change hn hs hj rfl (fun _ _ => rfl) hact.env fun h => ?_⟩
    exact ⟨(Task.step_follows hstep).spec, hact.tells hf h.2⟩
  | finish hj hfin =>
    refine hquiet hj rfl (fun _ _ => rfl) fun spec es _ h => ?_
    obtain ⟨rfl, h⟩ := h
    rwa [Task.Tells, hfin] at h
  | lose hj => exact hquiet hj rfl (fun _ _ => rfl) fun _ _ _ _ => trivial
  | @send r hj =>
    refine hquiet hj rfl (fun k hik => ?_) fun spec es _ h => ⟨r, ?_, h⟩
    · rw [slot?_send, if_neg hik]
    · rw [slot?_send, if_pos rfl]

theorem After.chronicles (h : After w m p p' w') (hm : m.Uses (·.Gives good))
    (hn : (specs.map EnvSpec.name).Nodup) (ha : Accounted permits specs cs p)
    (hp : Chronicles good specs p es) : ∃ new,
      w'.journal.events = w.journal.events ++ new ∧ Chronicles good specs p' (es ++ new) := by
  cases h with
  | same hw => exact ⟨[], by simp [hw.events], by rwa [List.append_nil]⟩
  | turn hx hnext hw =>
    obtain ⟨new, hnew, hp'⟩ := hnext.chronicles (hm.facilities hx) hn ha hp
    refine ⟨new, ?_, hp'⟩
    rw [hw.events, hnew, (Move.scene?_sameRecord hx).events]
  | kill _ hj _ hw =>
    obtain ⟨spec, hs⟩ := ha.spec_of_job hj
    exact ⟨[], by simp [hw.events],
      hp.change hn hs hj rfl (fun _ _ => rfl) nofun fun _ => trivial⟩

/-- When everything is over each entry was told of, unless its task died. -/
theorem Chronicles.entries (h : Chronicles good specs p es) (ha : Accounted permits specs cs p)
    (ho : p.isOver = true) : List.Forall₂ (fun spec e =>
      e.Tells good spec (Event.about spec.name es) ∨ e = .aborted spec.name) specs p.results := by
  rw [List.forall₂_iff_get]
  refine ⟨ha.length_results.symm, fun i hi hi' => ?_⟩
  have hs := List.getElem?_eq_getElem hi
  obtain ⟨job, entry, hj, hr, hanswers⟩ := ha.answers ho hs
  have hentry : p.results[i] = entry := by simpa [List.getElem?_eq_getElem hi'] using hr
  rw [List.get_eq_getElem, List.get_eq_getElem, hentry]
  rcases hanswers with ⟨rfl, -⟩ | ⟨-, rfl⟩
  · obtain ⟨e, hslot, htells⟩ := h.jobs i _ _ hs hj
    obtain rfl : e = entry := by
      simpa [results, ha.envs, List.getElem?_mapIdx, hs, hslot] using hr
    exact .inl htells
  · exact .inr rfl

end Pool

theorem Crew.pool_chronicles (permits : Nat) (hn : (specs.map EnvSpec.name).Nodup) (w : World)
    {moves : List Move} (hm : ∀ m ∈ moves, m.Uses (·.Gives good)) :
    ∃ p w' es, (Crew.parallel permits specs).after w moves = (.pool p, w') ∧
      w'.journal.events = w.journal.events ++ es ∧ Pool.Chronicles good specs p es := by
  induction moves using List.reverseRecOn with
  | nil => exact ⟨_, w, [], rfl, (List.append_nil _).symm, Pool.start_chronicles good permits specs⟩
  | append_singleton moves m ih =>
    obtain ⟨p, w', es, hafter, hes, hp⟩ := ih fun m' h => hm m' (List.mem_append_left _ h)
    obtain ⟨p', w'', hmake, hmoved⟩ := Crew.make_pool p w' m
    obtain ⟨p₁, hp₁, ha⟩ := Crew.pool_accounted permits specs w moves
    obtain rfl : p = p₁ := by simpa [hafter] using hp₁
    obtain ⟨new, hnew, hp'⟩ := hmoved.chronicles (hm m (by simp)) hn ha hp
    refine ⟨p', w'', es ++ new, ?_, ?_, hp'⟩
    · rw [Crew.after_concat, hafter, hmake]
    · rw [hnew, hes, List.append_assoc]

/-- When a pool is over each entry was told of among all the others. -/
theorem Crew.parallel_chronicle (permits : Nat) (hn : (specs.map EnvSpec.name).Nodup) (w : World)
    {moves : List Move} (hm : ∀ m ∈ moves, m.Uses (·.Gives good))
    (ho : ((Crew.parallel permits specs).after w moves).1.isOver = true) :
    ∃ es, ((Crew.parallel permits specs).after w moves).2.journal.events =
        w.journal.events ++ es ∧ (∀ e ∈ es, ∃ spec ∈ specs, e.env? = some spec.name) ∧
      List.Forall₂ (fun spec e => e.Tells good spec (Event.about spec.name es) ∨
        e = .aborted spec.name) specs ((Crew.parallel permits specs).after w moves).1.results := by
  obtain ⟨p, w', es, hafter, hes, hp⟩ := Crew.pool_chronicles permits hn w hm
  obtain ⟨p₁, hp₁, ha⟩ := Crew.pool_accounted permits specs w moves
  obtain rfl : p = p₁ := by simpa [hafter] using hp₁
  rw [hafter] at ho ⊢
  exact ⟨es, hes, hp.about, hp.entries ha ho⟩

/-! ### Blocks of events -/

/-- No program ends as skipped. -/
def Facilities.Candid (f : Facilities) : Prop :=
  ∀ (external : Bool) (h : Host) (i : Invocation) (cutAt : Option Nat) (e : ExitOutcome),
    ((Task.executableFor f external).run h i cutAt).ending = .exited e → e.status ≠ .skipped

theorem Facilities.Plain.candid {f : Facilities} (h : f.Plain) : f.Candid := by
  intro external host i cutAt e he
  obtain ⟨programs, hrun⟩ := h.run_eq external
  rw [hrun] at he
  exact (Spawn.run_wellFormed he).ran.1

/-- Only what had no turn is skipped then. -/
theorem Facilities.gives_of_candid {f : Facilities} {candid : Prop} (h : candid → f.Candid) :
    f.Gives fun o => candid → o.isSkipped = false := by
  intro index o ho hc
  cases ho with
  | refused display message => rfl
  | ran external host i cutAt e display he =>
    have hne := h hc external host i cutAt e he
    simpa [CommandOutcome.isSkipped, ExitOutcome.toOutcome] using hne

namespace EnvResult

/-- What is told of an environment with such an entry, from the outcomes of the commands that had
their turn and the trouble there was with its context in the end. -/
def block (spec : EnvSpec) (e : EnvResult) (ran : List CommandOutcome) (trouble : Option String) :
    List Event :=
  if e.status = .skipped ∨ spec.commands = [] then [.ofResult e]
  else if e.status = .provisionFailed then
    [.provisionFailed e.name (e.failure.getD ""), .ofResult e]
  else
    .provisioned e.name spec.digest :: ran.map (.ofOutcome e.name) ++
      (trouble.toList.map (.teardownError e.name) ++ [.ofResult e])

/-- Events that agree with the entry of an environment. The commands that had their turn are in
front, so that where no program ends as skipped they are those with an outcome that is not. -/
structure Agrees (candid : Prop) (spec : EnvSpec) (e : EnvResult) (es : List Event) : Prop where
  name : e.name = spec.name
  indexed : Progress.Indexed e.outcomes
  told : ∃ ran waived trouble, e.outcomes = ran ++ waived ∧ (∀ o ∈ waived, o.isSkipped = true) ∧
    (candid → ran = e.outcomes.filter (fun o => !o.isSkipped)) ∧ es = e.block spec ran trouble

theorem filter_ran {ran waived : List CommandOutcome} (hran : ∀ o ∈ ran, o.isSkipped = false)
    (hwaived : ∀ o ∈ waived, o.isSkipped = true) :
    (ran ++ waived).filter (fun o => !o.isSkipped) = ran := by
  rw [List.filter_append, List.filter_eq_self.2 fun o ho => by simp [hran o ho],
    List.filter_eq_nil_iff.2 fun o ho => by simp [hwaived o ho], List.append_nil]

theorem Ends.agrees {candid : Prop} {spec : EnvSpec} {e : EnvResult} {ran : List CommandOutcome}
    {es : List Event} (h : e.Ends (fun o => candid → o.isSkipped = false) spec ran es) :
    e.Agrees candid spec es := by
  have hnil : Progress.Indexed [] := fun _ _ ho => by cases ho
  cases h with
  | unstarted => exact ⟨rfl, hnil, [], [], none, rfl, nofun, fun _ => rfl, rfl⟩
  | through ms hn =>
    refine ⟨rfl, hnil, [], [], none, rfl, nofun, fun _ => rfl, ?_⟩
    rw [block, if_pos (.inr hn)]
  | unbuilt failure ms hn =>
    have hskipped : ∀ o ∈ Task.skipped spec, o.isSkipped = true := by
      intro o ho
      obtain ⟨i, hi, rfl⟩ := List.mem_mapIdx.1 ho
      rfl
    refine ⟨rfl, ?_, [], Task.skipped spec, none, rfl, hskipped, fun _ => ?_, ?_⟩
    · intro i o ho
      obtain ⟨command, -, rfl⟩ : ∃ command, spec.commands[i]? = some command ∧
          CommandOutcome.skipped i command.display = o := by
        simpa [Task.unbuilt, Task.skipped, List.getElem?_mapIdx] using ho
      rfl
    · exact (filter_ran (by simp) hskipped).symm
    · simp [block, Task.unbuilt, hn]
  | @ran p ran e trouble hn hp hi hr =>
    obtain ⟨ms, rfl⟩ := hr
    obtain ⟨waived, houtcomes, -, hwaived⟩ := hp.outcomes
    have hskipped : ∀ o ∈ waived, o.isSkipped = true := by
      intro o ho
      obtain ⟨index, display, rfl⟩ := hwaived o ho
      rfl
    refine ⟨rfl, hp.indexed, ran, waived, trouble, houtcomes, hskipped, fun hc => ?_, ?_⟩
    · dsimp only
      rw [houtcomes, filter_ran (fun o ho => hp.good o ho hc) hskipped]
    · have hlife : p.status = .succeeded ∨ p.status = .failed := p.status_cases
      have hnot : p.status ≠ .skipped ∧ p.status ≠ .provisionFailed := by
        rcases hlife with h | h <;> simp [h]
      rw [block, if_neg (by simp [hnot.1, hn]), if_neg hnot.2]

end EnvResult

/-! ### Runs -/

namespace Run

theorem conclude_events {runId : Uuid} {origin w : World} {c : Crew} {rep : Report}
    (h : (conclude runId origin c w).1 = .ended (.reported rep)) :
    (conclude runId origin c w).2.journal.events =
      w.journal.events ++ [.runFinished rep.environments.length rep.exitCode] := by
  have hsay (w : World) (n : Nat) : (sayCasualties w n).journal.events = w.journal.events := by
    induction n generalizing w with
    | zero => rfl
    | succ n ih => rw [sayCasualties, ih, World.note_events]
  unfold conclude at h ⊢
  split at h
  · cases h
  next hbroken =>
    split at h
    next hover =>
      cases h
      rw [if_neg hbroken, if_pos hover]
      rw [World.emit_events, hsay]
      rfl
    · cases h

/-- Between what is said first and last stands what the environments tell. -/
theorem told_of_started {runId : Uuid} {w w₁ w₂ : World} {crew : Crew} {names : List String}
    {permits : Nat} {rep : Report} (h : (conclude runId w crew w₂).1 = .ended (.reported rep))
    (hstarted : w₁ = w.emit (.runStarted names permits)) (es : List Event)
    (hes : w₂.journal.events = w₁.journal.events ++ es) :
    (conclude runId w crew w₂).2.journal.events = w.journal.events ++
      .runStarted names permits :: es ++
        [.runFinished rep.environments.length rep.exitCode] := by
  rw [conclude_events h, hes, hstarted, World.emit_events]
  simp

section

variable {candid : Prop} {o : RunOptions} {found : List EnvSpec} {w : World} {moves : List Move}

/-- What a run overrides does not show in what is told. -/
theorem agrees_of_override (spec : EnvSpec) (e : EnvResult) (own : List Event)
    (h : e.Tells (fun outcome => candid → outcome.isSkipped = false) (o.override spec) own) :
    e.Agrees candid spec own := by
  obtain ⟨ran, hends⟩ := h
  exact hends.of_override.agrees

theorem serial_agrees
    (hm : ∀ m ∈ moves, m.Uses (·.Gives fun outcome => candid → outcome.isSkipped = false))
    (ho : ((Crew.serial (found.map o.override)).after w moves).1.isOver = true) :
    ∃ es, ((Crew.serial (found.map o.override)).after w moves).2.journal.events =
        w.journal.events ++ es ∧
      Chronicle (fun spec e own => e.Agrees candid spec own) found
        ((Crew.serial (found.map o.override)).after w moves).1.results es := by
  obtain ⟨es, hes, hchronicle⟩ := Crew.serial_chronicle _ w hm ho
  exact ⟨es, hes, hchronicle.of_map agrees_of_override⟩

theorem parallel_agrees (permits : Nat) (hn : (found.map EnvSpec.name).Nodup)
    (hm : ∀ m ∈ moves, m.Uses (·.Gives fun outcome => candid → outcome.isSkipped = false))
    (ho : ((Crew.parallel permits (found.map o.override)).after w moves).1.isOver = true) :
    ∃ es, ((Crew.parallel permits (found.map o.override)).after w moves).2.journal.events =
        w.journal.events ++ es ∧ (∀ e ∈ es, ∃ spec ∈ found, e.env? = some spec.name) ∧
      List.Forall₂ (fun spec e => e.Agrees candid spec (Event.about spec.name es) ∨
          e = .aborted spec.name) found
        ((Crew.parallel permits (found.map o.override)).after w moves).1.results := by
  have hnames : (found.map o.override).map EnvSpec.name = found.map EnvSpec.name :=
    List.map_map ..
  obtain ⟨es, hes, habout, hentries⟩ := Crew.parallel_chronicle permits (hnames ▸ hn) w hm ho
  rw [List.forall₂_map_left_iff] at hentries
  refine ⟨es, hes, fun e he => ?_, hentries.imp fun spec e he => ?_⟩
  · obtain ⟨_, hspec, henv⟩ := habout e he
    obtain ⟨own, hown, rfl⟩ := List.mem_map.1 hspec
    exact ⟨own, hown, henv⟩
  · exact he.imp_left (agrees_of_override spec e _)

end

/-- The events of a run that comes to a report agree with it. After the start and before the end
there is a block of events for each entry: one after the other they are all that there is, in the
order of the report, and side by side the block of an environment is all that is about it, unless
its task died. -/
theorem reported_agrees {root : Path} {text : String} {c : Config}
    (hc : Config.parse root text = .ok c) (s : Selection) (o : RunOptions) (runId : Uuid)
    (w : World) (moves : List Move) {rep : Report}
    (h : (after c s o runId w moves).1 = .ended (.reported rep)) :
    let candid : Prop := ∀ m ∈ moves, m.Uses Facilities.Candid
    ∃ found es, s.resolve c = .ok found ∧
      (after c s o runId w moves).2.journal.events = w.journal.events ++
        .runStarted (found.map EnvSpec.name) (parallelism c o) :: es ++
          [.runFinished rep.environments.length rep.exitCode] ∧
      (isSerial (parallelism c o) found = true →
        Chronicle (fun spec e own => e.Agrees candid spec own) found rep.environments es) ∧
      (isSerial (parallelism c o) found = false →
        (∀ e ∈ es, ∃ spec ∈ found, e.env? = some spec.name) ∧
        List.Forall₂ (fun spec e => e.Agrees candid spec (Event.about spec.name es) ∨
          e = .aborted spec.name) found rep.environments) := by
  intro candid
  have hm : ∀ m ∈ moves, m.Uses (·.Gives fun o => candid → o.isSkipped = false) := by
    intro m hmem
    by_cases hcandid : candid
    · exact (hcandid m hmem).imp fun f hf => Facilities.gives_of_candid fun _ => hf
    · exact m.uses_of_forall fun f => Facilities.gives_of_candid fun hc => absurd hc hcandid
  have hb := begin_begins c s o w
  rw [after] at h ⊢
  generalize begin c s o w = x at hb h
  cases hb with
  | refuse | overflow => cases h
  | go found specs crew w' _ _ hfound hspecs _ _ _ hset hstarted =>
    obtain ⟨hover, henvs⟩ := conclude_reported h
    have htold := told_of_started h hstarted
    obtain rfl := specs_eq hfound hspecs
    have hsame : isSerial (parallelism c o) (found.map o.override) =
        isSerial (parallelism c o) found := by
      rw [isSerial, isSerial, List.length_map]
    rw [hsame] at hset
    rw [henvs] at htold ⊢
    cases hserial : isSerial (parallelism c o) found with
    | true =>
      rw [hserial, if_pos rfl] at hset
      subst hset
      obtain ⟨es, hes, hchronicle⟩ := serial_agrees hm hover
      exact ⟨found, es, hfound, htold es hes, fun _ => hchronicle,
        fun hnot => absurd (hserial.symm.trans hnot) (by decide)⟩
    | false =>
      rw [hserial, if_neg Bool.false_ne_true] at hset
      subst hset
      have hn : (found.map EnvSpec.name).Nodup :=
        (Config.parse_names hc).1.sublist ((Selection.resolve_sublist hfound).map EnvSpec.name)
      obtain ⟨es, hes, hentries⟩ := parallel_agrees (parallelism c o) hn hm hover
      exact ⟨found, es, hfound, htold es hes,
        fun hnot => absurd (hserial.symm.trans hnot) (by decide), fun _ => hentries⟩

end Run

namespace Run

/-- Every source is taken as it is; every program is found and says that it was passed over. -/
def overlooking : Facilities :=
  let takes : Installer := fun h _ _ => ⟨h.tree, [], false, .none, .exited 0 ""⟩
  let passes : Executable := ⟨fun _ _ program => .ok ⟨program⟩,
    fun h _ _ => ⟨h.tree, [], false, .none, .exited ⟨.skipped, none, "", "", 0⟩⟩⟩
  ⟨Provisioning.rootSite true, takes, passes, passes, []⟩

/-- A context that is built for these sources. -/
def underWay (deps : List Dependency) (stage : Stage) : Provisioning :=
  ⟨"a", .ofDeclared "a" deps .epoch, ⟨"a", 0, true⟩, stage⟩

def builder (spec : EnvSpec) (stage : Stage) : Task :=
  ⟨spec, .provisioning, 0, .provisioning (underWay spec.deps stage)⟩

def building (spec : EnvSpec) (stage : Stage) : Crew := .row ⟨[], some (builder spec stage), []⟩

/-- The world meanwhile. -/
def site (span : Option String) (h : Host) (steps : Nat) (j : Journal) (installs : List Install) :
    World :=
  ⟨h, (Locks.acquire .empty "a").2, false, 0, .epoch, steps, none, span, j, installs, [], []⟩

def lineOf (level : Level) (text : String) : JournalLine := ⟨some "a", .note ⟨level, some "a", text⟩⟩

/-- A context is built on a bare host. -/
theorem after_building {spec : EnvSpec} (hs : spec.name = "a") (hn : spec.isNoop = false)
    (j : Journal) : ∃ h,
    let w : World := { World.start Provisioning.bareHost with journal := j }
    (Crew.row ⟨[], some (Task.start spec w), []⟩).after w
        (List.replicate ((Dependency.resolve spec.deps).length + 6) (.turn overlooking 0)) =
      (building spec .ready, site none h (0 + ((Dependency.resolve spec.deps).length + 6))
        (j ++ ((Dependency.resolve spec.deps).map fun _ => lineOf .debug "Installing") ++
          [lineOf .info "Environment provisioned"])
        ((Dependency.resolve spec.deps).map (⟨"a", ·⟩))) := by
  have hname : Host.IsName "a" := isName_of_isIdentifier (by decide) (by decide)
  let w : World := { World.start Provisioning.bareHost with journal := j }
  obtain ⟨tree, -, hbuilt⟩ := @Task.brings_built overlooking w rfl rfl spec Provisioning.bareHost.tree
    hn (hs ▸ hname) rfl rfl rfl (by decide) (Provisioning.vacant_bareHost _) rfl
  rw [hs] at hbuilt
  exact ⟨_, Row.after_brings (r := ⟨[], some (Task.start spec w), []⟩) rfl hbuilt 0⟩

/-! ### A program that ends as skipped -/

/-- The first of the twain. -/
def plain : EnvSpec := ⟨"a", none, [], [.ofArgv ["x"]], [], [], none, false, 0⟩

/-- From there on: the command is skipped and its end is told of. -/
theorem after_ready (h : Host) (n : Nat) : ∃ e w' o digest,
    (building plain .ready).after (site none h n [⟨none, .event (.runStarted ["a"] 1)⟩,
          lineOf .info "Environment provisioned"] [])
        (List.replicate 5 (.turn overlooking 0)) = (.row ⟨[e], none, []⟩, w') ∧
      e.outcomes = [o] ∧ o.isSkipped = true ∧
      w'.journal.events = [.runStarted ["a"] 1, .provisioned "a" digest, .ofOutcome "a" o,
        .ofResult e] :=
  ⟨_, _, _, _, rfl, rfl, rfl, rfl⟩

theorem after_overlooked : ∃ rep w' e o digest,
    after twain (.named ["a"]) ⟨none, none, some true, []⟩ .nil (.start Provisioning.bareHost)
        (List.replicate 12 (.turn overlooking 0)) = (.ended (.reported rep), w') ∧
      rep.environments = [e] ∧ e.outcomes = [o] ∧ o.isSkipped = true ∧
      w'.journal.events = [.runStarted ["a"] 1, .provisioned "a" digest, .ofOutcome "a" o,
        .ofResult e, .runFinished 1 rep.exitCode] := by
  let w : World := { World.start Provisioning.bareHost with
    journal := [⟨none, .event (.runStarted ["a"] 1)⟩] }
  obtain ⟨h, hbuilt⟩ : ∃ h, (Crew.row ⟨[], some (Task.start plain w), []⟩).after w
        (List.replicate 6 (.turn overlooking 0)) =
      (building plain .ready, site none h 6 [⟨none, .event (.runStarted ["a"] 1)⟩,
        lineOf .info "Environment provisioned"] []) := after_building rfl rfl w.journal
  obtain ⟨e, w', o, digest, hready, houtcomes, hskipped, hevents⟩ := after_ready h 6
  obtain ⟨crew, hbegin, hstart⟩ : ∃ crew, begin twain (.named ["a"]) ⟨none, none, some true, []⟩
        (.start Provisioning.bareHost) = (.going crew, w) ∧
      crew.after w [.turn overlooking 0] = (.row ⟨[], some (Task.start plain w), []⟩, w) :=
    ⟨_, rfl, rfl⟩
  have hall : crew.after w (List.replicate 12 (.turn overlooking 0)) =
      (.row ⟨[e], none, []⟩, w') := by
    have hsplit : List.replicate 12 (Move.turn overlooking 0) = [.turn overlooking 0] ++
        (List.replicate 6 (.turn overlooking 0) ++ List.replicate 5 (.turn overlooking 0)) := rfl
    rw [hsplit, Crew.after_append, hstart, Crew.after_append, hbuilt, hready]
  let rep := Report.ofResults .nil .epoch (w'.clock - 0) [e]
  refine ⟨rep, w'.emit (.runFinished 1 rep.exitCode), e, o, digest, ?_, rfl, houtcomes, hskipped,
    ?_⟩
  · rw [after, hbegin]
    dsimp only
    rw [hall]
    rfl
  · rw [World.emit_events, hevents]
    rfl

/-- A block with no outcome of a command that had its turn tells of no command. -/
theorem commandFinished_not_mem_block (spec : EnvSpec) (e : EnvResult) (trouble : Option String)
    (env : String) (o : CommandOutcome) : .ofOutcome env o ∉ e.block spec [] trouble := by
  unfold EnvResult.block
  split
  · simp [Event.ofOutcome, Event.ofResult]
  · split
    · simp [Event.ofOutcome, Event.ofResult]
    · simp [Event.ofOutcome, Event.ofResult]

/-- A program may say of itself that it was passed over. Its command is then told of like any that
ended, though the outcome in the report is one of a skipped command. -/
theorem skipped_outcome_told :
    let o : RunOptions := ⟨none, none, some true, []⟩
    let w := World.start Provisioning.bareHost
    let moves := List.replicate 12 (.turn overlooking 0)
    ∃ rep e outcome digest,
      (after twain (.named ["a"]) o .nil w moves).1 = .ended (.reported rep) ∧
      rep.environments = [e] ∧ e.outcomes = [outcome] ∧ outcome.isSkipped = true ∧
      (after twain (.named ["a"]) o .nil w moves).2.journal.events =
        [.runStarted ["a"] 1, .provisioned "a" digest, .ofOutcome "a" outcome, .ofResult e,
          .runFinished 1 rep.exitCode] ∧
      ∀ specs, ¬ Chronicle (fun spec e own => e.Agrees True spec own) specs rep.environments
        [.provisioned "a" digest, .ofOutcome "a" outcome, .ofResult e] := by
  intro o w moves
  obtain ⟨rep, w', e, outcome, digest, hafter, hentries, houtcomes, hskipped, hevents⟩ :=
    after_overlooked
  refine ⟨rep, e, outcome, digest, by rw [hafter], hentries, houtcomes, hskipped,
    by rw [hafter, hevents], fun specs hall => ?_⟩
  rw [hentries] at hall
  generalize hes : [Event.provisioned "a" digest, .ofOutcome "a" outcome, .ofResult e] = es at hall
  cases hall with
  | @cons spec _ own _ _ rest hagrees hrest =>
    cases hrest
    obtain ⟨ran, waived, trouble, -, -, hran, rfl⟩ := hagrees.told
    have hnone : ran = [] := by simp [hran trivial, houtcomes, hskipped]
    subst hnone
    refine commandFinished_not_mem_block spec e trouble "a" outcome ?_
    rw [← List.append_nil (e.block spec [] trouble), ← hes]
    simp

/-- The same run, with the commands that had their turn in its block. -/
theorem reported_agrees_overlooked :
    let o : RunOptions := ⟨none, none, some true, []⟩
    let moves := List.replicate 12 (.turn overlooking 0)
    ∃ rep es, (after twain (.named ["a"]) o .nil (.start Provisioning.bareHost) moves).1 =
        .ended (.reported rep) ∧ es.length = 3 ∧
      Chronicle (fun spec e own => e.Agrees (∀ m ∈ moves, m.Uses Facilities.Candid) spec own)
        (twain.environments.take 1) rep.environments es := by
  intro o moves
  obtain ⟨rep, w', e, outcome, digest, hafter, -, -, -, hevents⟩ := after_overlooked
  have hrep : (after twain (.named ["a"]) o .nil (.start Provisioning.bareHost) moves).1 =
      .ended (.reported rep) := by rw [hafter]
  obtain ⟨found, es, hfound, htold, hserial, -⟩ :=
    reported_agrees parse_twain (.named ["a"]) o .nil (.start Provisioning.bareHost) moves hrep
  obtain rfl : twain.environments.take 1 = found := by
    have : (Selection.named ["a"]).resolve twain = .ok (twain.environments.take 1) := rfl
    rw [this] at hfound
    exact Except.ok.inj hfound
  refine ⟨rep, es, hrep, ?_, hserial rfl⟩
  have hlen := congrArg List.length htold
  rw [hafter, hevents] at hlen
  simpa [World.start, Journal.events] using hlen.symm

end Run

end Testbed
