import Testbed.Proofs.Context.Fresh
import Testbed.Proofs.Run.Cutoff
import Testbed.Proofs.Run.Isolation

/-! Runs one after the other that are cancelled. From then on no program is started, nothing is
installed for an environment whose turn has not come, and all of those are passed over. Only the
environment under way still moves, until it has its result and has left its context. -/
namespace Testbed

namespace Row

/-- A row and the world after a move. -/
inductive Moves (r : Row) (w : World) : Move → Row → World → Prop
  /-- Nothing is done; others may have cancelled the run and changed the host. -/
  | idle {m : Move} {w' : World} (hi : w'.installs = w.installs) (hl : w'.launches = w.launches)
      (hc : w.cancelled = true → w'.cancelled = true) : Moves r w m r w'
  | turn {f : Facilities} {i : Nat} {r' : Row} {w' : World} (h : Next f w r r' w') :
      Moves r w (.turn f i) r' w'
  | race {f : Facilities} {i : Nat} {t t' : Task} {w' : World} (hc : r.current = some t)
      (hr : t.races = true) (h : t.step f w.unaware = .moved t' w') :
      Moves r w (.race f i) { r with current := some t' } (w'.cancelIf w.cancelled)
  | kill {f : Facilities} {i : Nat} {t : Task} (hc : r.current = some t) (ht : ¬ t.isOver) :
      Moves r w (.kill f i) { r with current := some { t with phase := .aborted } } (t.drop f w)

end Row

theorem Task.races_of_finished {t : Task} {e : EnvResult} (h : t.phase = .finished e) :
    t.races = false := by
  rw [races, h]

namespace Crew

theorem make_moves (r : Row) (w : World) (m : Move) :
    ∃ r' w', (Crew.row r).make w m = (.row r', w') ∧ Row.Moves r w m r' w' := by
  cases m with
  | turn f i =>
    rcases go_row f r w i with h | ⟨r', w', h, hn⟩
    · exact ⟨r, w, h, .idle rfl rfl id⟩
    · exact ⟨r', w', h, .turn hn⟩
  | race f i =>
    simp only [make]
    split
    next hr =>
      obtain ⟨t, hc, hr⟩ : ∃ t, r.current = some t ∧ t.races = true := by
        simpa [task?, Option.any_eq_true] using hr
      rcases go_row f r w.unaware i with h | ⟨r', w', h, hn⟩
      · rw [h]
        exact ⟨r, _, rfl, .idle rfl rfl fun hc => by simp [World.cancelIf, hc]⟩
      · rw [h]
        refine ⟨r', _, rfl, ?_⟩
        -- neither the beginning nor the end of a task is waited for
        cases hn with
        | begin hnone => simp [hnone] at hc
        | work hc' hstep =>
          obtain rfl := Option.some.inj (hc.symm.trans hc')
          exact .race hc hr hstep
        | take hc' hfin =>
          obtain rfl := Option.some.inj (hc.symm.trans hc')
          rw [Task.races_of_finished hfin] at hr
          cases hr
    next => exact ⟨r, w, rfl, .idle rfl rfl id⟩
  | kill f i =>
    refine ⟨_, _, rfl, ?_⟩
    unfold Row.kill
    split
    next t hc =>
      split
      · exact .idle rfl rfl id
      · exact .idle rfl rfl id
      next hf ha =>
        refine .kill hc ?_
        rintro (⟨x, h⟩ | h)
        · exact hf x h
        · exact ha h
    next => exact .idle rfl rfl id
  | wait ms => exact ⟨r, _, rfl, .idle rfl rfl id⟩
  | cancel => exact ⟨r, _, rfl, .idle rfl rfl fun _ => rfl⟩
  | meddle host => exact ⟨r, _, rfl, .idle rfl rfl id⟩
  | land k =>
    have h := w.land_sameRecord k
    exact ⟨r, _, rfl, .idle h.installs h.launches (w.land_idles k).cancelled⟩

end Crew

/-! ### What is installed and started -/

theorem Task.step_calm {f : Facilities} {t t' : Task} {w w' : World}
    (hc : w.tick.cancelled = true ∨ t.races = true) (h : t.step f w = .moved t' w') :
    w'.launches = w.launches ∧ (w'.installs = w.installs ∨ ∃ s source,
      t.phase = .provisioning s ∧ w'.installs = w.installs ++ [⟨s.name, source⟩]) := by
  cases Task.step_effects h with
  | keeps h => exact ⟨h.launches, .inl h.installs⟩
  | installs s source ht h => exact ⟨h.launches, .inr ⟨s, source, ht, h.installs⟩⟩
  | launches c p command program l hs hnot =>
    rcases hc with hc | hr
    · rw [hnot] at hc
      cases hc
    · rw [races, hs.phase] at hr
      cases hr

/-! ### A task that is begun afterwards -/

namespace Task

variable {t t' : Task} {f : Facilities} {w w' : World} {e : EnvResult}
  (ht : t.phase = .fresh ∨ t.phase = .finished (.unstarted t.spec.name) ∨ t.phase = .aborted)
include ht

/-- Its only step passes its environment over. -/
theorem step_begun (hc : w.tick.cancelled = true) (h : t.step f w = .moved t' w') :
    t'.phase = .finished (.unstarted t.spec.name) := by
  rcases ht with hp | hp | hp
  · rcases step_fresh hp h with ⟨-, hfin⟩ | ⟨hnot, -⟩
    · exact hfin
    · rw [hc] at hnot
      cases hnot
  all_goals
    have hedge := (step_follows h).edge
    rw [hp] at hedge
    cases hedge

theorem unstarted_of_begun (he : t.phase = .finished e) : e = .unstarted t.spec.name := by
  rcases ht with hp | hp | hp
  · rw [hp] at he
    cases he
  · rw [hp] at he
    exact (Phase.finished.inj he).symm
  · rw [hp] at he
    cases he

theorem races_of_begun : t.races = false := by
  rcases ht with hp | hp | hp <;> rw [races, hp]

end Task

namespace Row

/-! ### What comes of the rest -/

variable {p : Provisioner} {r r₁ r₂ : Row} {w w₁ w₂ : World} {moves : List Move}

/-- In one of the moves the task that was under way, with the context it may have had, comes to a
result and leaves its context. -/
def LeavesIn (p : Provisioner) (r : Row) (w : World) (moves : List Move) (t : Task)
    (e : EnvResult) : Prop :=
  ∃ before m after t', moves = before ++ m :: after ∧
    ((Crew.row r).after w before).1.task? 0 = some t' ∧
    (∀ c, t.context? = some c → t'.context? = some c) ∧
    t'.Leaves p ((Crew.row r).after w before).2 e ((Crew.row r).after w (before ++ [m])).2

/-- The result of the task that was under way. -/
structure ComesTo (p : Provisioner) (r : Row) (w : World) (moves : List Move) (t : Task)
    (e : EnvResult) : Prop where
  name : e.name = t.spec.name
  winds : t.WindsUp e
  cuts : CutsOnce e.outcomes
  leaves : t.phase = .finished e ∨ r.LeavesIn p w moves t e

/-- A task that was under way, some moves later. -/
structure Winding (p : Provisioner) (r : Row) (w : World) (moves : List Move) (t t' : Task) :
    Prop where
  spec : t'.spec = t.spec
  home : t'.IsHome p
  fits : t'.Fits p
  winds : ∀ e, t'.WindsUp e → t.WindsUp e
  building : ∀ s', t'.phase = .provisioning s' → ∃ s, t.phase = .provisioning s
  context : ∀ c, t.context? = some c → t'.context? = some c ∨ t'.isOver
  leaves : ∀ e, t'.phase = .finished e → t.phase = .finished e ∨ r.LeavesIn p w moves t e

/-- Where a row stands some moves after the cancellation: the task that was under way is, or it has
its result and the environments behind it are passed over one by one. -/
inductive Stands (p : Provisioner) (r : Row) (w : World) (moves : List Move) : Row → Prop
  | amid {t t' : Task} (hc : r.current = some t) (ht : Winding p r w moves t t') :
      Stands p r w moves { r with current := some t' }
  | past {own : List EnvResult} {done rest : List EnvSpec}
      (hown : List.Forall₂ (ComesTo p r w moves) r.current.toList own)
      (hs : r.rest = done ++ rest) :
      Stands p r w moves
        ⟨r.results ++ own ++ done.map (fun spec => .unstarted spec.name), none, rest⟩
  | begun {own : List EnvResult} {done rest : List EnvSpec} {t' : Task}
      (hown : List.Forall₂ (ComesTo p r w moves) r.current.toList own)
      (hs : r.rest = done ++ t'.spec :: rest)
      (ht : t'.phase = .fresh ∨ t'.phase = .finished (.unstarted t'.spec.name) ∨
        t'.phase = .aborted) :
      Stands p r w moves
        ⟨r.results ++ own ++ done.map (fun spec => .unstarted spec.name), some t', rest⟩

/-- An environment of that name is being provisioned. -/
def Builds (r : Row) (name : String) : Prop :=
  ∃ t s, r.current = some t ∧ t.phase = .provisioning s ∧ name = t.spec.name

/-- What is installed and started after the cancellation: nothing, but for sources of an environment
that was being provisioned. -/
structure Calm (r : Row) (w w' : World) : Prop where
  cancelled : w'.cancelled = true
  launches : w'.launches = w.launches
  installs : ∃ new, w'.installs = w.installs ++ new ∧ ∀ i ∈ new, r.Builds i.env

theorem LeavesIn.concat {t : Task} {e : EnvResult} (h : r.LeavesIn p w moves t e) (m : Move) :
    r.LeavesIn p w (moves ++ [m]) t e := by
  obtain ⟨before, m', after, t', rfl, h⟩ := h
  exact ⟨before, m', after ++ [m], t', by simp, h⟩

theorem ComesTo.concat {t : Task} {e : EnvResult} (h : ComesTo p r w moves t e) (m : Move) :
    ComesTo p r w (moves ++ [m]) t e :=
  ⟨h.name, h.winds, h.cuts, h.leaves.imp_right (·.concat m)⟩

theorem Winding.concat {t t' : Task} (h : Winding p r w moves t t') (m : Move) :
    Winding p r w (moves ++ [m]) t t' :=
  { h with leaves := fun e he => (h.leaves e he).imp_right (·.concat m) }

theorem Stands.concat (h : Stands p r w moves r₂) (m : Move) : Stands p r w (moves ++ [m]) r₂ := by
  cases h with
  | amid hc ht => exact .amid hc (ht.concat m)
  | past hown hs => exact .past (hown.imp fun _ _ h => h.concat m) hs
  | begun hown hs ht => exact .begun (hown.imp fun _ _ h => h.concat m) hs ht

theorem Winding.refl {t : Task} (hhome : t.IsHome p) (hfits : t.Fits p) :
    Winding p r w [] t t where
  spec := rfl
  home := hhome
  fits := hfits
  winds _ h := h
  building s h := ⟨s, h⟩
  context _ h := .inl h
  leaves _ h := .inl h

/-- The task makes another step, in a world that differs at most in what it sees of the
cancellation. -/
theorem Winding.step {t t₁ t₂ : Task} {f : Facilities} {v v' : World} {m : Move}
    (h : Winding p r w moves t t₁) (hf : f.provisioner = p)
    (hafter : (Crew.row r).after w moves = (.row r₁, w₁)) (hcurrent : r₁.current = some t₁)
    (hmake : (Crew.row r₁).make w₁ m = (.row r₂, w₂))
    (hstep : t₁.step f v = .moved t₂ v') (hc : v.tick.cancelled = true ∨ t₁.races = true)
    (hw : v.SameGround w₁) (hw' : v'.SameGround w₂) :
    Winding p r w (moves ++ [m]) t t₂ := by
  subst hf
  have hfollows := Task.step_follows hstep
  have hcontext (c : Context) (hc : t.context? = some c) : t₁.context? = some c :=
    (h.context c hc).resolve_right (Task.not_isOver_of_step hstep)
  refine ⟨hfollows.spec.trans h.spec, hfollows.isHome h.home, Task.step_fits h.home h.fits hstep,
    fun e he => h.winds e (Task.step_windsUp h.home h.fits hc hstep he), fun s' hs' => ?_,
    fun c hc => Task.step_context (hcontext c hc) hstep, fun e he => .inr ?_⟩
  · have hedge := hfollows.edge
    rw [hs'] at hedge
    generalize hp : t₁.phase = a at hedge
    cases hedge with
    | build => exact h.building _ hp
    | provision =>
      -- whoever sees the cancellation does not begin
      rcases hc with hc | hr
      · rcases Task.step_fresh hp hstep with ⟨-, hfin⟩ | ⟨hnot, -⟩
        · rw [hs'] at hfin
          cases hfin
        · rw [hc] at hnot
          cases hnot
      · rw [Task.races, hp] at hr
        cases hr
  · refine ⟨moves, m, [], t₁, rfl, ?_, hcontext, ?_⟩
    · rw [hafter]
      exact hcurrent
    · rw [Crew.after_concat, hafter, hmake]
      exact (Task.step_leaves h.home h.fits hstep he).congr hw hw'

theorem Winding.kill {t t' : Task} (h : Winding p r w moves t t') :
    Winding p r w moves t { t' with phase := .aborted } where
  spec := h.spec
  home := trivial
  fits := trivial
  winds _ he := he.elim
  building _ hs := by cases hs
  context _ _ := .inr (.inr rfl)
  leaves _ he := by cases he

theorem Winding.comesTo {t t' : Task} {e : EnvResult} (h : Winding p r w moves t t')
    (he : t'.phase = .finished e) : ComesTo p r w moves t e := by
  have hfits := h.fits
  rw [Task.Fits, he] at hfits
  exact ⟨hfits.1.trans (congrArg EnvSpec.name h.spec), h.winds e (by rw [Task.WindsUp, he]),
    hfits.2, h.leaves e he⟩

/-- A turn takes a step with the task that was under way, or passes over the next environment. -/
theorem Stands.next {f : Facilities} {i : Nat} (h : Stands p r w moves r₁) (hf : f.provisioner = p)
    (hc : w₁.tick.cancelled = true) (hafter : (Crew.row r).after w moves = (.row r₁, w₁))
    (hmake : (Crew.row r₁).make w₁ (.turn f i) = (.row r₂, w₂)) (hnext : Next f w₁ r₁ r₂ w₂) :
    Stands p r w (moves ++ [.turn f i]) r₂ := by
  cases hnext with
  | begin hnone hrest =>
    cases h with
    | amid | begun => cases hnone
    | past hown hs =>
      dsimp only at hrest
      subst hrest
      exact Stands.concat (.begun hown hs (.inl rfl)) _
  | work hcur hstep =>
    cases h with
    | amid hct ht =>
      cases hcur
      exact .amid hct (ht.step hf hafter rfl hmake hstep (.inl hc) ⟨⟨rfl, rfl⟩, rfl⟩ ⟨⟨rfl, rfl⟩, rfl⟩)
    | past => cases hcur
    | begun hown hs ht =>
      cases hcur
      have hspec := (Task.step_follows hstep).spec
      have hfin := Task.step_begun ht hc hstep
      rw [← hspec] at hs hfin
      exact Stands.concat (.begun hown hs (.inr (.inl hfin))) _
  | @take t₁ e hcur hfin =>
    refine Stands.concat ?_ _
    cases h with
    | amid hct ht =>
      cases hcur
      have hown : List.Forall₂ (ComesTo p r w moves) r.current.toList [e] := by
        rw [hct]
        exact .cons (ht.comesTo hfin) .nil
      simpa using Stands.past hown (List.nil_append r.rest).symm
    | past => cases hcur
    | begun hown hs ht =>
      cases hcur
      rw [Task.unstarted_of_begun ht hfin]
      simpa using Stands.past hown (hs.trans (List.append_cons ..))

theorem Stands.step {m : Move} (h : Stands p r w moves r₁) (hm : m.Uses (·.provisioner = p))
    (hc : w₁.cancelled = true) (hafter : (Crew.row r).after w moves = (.row r₁, w₁))
    (hmake : (Crew.row r₁).make w₁ m = (.row r₂, w₂)) (hmove : Moves r₁ w₁ m r₂ w₂) :
    Stands p r w (moves ++ [m]) r₂ := by
  cases hmove with
  | idle => exact h.concat _
  | turn hnext => exact h.next hm (by simp [World.tick, hc]) hafter hmake hnext
  | race hcur hr hstep =>
    cases h with
    | amid hct ht =>
      cases hcur
      exact .amid hct (ht.step hm hafter rfl hmake hstep (.inr hr) ⟨⟨rfl, rfl⟩, rfl⟩ ⟨⟨rfl, rfl⟩, rfl⟩)
    | past => cases hcur
    | begun hown hs ht =>
      cases hcur
      rw [Task.races_of_begun ht] at hr
      cases hr
  | kill hcur =>
    refine Stands.concat ?_ _
    cases h with
    | amid hct hw =>
      cases hcur
      exact .amid hct hw.kill
    | past => cases hcur
    | begun hown hs =>
      cases hcur
      exact .begun hown hs (.inr (.inr rfl))

/-- What is under way where something is installed. -/
theorem Stands.builds (h : Stands p r w moves r₁) {t' : Task} {s' : Provisioning}
    (hc : r₁.current = some t') (hp : t'.phase = .provisioning s') : r.Builds s'.name := by
  cases h with
  | amid hct ht =>
    cases hc
    obtain ⟨s, hs⟩ := ht.building s' hp
    have hhome := ht.home
    rw [Task.IsHome, hp] at hhome
    exact ⟨_, s, hct, hs, hhome.trans (congrArg EnvSpec.name ht.spec)⟩
  | past => cases hc
  | begun hown hs ht =>
    cases hc
    rcases ht with h | h | h
    all_goals
      rw [hp] at h
      cases h

theorem Calm.refl (r : Row) {w : World} (hc : w.cancelled = true) : Calm r w w :=
  ⟨hc, rfl, [], (List.append_nil _).symm, nofun⟩

theorem Calm.step {m : Move} (h : Calm r w w₁) (hs : Stands p r w moves r₁)
    (hmove : Moves r₁ w₁ m r₂ w₂) : Calm r w w₂ := by
  obtain ⟨hcan, hlaunches, new, hnew, hinstalls⟩ := h
  have hsame {w₂ : World} (hc : w₂.cancelled = true) (hl : w₂.launches = w₁.launches)
      (hi : w₂.installs = w₁.installs) : Calm r w w₂ :=
    ⟨hc, hl.trans hlaunches, new, hi.trans hnew, hinstalls⟩
  have hwork {t t' : Task} {f : Facilities} {v v' : World} (hcur : r₁.current = some t)
      (hstep : t.step f v = .moved t' v') (hc : v.tick.cancelled = true ∨ t.races = true)
      (hv : v.launches = w₁.launches ∧ v.installs = w₁.installs) {w₂ : World}
      (hc₂ : w₂.cancelled = true) (hw₂ : w₂.launches = v'.launches ∧ w₂.installs = v'.installs) :
      Calm r w w₂ := by
    obtain ⟨hl, hi | ⟨s, source, hp, hi⟩⟩ := Task.step_calm hc hstep
    · exact hsame hc₂ (hw₂.1.trans (hl.trans hv.1)) (hw₂.2.trans (hi.trans hv.2))
    · have hbuilds := hs.builds hcur hp
      refine ⟨hc₂, hw₂.1.trans (hl.trans (hv.1.trans hlaunches)), new ++ [⟨s.name, source⟩], ?_, ?_⟩
      · rw [hw₂.2, hi, hv.2, hnew, List.append_assoc]
      · intro i hmem
        rcases List.mem_append.1 hmem with hmem | hmem
        · exact hinstalls i hmem
        · rw [List.mem_singleton.1 hmem]
          exact hbuilds
  cases hmove with
  | idle hi hl hc => exact hsame (hc hcan) hl hi
  | turn hnext =>
    cases hnext with
    | begin | take => exact hsame hcan rfl rfl
    | work hcur hstep =>
      exact hwork hcur hstep (.inl (by simp [World.tick, hcan])) ⟨rfl, rfl⟩
        (Task.step_cancelled hstep hcan) ⟨rfl, rfl⟩
  | race hcur hr hstep =>
    exact hwork hcur hstep (.inr hr) ⟨rfl, rfl⟩ (by simp [World.cancelIf, hcan]) ⟨rfl, rfl⟩
  | @kill f i t hcur ht =>
    have hk := Task.drop_quiet f t w₁
    exact hsame (hk.cancelled.trans hcan) hk.launches hk.installs

theorem start_stands (hr : ∀ t, r.current = some t → t.IsHome p ∧ t.Fits p) (w : World) :
    Stands p r w [] r := by
  obtain ⟨results, current, rest⟩ := r
  cases current with
  | none =>
    have hpast : Stands p ⟨results, none, rest⟩ w [] _ := .past .nil (List.nil_append rest).symm
    simpa using hpast
  | some t =>
    obtain ⟨hhome, hfits⟩ := hr t rfl
    exact .amid rfl (.refl hhome hfits)

/-- After the cancellation nothing else happens to a row, whatever the moves. -/
theorem after_stands (hr : ∀ t, r.current = some t → t.IsHome p ∧ t.Fits p)
    (hc : w.cancelled = true) (hm : ∀ m ∈ moves, m.Uses (·.provisioner = p)) :
    ∃ r' w', (Crew.row r).after w moves = (.row r', w') ∧ Stands p r w moves r' ∧ Calm r w w' := by
  induction moves using List.reverseRecOn with
  | nil => exact ⟨r, w, rfl, start_stands hr w, .refl r hc⟩
  | append_singleton moves m ih =>
    obtain ⟨r₁, w₁, hafter, hstands, hcalm⟩ := ih fun m' h => hm m' (List.mem_append_left _ h)
    obtain ⟨r₂, w₂, hmake, hmove⟩ := Crew.make_moves r₁ w₁ m
    refine ⟨r₂, w₂, by rw [Crew.after_concat, hafter, hmake], ?_, hcalm.step hstands hmove⟩
    exact hstands.step (hm m (by simp)) hcalm.cancelled hafter hmake hmove

theorem Stands.results (h : Stands p r w moves r₁) (ho : r₁.isOver = true) :
    ∃ own, List.Forall₂ (ComesTo p r w moves) r.current.toList own ∧
      r₁.results = r.results ++ own ++ r.rest.map (fun spec => .unstarted spec.name) := by
  cases h with
  | amid | begun => cases ho
  | @past own done rest hown hs =>
    obtain rfl : rest = [] := by simpa [isOver] using ho
    rw [List.append_nil] at hs
    exact ⟨own, hown, by rw [hs]⟩

theorem Accounted.sound {specs : List EnvSpec} {cs : Nat → List Scene} (h : Accounted specs cs r)
    (hx : ∀ k, ∀ x ∈ cs k, x.facilities.provisioner = p) :
    ∀ t, r.current = some t → t.IsHome p ∧ t.Fits p := by
  intro t hcur
  cases h with
  | between _ _ hnone => simp [hnone] at hcur
  | amid done spec t' _ hcur' _ ht =>
    obtain rfl : t' = t := by simpa [hcur'] using hcur
    rcases ht with hp | hcourse
    · rw [Task.IsHome, Task.Fits, hp]
      exact ⟨trivial, trivial⟩
    · exact ⟨hcourse.isHome (hx _), hcourse.fits (hx _)⟩

/-- The environments behind the one that is being provisioned have other names. -/
theorem Accounted.not_builds {specs : List EnvSpec} {cs : Nat → List Scene} (h : Accounted specs cs r)
    (hn : (specs.map EnvSpec.name).Nodup) : ∀ spec ∈ r.rest, ¬ r.Builds spec.name := by
  rintro spec hspec ⟨t, s, hcur, hp, hname⟩
  cases h with
  | between _ _ hnone => simp [hnone] at hcur
  | amid done spec' t' hs hcur' _ ht =>
    obtain rfl : t' = t := by simpa [hcur'] using hcur
    have hcourse := ht.resolve_left (by simp [hp])
    rw [hcourse.names.1] at hname
    rw [hs, List.map_append, List.map_cons, List.nodup_append] at hn
    exact (List.nodup_cons.1 hn.2.1).1 (hname ▸ List.mem_map_of_mem hspec)

end Row

/-! ### Turns that see it -/

/-- A turn ends a provisioning that waits for something. -/
theorem Row.turn_cancelled {p : Provisioner} {r : Row} {w : World} {t : Task} {s : Provisioning}
    (hcur : r.current = some t) (hp : t.phase = .provisioning s) (hhome : t.IsHome p)
    (hwaits : s.stage.waits = true) (hc : w.cancelled = true) {f : Facilities}
    (hf : f.provisioner = p) (i : Nat) :
    ∃ e t' w', (Crew.row r).make w (.turn f i) = (.row { r with current := some t' }, w') ∧
      t'.phase = .finished e ∧
      e.Unprovisioned t.spec "run cancelled during provisioning" ∧
      w'.host = (if s.stage = .waiting then w.host else w.host.without (p.envDir t.spec.name)) ∧
      w'.locks = Locks.release w.locks s.client ∧
      w'.adrift = w.adrift ++ (s.call? p w.host).toList := by
  subst hf
  have hcond : (w.tick.cancelled && s.stage.waits) = true := by simp [World.tick, hc, hwaits]
  obtain ⟨e, he, hu⟩ := t.provisionFailed_phase
    (s.abandon f.provisioner { w.tick with span := some t.spec.name })
    "run cancelled during provisioning"
  obtain ⟨t', w', hstep, he⟩ : ∃ t' w', t.step f w = .moved t' w' ∧ t'.phase = .finished e := by
    rw [Task.step, Task.stepIn, hp]
    dsimp only
    rw [Task.stepProvisioning, if_pos hcond]
    exact ⟨_, _, rfl, he⟩
  have hname : s.name = t.spec.name := by rwa [Task.IsHome, hp] at hhome
  refine ⟨e, t', w', ?_, he, hu, ?_⟩
  · simp only [Crew.make, Crew.go, Crew.turn, turn, hcur, turnCurrent, hp, hstep, Turn.map]
  · rcases Task.step_provisioning hp hname hstep he with ⟨-, -, hleft⟩ | ⟨cause, hs, -⟩
    · exact hleft
    · simp [hs, Stage.waits] at hwaits

/-- A cancelled row comes to its end wherever it has its turn again and again and nobody dies. -/
theorem Row.exists_isOver {p : Provisioner} {r : Row} {w : World}
    (hr : ∀ t, r.current = some t → t.IsHome p ∧ t.Fits p) (hc : w.cancelled = true)
    (hb : r.isBroken = false) {σ : Schedule} (hσ : σ.Fair 1)
    (hm : ∀ n, (σ n).Steady ∧ (σ n).Uses (·.provisioner = p)) :
    ∃ n, ((Crew.row r).after w (σ.before n)).1.isOver = true := by
  have hmoves (n : Nat) : ∀ m ∈ σ.before n, m.Steady ∧ m.Uses (·.provisioner = p) := by
    intro m hmem
    obtain ⟨k, -, rfl⟩ := List.mem_map.1 hmem
    exact hm k
  rcases Crew.ends_or_hangs (c := .row r) trivial w hσ with ⟨n, ho | hbroken⟩ | ⟨n, hn⟩
  · exact ⟨n, ho⟩
  · rw [Crew.after_isBroken (c := .row r) hb w fun m h => (hmoves n m h).1] at hbroken
    cases hbroken
  · obtain ⟨r', w', hafter, -, hcalm⟩ := after_stands hr hc fun m h => (hmoves n m h).2
    have hnot := (hn n (Nat.le_refl n)).1
    rw [hafter, hcalm.cancelled] at hnot
    cases hnot

/-! ### Runs -/

namespace Run

theorem begin_row {c : Config} {s : Selection} {o : RunOptions} {w w' : World} {r : Row}
    (h : begin c s o w = (.going (.row r), w')) :
    ∃ found specs, s.resolve c = .ok found ∧ specs.map EnvSpec.name = found.map EnvSpec.name ∧
      r = .start specs := by
  have hb := begin_begins c s o w
  rw [h] at hb
  cases hb with
  | go found specs crew w' _ _ hfound _ hnames hcrew =>
    rcases hcrew with hrow | hpool
    · cases hrow
      exact ⟨found, specs, hfound, hnames, rfl⟩
    · cases hpool

theorem after_append {c : Config} {s : Selection} {o : RunOptions} {w w₀ w₁ : World} {crew : Crew}
    {r : Row} (runId : Uuid) (hb : begin c s o w = (.going crew, w₀)) {before : List Move}
    (hr : crew.after w₀ before = (.row r, w₁)) (moves : List Move) :
    after c s o runId w (before ++ moves) =
      conclude runId w ((Crew.row r).after w₁ moves).1 ((Crew.row r).after w₁ moves).2 := by
  rw [after, hb]
  dsimp only
  rw [Crew.after_append, hr]

theorem conclude_row {runId : Uuid} {origin w : World} {r : Row} {rep : Report}
    (h : (conclude runId origin (.row r) w).1 = .ended (.reported rep)) :
    r.isOver = true ∧ rep.environments = r.results :=
  conclude_reported h

theorem conclude_isOver (runId : Uuid) (origin w : World) {c : Crew} (hb : c.isBroken = false)
    (ho : c.isOver = true) : ∃ rep, (conclude runId origin c w).1 = .ended (.reported rep) := by
  rw [conclude, hb, ho]
  exact ⟨_, rfl⟩

/-- Two environments with a command each. -/
def twain : Config :=
  ⟨⟨"/"⟩, ⟨⟨"/.envrun"⟩, none, 1, false, InstallCommand.default, [0]⟩,
    [⟨"a", none, [], [.ofArgv ["x"]], [], [], none, false, 0⟩,
      ⟨"b", none, [], [.ofArgv ["x"]], [], [], none, false, 0⟩]⟩

def twainFile : Config.File where
  settings := .empty
  base := { Config.EnvTable.empty with commands := [⟨.line "x", false, []⟩] }
  envs := [{ Config.EnvTable.empty with name := some "a" },
    { Config.EnvTable.empty with name := some "b" }]

theorem parse_twain : Config.parse ⟨"/"⟩
    "[default]\ncommands=[\"x\"]\n[[env]]\nname=\"a\"\n[[env]]\nname=\"b\"" = .ok twain := by
  have hread : (Toml.parse?
      "[default]\ncommands=[\"x\"]\n[[env]]\nname=\"a\"\n[[env]]\nname=\"b\"").bind
        Config.File.ofToml? = some twainFile := by
    cbv
  rw [Config.parse, hread]
  rfl

end Run

/-! ### Contexts that outlast a cancellation -/

/-- An install that cancels the run and does not come back. -/
theorem Row.turn_stalled {f : Facilities} {r : Row} {t : Task} {s : Provisioning} {w : World}
    {source : Dependency} {rest : List Dependency} (hcur : r.current = some t)
    (hp : t.phase = .provisioning s) (hs : s.stage = .installing (source :: rest))
    (hc : w.cancelled = false) (hi : w.interruptAt = none)
    (hreply : (f.installer w.host (s.target f.provisioner) source).cancels = true ∧
      (f.installer w.host (s.target f.provisioner) source).pause = .forever) :
    ∃ w', (Crew.row r).make w (.turn f 0) =
        (.row { r with current := some { t with
          phase := .provisioning { s with stage := .awaiting source rest none } } }, w') ∧
      w'.cancelled = true ∧ w'.host = w.host ∧ w'.adrift = w.adrift := by
  obtain ⟨hcancels, hpause⟩ := hreply
  let v : World := { w.tick with span := some t.spec.name }
  let v' : World := ((v.note .debug (some s.name) "Installing").recordInstall
    ⟨s.name, source⟩).cancelIf true
  have hstep : s.step f.provisioner f.installer v =
      .moved { s with stage := .awaiting source rest none } v' := by
    rw [Provisioning.step, hs]
    have hhost : v.host = w.host := rfl
    dsimp only
    rw [Provisioning.install, hhost, hcancels, hpause]
    rfl
  refine ⟨_, Row.make_of_step hcur (Task.step_building hp rfl ?_ hstep) 0, ?_, rfl, rfl⟩
  · simp [World.tick, hc, hi]
  · simp [v', World.cancelIf]

/-- Two turns later the only environment has its result, if it is cancelled while its context is
built. -/
theorem Row.after_cancelled {f : Facilities} {w : World} {t : Task} {s : Provisioning}
    (hp : t.phase = .provisioning s) (hhome : t.IsHome f.provisioner) (hwaits : s.stage.waits = true)
    (hc : w.cancelled = true) :
    ∃ e w', (Crew.row ⟨[], some t, []⟩).after w [.turn f 0, .turn f 0] =
        (.row ⟨[e], none, []⟩, w') ∧
      e.Unprovisioned t.spec "run cancelled during provisioning" ∧
      w'.host = (if s.stage = .waiting then w.host
        else w.host.without (f.provisioner.envDir t.spec.name)) ∧
      w'.adrift = w.adrift ++ (s.call? f.provisioner w.host).toList := by
  obtain ⟨e, t', w', hmake, hfin, he, hhost, -, hadrift⟩ :=
    @Row.turn_cancelled f.provisioner ⟨[], some t, []⟩ w t s rfl hp hhome hwaits hc f rfl 0
  have htake : (Crew.row ⟨[], some t', []⟩).make w' (.turn f 0) = (.row ⟨[e], none, []⟩, w') := by
    simp only [Crew.make, Crew.go, Crew.turn, turn, turnCurrent, hfin, Turn.map, List.nil_append]
  refine ⟨e, w', ?_, he, hhost, hadrift⟩
  rw [Crew.after_cons, hmake, Crew.after_cons, htake]
  rfl

namespace Run

theorem conclude_single (runId : Uuid) (origin w : World) (e : EnvResult) : ∃ rep w',
    conclude runId origin (.row ⟨[e], none, []⟩) w = (.ended (.reported rep), w') ∧
      rep.environments = [e] ∧ w'.host = w.host ∧ w'.adrift = w.adrift :=
  ⟨_, _, rfl, rfl, rfl, rfl⟩

/-- The way to the contexts goes through the one of the only environment. -/
def circuitFile : Config.File where
  settings := { Config.SettingsTable.empty with workDir := some ⟨"py36/sub/../.."⟩ }
  base := .empty
  envs := [⟨some "py36", none, ["x"], [⟨.line "true", false, []⟩], [], [], none, none, none⟩]

def circuitSpec : EnvSpec :=
  ⟨"py36", none, [.package "x" "x"], [.ofArgv ["true"]], [], [], none, false, 0⟩

def circuit : Config :=
  ⟨⟨""⟩, ⟨⟨"py36/sub/../.."⟩, none, 1, false, InstallCommand.default, [0]⟩, [circuitSpec]⟩

theorem parse_circuit : Config.parse ⟨""⟩
    "[settings]\nwork_dir=\"py36/sub/../..\"\n[[env]]\nname=\"py36\"\ndeps=[\"x\"]\ncommands=[\"true\"]" =
      .ok circuit := by
  have hread : (Toml.parse?
      "[settings]\nwork_dir=\"py36/sub/../..\"\n[[env]]\nname=\"py36\"\ndeps=[\"x\"]\ncommands=[\"true\"]").bind
        Config.File.ofToml? = some circuitFile := by
    cbv
  rw [Config.parse, hread]
  rfl

/-- Cancels the run, and never comes back. -/
def stalling (c : Config) (o : RunOptions) : Facilities :=
  { Facilities.willing with
    provisioner := provisioner c o
    installer := fun h _ _ => ⟨h.tree, [], true, .forever, .exited 0 ""⟩ }

open Provisioning (roundaboutLaid)

/-- The run is cancelled once the context is laid out. -/
theorem after_circuit : let f := stalling circuit ⟨none, none, none, []⟩
    ∃ crew w₀ w s since,
      begin circuit .all ⟨none, none, none, []⟩ (.start ⟨⟨[]⟩, [], []⟩) = (.going crew, w₀) ∧
        crew.after w₀ (List.replicate 6 (.turn f 0)) =
          (.row ⟨[], some ⟨circuitSpec, .provisioning, since, .provisioning s⟩, []⟩, w) ∧
        s.name = "py36" ∧ s.stage = .awaiting (.package "x" "x") [] none ∧ w.cancelled = true ∧
        w.host = ⟨roundaboutLaid, [], []⟩ ∧ w.adrift = [] := by
  intro f
  have hname : Host.IsName "py36" := isName_of_isIdentifier (by decide) (by decide)
  have hbegun : ∃ crew w₀ w s since,
      begin circuit .all ⟨none, none, none, []⟩ (.start ⟨⟨[]⟩, [], []⟩) = (.going crew, w₀) ∧
        crew.after w₀ (List.replicate 2 (.turn f 0)) =
          (.row ⟨[], some ⟨circuitSpec, .provisioning, since, .provisioning s⟩, []⟩, w) ∧
        s.name = "py36" ∧ s.stage = .clearing ∧ s.metadata.sources = [.package "x" "x"] ∧
        w.cancelled = false ∧ w.interruptAt = none ∧ w.host = ⟨⟨[]⟩, [], []⟩ ∧ w.adrift = [] :=
    ⟨_, _, _, _, _, rfl, rfl, rfl, rfl, by decide, rfl, rfl, rfl, rfl⟩
  obtain ⟨crew, w₀, w, s, since, hbegin, hafter, hs, hstage, hsources, hc, hi, hhost, hadrift⟩ :=
    hbegun
  have hdir : s.dir f.provisioner = Provisioning.roundabout.envDir "py36" :=
    congrArg f.provisioner.envDir hs
  let t (stage : Stage) : Task :=
    ⟨circuitSpec, .provisioning, since, .provisioning { s with stage := stage }⟩
  let laid : World :=
    { w with host := ⟨roundaboutLaid, [], []⟩, steps := w.steps + 3, span := none }
  have hlaid : Task.Brings f 3 (t .clearing) w (t (.installing [.package "x" "x"])) laid := by
    have hbrings := @Task.brings_laid f (t .clearing) w { s with stage := .clearing } _ _ rfl rfl hc hi
      (by rw [hhost]; exact hdir ▸ Provisioning.missing_roundabout hname)
      (by rw [hhost]; exact hdir ▸ Provisioning.makeBin_roundabout)
      (hdir ▸ Provisioning.makeTmp_roundabout)
    rw [hsources] at hbrings
    exact hbrings
  obtain ⟨w', hstalled, hcancelled, hhost', hadrift'⟩ := @Row.turn_stalled f
    ⟨[], some (t (.installing [.package "x" "x"])), []⟩ _ _ laid _ _ rfl rfl rfl hc hi ⟨rfl, rfl⟩
  refine ⟨crew, w₀, w', { s with stage := .awaiting (.package "x" "x") [] none }, since, hbegin, ?_,
    hs, rfl, hcancelled, hhost', hadrift'.trans hadrift⟩
  have hsplit : List.replicate 6 (Move.turn f 0) =
      List.replicate 2 (.turn f 0) ++ (List.replicate 3 (.turn f 0) ++ [.turn f 0]) := rfl
  have hclearing : s = { s with stage := .clearing } := by rw [← hstage]
  rw [hsplit, Crew.after_append, hafter, hclearing, Crew.after_append,
    Row.after_brings (r := ⟨[], some (t .clearing), []⟩) rfl hlaid 0, Crew.after_cons, hstalled]
  rfl

/-- The run is cancelled when the first directory of the context is about to be made. -/
theorem after_shelved : let f := { Facilities.willing with
      provisioner := provisioner twain ⟨none, none, none, []⟩ }
    ∃ crew w₀ w s spec since,
      begin twain (.named ["a"]) ⟨none, none, none, []⟩ (.start Provisioning.bareHost) =
          (.going crew, w₀) ∧
        crew.after w₀ [.turn f 0, .turn f 0, .turn f 0, .cancel] =
          (.row ⟨[], some ⟨spec, .provisioning, since, .provisioning s⟩, []⟩, w) ∧
        spec.name = "a" ∧ s.name = "a" ∧ s.stage = .makingBin ∧ w.cancelled = true ∧
        w.host = Provisioning.bareHost ∧ w.adrift = [] := by
  intro f
  have hbegun : ∃ crew w₀ w s spec since,
      begin twain (.named ["a"]) ⟨none, none, none, []⟩ (.start Provisioning.bareHost) =
          (.going crew, w₀) ∧
        crew.after w₀ [.turn f 0, .turn f 0] =
          (.row ⟨[], some ⟨spec, .provisioning, since, .provisioning s⟩, []⟩, w) ∧
        spec.name = "a" ∧ s.name = "a" ∧ s.stage = .clearing ∧ w.cancelled = false ∧
        w.interruptAt = none ∧ w.host = Provisioning.bareHost ∧ w.adrift = [] :=
    ⟨_, _, _, _, _, _, rfl, rfl, rfl, rfl, rfl, rfl, rfl, rfl, rfl⟩
  obtain ⟨crew, w₀, w, s, spec, since, hbegin, hafter, hspec, hs, hstage, hc, hi, hhost, hadrift⟩ :=
    hbegun
  have hname : Host.IsName "a" := isName_of_isIdentifier (by decide) (by decide)
  obtain ⟨h₁, h₂, hfree, -⟩ := Provisioning.laid_rootSite hname (by decide)
    (Provisioning.vacant_bareHost _)
  let v : World := { w.tick with span := some spec.name }
  have hclear : s.step f.provisioner f.installer v = .moved { s with stage := .makingBin } v := by
    have hdir : s.dir f.provisioner = (Provisioning.rootSite true).envDir "a" :=
      congrArg f.provisioner.envDir hs
    have hmissing : v.host.exists? (s.dir f.provisioner) = false := by
      rw [hdir]
      exact hhost ▸ hfree
    rw [Provisioning.step, hstage]
    exact congrArg Provisioning.moved (Provisioning.clear_eq hmissing)
  have hmake := Row.make_of_step
    (r := ⟨[], some ⟨spec, .provisioning, since, .provisioning s⟩, []⟩) rfl
    (Task.step_building rfl rfl (by simp [World.tick, hc, hi]) hclear) 0
  refine ⟨crew, w₀, World.cancel { v with span := none }, { s with stage := .makingBin }, spec, since,
    hbegin, ?_, hspec, hs, rfl, rfl, hhost, hadrift⟩
  have hsplit : [Move.turn f 0, .turn f 0, .turn f 0, .cancel] =
      [.turn f 0, .turn f 0] ++ [.turn f 0, .cancel] := rfl
  rw [hsplit, Crew.after_append, hafter, Crew.after_cons, hmake]
  rfl

/-- The directory of the context stays where its path leads through it. -/
theorem stays_circuit : ∃ rep e w',
    after circuit .all ⟨none, none, none, []⟩ .nil (.start ⟨⟨[]⟩, [], []⟩)
        (List.replicate 8 (.turn (stalling circuit ⟨none, none, none, []⟩) 0)) =
          (.ended (.reported rep), w') ∧
      rep.environments = [e] ∧ e.Unprovisioned circuitSpec "run cancelled during provisioning" ∧
      w'.adrift = [] ∧ w'.host.tree.get? ["py36"] = some .directory := by
  obtain ⟨crew, w₀, w, s, since, hbegin, hafter, hs, hstage, hc, hhost, hadrift⟩ := after_circuit
  let f := stalling circuit ⟨none, none, none, []⟩
  obtain ⟨e, w', hafter', he, hhost', hadrift'⟩ := @Row.after_cancelled f w
    ⟨circuitSpec, .provisioning, since, .provisioning s⟩ s rfl hs (by rw [hstage]; rfl) hc
  obtain ⟨rep, w'', hrep, henvs, hhost'', hadrift''⟩ :=
    conclude_single .nil (.start ⟨⟨[]⟩, [], []⟩) w' e
  have hsplit : List.replicate 8 (Move.turn f 0) =
      List.replicate 6 (.turn f 0) ++ [.turn f 0, .turn f 0] := rfl
  refine ⟨rep, e, w'', ?_, henvs, he, ?_, ?_⟩
  · rw [after, hbegin, hsplit]
    dsimp only
    rw [Crew.after_append, hafter, hafter', hrep]
  · rw [hadrift'', hadrift', hadrift, Provisioning.call?, hstage]
    rfl
  · rw [hhost'', hhost', hstage, if_neg (by simp), hhost]
    exact congrArg (fun h : Host => h.tree.get? ["py36"]) Provisioning.without_roundabout

/-- The directory that was being made is made after all. -/
theorem returns_shelved : let f := { Facilities.willing with
      provisioner := provisioner twain ⟨none, none, none, []⟩ }
    ∃ rep e spec w', after twain (.named ["a"]) ⟨none, none, none, []⟩ .nil
        (.start Provisioning.bareHost)
        [.turn f 0, .turn f 0, .turn f 0, .cancel, .turn f 0, .turn f 0, .land 0] =
          (.ended (.reported rep), w') ∧
      rep.environments = [e] ∧ e.Unprovisioned spec "run cancelled during provisioning" ∧
      w'.adrift = [] ∧ w'.host.tree.get? [".envrun", "a"] = some .directory := by
  intro f
  obtain ⟨crew, w₀, w, s, spec, since, hbegin, hafter, hspec, hs, hstage, hc, hhost, hadrift⟩ :=
    after_shelved
  obtain ⟨e, w', hafter', he, hhost', hadrift'⟩ := @Row.after_cancelled f w
    ⟨spec, .provisioning, since, .provisioning s⟩ s rfl (hs.trans hspec.symm) (by rw [hstage]; rfl) hc
  rw [hstage, if_neg (by simp), hhost, hspec] at hhost'
  replace hhost' := hhost'.trans Provisioning.without_bareHost
  have hcall : w'.adrift = [.makeDirs (((Provisioning.rootSite true).envDir "a").join "bin")] := by
    rw [hadrift', hadrift, Provisioning.call?, hstage]
    exact congrArg (fun name => [Host.FileCall.makeDirs ((f.provisioner.envDir name).join "bin")]) hs
  have hname : Host.IsName "a" := isName_of_isIdentifier (by decide) (by decide)
  obtain ⟨h₁, -, -, hbin, hmade, -⟩ := Provisioning.laid_rootSite hname (by decide)
    (Provisioning.vacant_bareHost _)
  have hland : w'.land 0 = { w' with host := h₁, adrift := [] } := by
    have hafter : w'.host.after (.makeDirs (((Provisioning.rootSite true).envDir "a").join "bin")) =
        h₁ := by
      have hbin : Provisioning.bareHost.makeDirAll _ = .ok h₁ := hbin
      rw [hhost', Host.after, Host.perform, hbin]
    simp [World.land, hcall, hafter]
  obtain ⟨rep, w'', hrep, henvs, hhost'', hadrift''⟩ :=
    conclude_single .nil (.start Provisioning.bareHost) { w' with host := h₁, adrift := [] } e
  have hsplit : [Move.turn f 0, .turn f 0, .turn f 0, .cancel, .turn f 0, .turn f 0, .land 0] =
      [.turn f 0, .turn f 0, .turn f 0, .cancel] ++ ([.turn f 0, .turn f 0] ++ [.land 0]) := rfl
  refine ⟨rep, e, spec, w'', ?_, henvs, he, hadrift'', ?_⟩
  · rw [after, hbegin, hsplit]
    dsimp only
    rw [Crew.after_append, hafter, Crew.after_append, hafter', ← hrep, ← hland]
    rfl
  · rw [hhost'']
    exact hmade

end Run

end Testbed
