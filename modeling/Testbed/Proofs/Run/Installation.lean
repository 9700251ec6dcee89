import Testbed.Proofs.Run.Chronicle

/-! What commands require is installed. The names of packages are compared in one form when a
configuration is checked and when its sources are resolved, so of everything that a command requires
just one package stays among the sources; and nothing is run in a context before the installer was
handed all of these. -/
namespace Testbed

/-! ### Requirements -/

namespace Config

variable {base own : EnvTable} {spec : EnvSpec}

theorem Merges.normal (h : Merges base own spec) :
    ∀ name ∈ Dependency.packageNames spec.deps, Dependency.normalizeName name = name := by
  intro name hname
  obtain ⟨d, hd, hpackage⟩ := List.mem_filterMap.1 hname
  obtain ⟨raw, -, hraw⟩ := exists_left_of_forall₂ h.deps hd
  cases d with
  | manifest path => cases hpackage
  | package name' requirement =>
    cases hpackage
    exact Dependency.normalizeName_of_parse? hraw

/-- What a source of either table declares is provided by one of the sources that are installed,
whatever the spelling. -/
theorem Merges.provides (h : Merges base own spec) {reference : String}
    (hd : Declares (base.deps ++ own.deps) reference) :
    (Dependency.resolve spec.deps).countP (·.provides (Dependency.normalizeName reference)) = 1 := by
  obtain ⟨raw, hraw, name, requirement, hparse, hname⟩ := hd
  have hiff : (∃ raw ∈ base.deps ++ own.deps,
      Dependency.parse? raw = some (.package name requirement)) ↔
        ∃ d ∈ spec.deps, d = .package name requirement :=
    exists_mem_iff_of_forall₂ h.deps fun raw d hd => by rw [hd, Option.some.injEq]
  obtain ⟨_, hd, rfl⟩ := hiff.1 ⟨raw, hraw, hparse⟩
  rw [hname]
  exact Dependency.countP_provides_resolve h.normal (List.mem_filterMap.2 ⟨_, hd, rfl⟩)

/-- The commands of an environment require what their entries do, and each of that is provided by one
of the sources that are installed. -/
def Meets (base own : EnvTable) (spec : EnvSpec) : Prop :=
  List.Forall₂ (fun entry command =>
      command.requires = entry.requires.map Dependency.normalizeName ∧
        ∀ reference ∈ command.requires,
          (Dependency.resolve spec.deps).countP (·.provides reference) = 1)
    (base.commands ++ own.commands) spec.commands

theorem Merges.meets (h : Merges base own spec)
    (hd : ∀ entry ∈ base.commands ++ own.commands, ∀ reference ∈ entry.requires,
      Declares (base.deps ++ own.deps) reference) : Meets base own spec := by
  refine ((List.forall₂_and_left ..).2 ⟨hd, h.commands⟩).imp fun entry command => ?_
  rintro ⟨hdeclared, hreads, -⟩
  refine ⟨hreads.requires, ?_⟩
  rw [hreads.requires, List.forall_mem_map]
  exact fun reference hreference => h.provides (hdeclared reference hreference)

/-- Of an accepted file every environment has what its commands require. -/
theorem ofFile_meets {root : Path} {file : File} {c : Config} (h : ofFile root file = .ok c) :
    List.Forall₂ (Meets file.base) file.envs c.environments := by
  have hrequires := (acceptable_of_ofFile h).requires
  refine ((List.forall₂_and_left ..).2 ⟨hrequires, ofFile_merges h⟩).imp ?_
  rintro own spec ⟨hdeclared, hmerges⟩
  exact hmerges.meets hdeclared

end Config

/-! ### Sources -/

/-- The sources that are not yet handed to the installer. -/
def Stage.pending (sources : List Dependency) : Stage → List Dependency
  | .installing rest | .awaiting _ rest _ => rest
  | .recording | .ready => []
  | .waiting | .clearing | .makingBin | .makingTmp | .discarding _ | .failed _ => sources

namespace Provisioning

/-- Every source was handed to the installer or is still to be. -/
def Hands (s : Provisioning) (installs : List Install) : Prop :=
  ∀ source ∈ s.metadata.sources,
    source ∈ s.stage.pending s.metadata.sources ∨ ⟨s.name, source⟩ ∈ installs

theorem hands_start {s : Provisioning} (hs : s.stage = .waiting ∨ s.stage = .clearing)
    (installs : List Install) : s.Hands installs := by
  intro source hsource
  refine .inl ?_
  rcases hs with hs | hs <;> rwa [hs]

theorem Follows.hands {s s' : Provisioning} {installs installs' : List Install}
    (h : s.Follows s') (hs : s.Hands installs) (hsub : installs ⊆ installs')
    (hi : ∀ source rest, s.stage = .installing (source :: rest) → ⟨s.name, source⟩ ∈ installs') :
    s'.Hands installs' := by
  intro source hsource
  rw [h.metadata] at hsource ⊢
  rw [h.name]
  have hold := (hs source hsource).imp_right fun h => hsub h
  -- a source leaves the pending ones on two edges only, and there it is handed over
  have hedge := h.edge
  generalize s.stage = a at hold hedge hi
  generalize s'.stage = b at hedge
  cases hedge with
  | await next rest | install next rest =>
    rcases hold with hold | hold
    · rcases List.mem_cons.1 hold with rfl | hold
      · exact .inr (hi _ rest rfl)
      · exact .inl hold
    · exact .inr hold
  | fail => exact .inl hsource
  | _ => exact hold

theorem Hands.all {s : Provisioning} {installs : List Install} (h : s.Hands installs)
    (hs : s.stage = .ready) : ∀ source ∈ s.metadata.sources, ⟨s.name, source⟩ ∈ installs := by
  intro source hsource
  refine (h source hsource).resolve_left ?_
  rw [hs]
  exact List.not_mem_nil

end Provisioning

/-! ### Tasks -/

/-- All sources of the environment are on record in the context, and were handed to the
installer. -/
structure Context.Holds (c : Context) (spec : EnvSpec) (installs : List Install) : Prop where
  sources : c.metadata.sources = Dependency.resolve spec.deps
  handed : ∀ source ∈ Dependency.resolve spec.deps, ⟨spec.name, source⟩ ∈ installs

namespace Task

variable {f : Facilities} {t t' : Task} {installs installs' : List Install}

/-- What the installer was handed for a task. -/
def Supplies (t : Task) (installs : List Install) : Prop :=
  match t.phase with
  | .provisioning s => s.name = t.spec.name ∧
    s.metadata.sources = Dependency.resolve t.spec.deps ∧ s.Hands installs
  | .commands c _ | .awaiting c _ _ | .closing c _ => c.Holds t.spec installs
  | .fresh | .finished _ | .aborted => True

theorem Supplies.holds {c : Context} (h : t.Supplies installs) (hc : t.context? = some c) :
    c.Holds t.spec installs := by
  unfold Supplies at h
  unfold context? at hc
  generalize t.phase = phase at h hc
  cases phase with
  | commands | awaiting | closing =>
    cases hc
    exact h
  | fresh | provisioning | finished | aborted => cases hc

theorem Supplies.mono (h : t.Supplies installs) (hsub : installs ⊆ installs') :
    t.Supplies installs' := by
  unfold Supplies at h ⊢
  split at h
  next s _ => exact ⟨h.1, h.2.1, fun source hs => (h.2.2 source hs).imp_right fun h => hsub h⟩
  next => exact ⟨h.sources, fun source hs => hsub (h.handed source hs)⟩
  next => exact ⟨h.sources, fun source hs => hsub (h.handed source hs)⟩
  next => exact ⟨h.sources, fun source hs => hsub (h.handed source hs)⟩
  all_goals trivial

theorem Act.supplies {es : List Event} (h : Act f t installs' t' es) (ht : t.Supplies installs)
    (hsub : installs ⊆ installs') : t'.Supplies installs' := by
  have hall := ht.mono hsub
  unfold Supplies at ht hall
  cases h with
  | provision s _ _ hs hm hstage =>
    obtain ⟨date, hm⟩ := hm
    exact ⟨hs, by rw [hm]; rfl, Provisioning.hands_start hstage installs'⟩
  | build hp hs hi =>
    rw [hp] at ht
    exact ⟨hs.name.trans ht.1, by rw [hs.metadata, ht.2.1], hs.hands ht.2.2 hsub hi⟩
  | enter hp hready =>
    rw [hp] at hall
    obtain ⟨hname, hsources, hhands⟩ := hall
    exact ⟨hsources, by
      rw [← hname, ← hsources]
      exact hhands.all hready⟩
  | waive hp | halt hp | outcome hp | launch _ hp | collect hp | leave hp =>
    rw [hp] at hall
    exact hall
  | skip | pass | fail | abort | close => trivial

theorem step_installs {w w' : World} (h : t.step f w = .moved t' w') :
    w.installs ⊆ w'.installs := by
  cases step_effects h with
  | keeps h =>
    rw [h.installs]
    exact List.Subset.refl _
  | installs s source _ h =>
    rw [h.installs]
    exact List.subset_append_left ..
  | launches _ _ _ _ _ _ _ h =>
    rw [h.installs]
    exact List.Subset.refl _

theorem Supplies.step {w w' : World} (ht : t.Supplies w.installs)
    (h : t.step f w = .moved t' w') : t'.Supplies w'.installs := by
  obtain ⟨es, hact, -⟩ := step_acts h
  exact hact.supplies ht (step_installs h)

end Task

/-! ### Environments together -/

/-- All that the tasks under way need was handed to the installer. -/
def Crew.Supplied (c : Crew) (installs : List Install) : Prop :=
  ∀ i t, c.task? i = some t → t.Supplies installs

section

variable {w w' : World} {m : Move}

theorem Row.Next.supplied {x : Scene} {r r' : Row} (h : Next x.facilities x.world r r' w')
    (hr : (Crew.row r).Supplied x.world.installs) : (Crew.row r').Supplied w'.installs := by
  intro i t ht
  cases h with
  | begin =>
    cases ht
    trivial
  | work hc hstep =>
    cases ht
    exact (hr i _ hc).step hstep
  | take => cases ht

theorem Row.After.supplied {r r' : Row} (h : After w m r r' w')
    (hr : (Crew.row r).Supplied w.installs) : (Crew.row r').Supplied w'.installs := by
  cases h with
  | same hw => rwa [hw.installs]
  | turn hx hn hw =>
    rw [hw.installs]
    exact hn.supplied (by rwa [(Move.scene?_sameRecord hx).installs])
  | kill =>
    intro i t ht
    cases ht
    trivial

theorem Pool.supplied_setJob {p : Pool} {i : Nat} {job : Job} {installs installs' : List Install}
    (hp : (Crew.pool p).Supplied installs) (hsub : installs ⊆ installs')
    (hj : ∀ t, job = .active t → t.Supplies installs') :
    (Crew.pool (p.setJob i job)).Supplied installs' := by
  intro k t ht
  rw [Crew.task?_pool, setJob, List.getElem?_set] at ht
  split at ht
  · split at ht
    · exact hj t (Option.some.inj ht)
    · cases ht
  · exact (hp k t (Crew.task?_pool.2 ht)).mono hsub

theorem Pool.Next.supplied {x : Scene} {i : Nat} {p p' : Pool}
    (h : Next x.facilities x.world i p p' w') (hp : (Crew.pool p).Supplied x.world.installs) :
    (Crew.pool p').Supplied w'.installs := by
  cases h with
  | enter =>
    refine supplied_setJob hp (List.Subset.refl _) fun t ht => ?_
    cases ht
    trivial
  | work hj hstep =>
    refine supplied_setJob hp (Task.step_installs hstep) fun t ht => ?_
    cases ht
    exact (hp i _ (Crew.task?_pool.2 hj)).step hstep
  | finish | lose =>
    refine supplied_setJob hp (List.Subset.refl _) fun t ht => ?_
    cases ht
  | send =>
    have hclosed : (Crew.pool (p.setJob i .closed)).Supplied x.world.installs := by
      refine supplied_setJob hp (List.Subset.refl _) fun t ht => ?_
      cases ht
    exact hclosed

theorem Pool.After.supplied {p p' : Pool} (h : After w m p p' w')
    (hp : (Crew.pool p).Supplied w.installs) : (Crew.pool p').Supplied w'.installs := by
  cases h with
  | same hw => rwa [hw.installs]
  | turn hx hn hw =>
    rw [hw.installs]
    exact hn.supplied (by rwa [(Move.scene?_sameRecord hx).installs])
  | kill _ _ _ hw =>
    rw [hw.installs]
    refine supplied_setJob hp (List.Subset.refl _) fun t ht => ?_
    cases ht

theorem Crew.Supplied.make {c : Crew} (h : c.Supplied w.installs) (m : Move) :
    (c.make w m).1.Supplied (c.make w m).2.installs := by
  cases c with
  | row r =>
    obtain ⟨r', w', heq, hafter⟩ := make_row r w m
    rw [heq]
    exact hafter.supplied h
  | pool p =>
    obtain ⟨p', w', heq, hafter⟩ := make_pool p w m
    rw [heq]
    exact hafter.supplied h

theorem Crew.Supplied.after {c : Crew} (h : c.Supplied w.installs) (moves : List Move) :
    (c.after w moves).1.Supplied (c.after w moves).2.installs := by
  induction moves using List.reverseRecOn with
  | nil => exact h
  | append_singleton moves m ih =>
    rw [after_concat]
    exact ih.make m

end

namespace Run

theorem Sets.supplied {permits : Nat} {specs : List EnvSpec} {crew : Crew}
    (h : Sets permits specs crew) (installs : List Install) : crew.Supplied installs := by
  intro i t ht
  rcases h with rfl | rfl
  · cases ht
  · have hqueued := Crew.task?_pool.1 ht
    simp [Pool.start, List.getElem?_replicate] at hqueued

/-- A run that is under way. -/
theorem eq_of_going {c : Config} {s : Selection} {o : RunOptions} {runId : Uuid} {w w' : World}
    {moves : List Move} {crew : Crew} (h : after c s o runId w moves = (.going crew, w')) :
    ∃ specs first w₁, Run.specs c s o = .ok specs ∧ Sets (parallelism c o) specs first ∧
      crew = (first.after w₁ moves).1 ∧ w' = (first.after w₁ moves).2 := by
  have hb := begin_begins c s o w
  rw [after] at h
  generalize begin c s o w = x at hb h
  cases hb with
  | refuse | overflow => cases h
  | go found chosen first w₁ _ _ _ hspecs _ hcrew =>
    refine ⟨chosen, first, w₁, hspecs, hcrew, ?_⟩
    dsimp only [conclude] at h
    split at h
    · cases h
    · split at h
      · cases h
      · cases h
        exact ⟨rfl, rfl⟩

/-- In an accepted configuration everything that a command requires, whether its entry stands in the
base or in the table of the environment, is provided by just one of the sources, whatever the
spelling. And a task that has a context has had all of these sources handed to the installer and
keeps them on record, so that every one of its commands finds there what it requires. -/
theorem requirements_installed {root : Path} {file : Config.File} {c : Config}
    (hc : Config.ofFile root file = .ok c) :
    List.Forall₂ (Config.Meets file.base) file.envs c.environments ∧
    ∀ (s : Selection) (o : RunOptions) (runId : Uuid) (w w' : World) (moves : List Move)
      (crew : Crew), after c s o runId w moves = (.going crew, w') →
      ∀ i t ctx, crew.task? i = some t → t.context? = some ctx →
        ∃ spec ∈ c.environments, t.spec.name = spec.name ∧ t.spec.commands = spec.commands ∧
          ctx.metadata.sources = Dependency.resolve spec.deps ∧
          (∀ source ∈ ctx.metadata.sources, ⟨spec.name, source⟩ ∈ w'.installs) ∧
          ∀ command ∈ t.spec.commands, ∀ reference ∈ command.requires,
            ctx.metadata.sources.countP (·.provides reference) = 1 := by
  have hmeets := Config.ofFile_meets hc
  refine ⟨hmeets, fun s o runId w w' moves crew hgoing i t ctx ht hctx => ?_⟩
  obtain ⟨chosen, first, w₁, hchosen, hsets, rfl, rfl⟩ := eq_of_going hgoing
  have hsupplied := (hsets.supplied w₁.installs).after moves
  obtain ⟨hsources, hhanded⟩ := (hsupplied i t ht).holds hctx
  obtain ⟨spec, hspec, _, _, hcourse⟩ := (Crew.task_reaches hsets ht).resolve_left fun hdead => by
    simp [Task.context?, hdead] at hctx
  obtain rfl := hcourse.names.1
  obtain ⟨own, hown, hname, hdeps, hcommands⟩ := exists_of_mem_specs hchosen hspec
  obtain ⟨table, -, hmet⟩ := Config.exists_left_of_forall₂ hmeets hown
  rw [hdeps] at hsources hhanded
  refine ⟨own, hown, hname, hcommands, hsources, ?_, ?_⟩
  · rw [hsources, ← hname]
    exact hhanded
  · rw [hsources, hcommands]
    intro command hcommand
    obtain ⟨entry, -, hrequires⟩ := Config.exists_left_of_forall₂ hmet hcommand
    exact hrequires.2

/-- The base requires a package that only the environment declares, in a spelling of its own. -/
def needyFile : Config.File :=
  { Config.respelt with envs := [⟨some "a", none, ["A.-b"], [], [], [], none, none, none⟩] }

def needing : EnvSpec :=
  ⟨"a", none, [.package "a-b" "A.-b"], [⟨["x"], false, ["a-b"]⟩], [], [], none, false, 0⟩

def needy : Config :=
  ⟨⟨"/"⟩, ⟨⟨"/.envrun"⟩, none, 1, false, InstallCommand.default, [0]⟩, [needing]⟩

theorem after_needy : ∃ crew w' t ctx,
    after needy .all ⟨none, none, some true, []⟩ .nil (.start Provisioning.bareHost)
        (List.replicate 9 (.turn overlooking 0)) = (.going crew, w') ∧
      crew.task? 0 = some t ∧ t.context? = some ctx ∧
      t.spec.commands = needing.commands ∧
      w'.installs = [⟨"a", .package "a-b" "A.-b"⟩] := by
  let w : World := { World.start Provisioning.bareHost with
    journal := [⟨none, .event (.runStarted ["a"] 1)⟩] }
  obtain ⟨h, hbuilt⟩ : ∃ h, (Crew.row ⟨[], some (Task.start needing w), []⟩).after w
        (List.replicate 7 (.turn overlooking 0)) =
      (building needing .ready, site none h 7
        (w.journal ++ [lineOf .debug "Installing"] ++ [lineOf .info "Environment provisioned"])
        [⟨"a", .package "a-b" "A.-b"⟩]) := after_building rfl rfl w.journal
  obtain ⟨crew, hbegin, hstart⟩ : ∃ crew, begin needy .all ⟨none, none, some true, []⟩
        (.start Provisioning.bareHost) = (.going crew, w) ∧
      crew.after w [.turn overlooking 0] = (.row ⟨[], some (Task.start needing w), []⟩, w) :=
    ⟨_, rfl, rfl⟩
  have hsplit : List.replicate 9 (Move.turn overlooking 0) = [.turn overlooking 0] ++
      (List.replicate 7 (.turn overlooking 0) ++ [.turn overlooking 0]) := rfl
  rw [after, hbegin]
  dsimp only
  rw [hsplit, Crew.after_append, hstart, Crew.after_append, hbuilt]
  exact ⟨_, _, _, _, rfl, rfl, rfl, rfl, rfl⟩

/-- The command finds the package in its context, and it was handed to the installer. -/
theorem requirements_installed_needy :
    let moves := List.replicate 9 (.turn overlooking 0)
    Config.ofFile ⟨"/"⟩ needyFile = .ok needy ∧
      List.Forall₂ (Config.Meets needyFile.base) needyFile.envs needy.environments ∧
      ∃ crew w' t ctx, after needy .all ⟨none, none, some true, []⟩ .nil
          (.start Provisioning.bareHost) moves = (.going crew, w') ∧
        crew.task? 0 = some t ∧ t.context? = some ctx ∧
        ctx.metadata.sources.countP (·.provides "a-b") = 1 ∧
        w'.installs = [⟨"a", .package "a-b" "A.-b"⟩] := by
  intro moves
  have hc : Config.ofFile ⟨"/"⟩ needyFile = .ok needy := by decide +kernel
  obtain ⟨crew, w', t, ctx, hafter, ht, hctx, hcommands, hinstalls⟩ := after_needy
  obtain ⟨hmeets, hsupplied⟩ := requirements_installed hc
  obtain ⟨-, -, -, -, -, -, hprovided⟩ := hsupplied _ _ _ _ _ _ _ hafter 0 t ctx ht hctx
  refine ⟨hc, hmeets, crew, w', t, ctx, hafter, ht, hctx, ?_, hinstalls⟩
  rw [hcommands] at hprovided
  exact hprovided _ List.mem_cons_self "a-b" List.mem_cons_self

end Run

end Testbed
