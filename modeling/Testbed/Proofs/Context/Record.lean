import Testbed.Proofs.Context.Fresh
import Testbed.Proofs.Report.Json

/-! The record of a context. It is read back from what is written of it, whatever sources it names
and whenever it was made; so where a provisioning ends well the record tells of the context what
whoever asked for it has in hand, unless its path leads to a device, which keeps nothing. -/
namespace Testbed

/-! ### What is written of it -/

theorem Dependency.ofJson?_toJson (d : Dependency) : ofJson? d.toJson = some d := by
  cases d with
  | package name requirement =>
    have hkind : kindOf? (toJson (.package name requirement)) = some ("package",
        .object [("name", .string name), ("requirement", .string requirement)]) := rfl
    rw [ofJson?, hkind]
    simp only [Option.bind_eq_bind, Option.bind_some]
    rw [Json.record?_object (by rfl) (by decide)]
    rfl
  | manifest path =>
    have hkind : kindOf? (toJson (.manifest path)) =
        some ("manifest", .object [("path", .string path.text)]) := rfl
    rw [ofJson?, hkind]
    simp only [Option.bind_eq_bind, Option.bind_some]
    rw [Json.record?_object (by rfl) (by decide)]
    rfl

theorem Dependency.exact_toJson (d : Dependency) : d.toJson.Exact := by
  cases d with
  | package name requirement =>
    refine .object ?_
    simp only [List.forall_mem_cons]
    exact ⟨.string _, .string _, .string _, List.forall_mem_nil _⟩
  | manifest path =>
    refine .object ?_
    simp only [List.forall_mem_cons]
    exact ⟨.string _, .string _, List.forall_mem_nil _⟩

namespace Metadata

theorem ofJson?_toJson {m : Metadata} (h : m.createdAt.OnCalendar) : ofJson? m.toJson = some m := by
  have hsources : Json.asList? Dependency.ofJson? (.array (m.sources.map Dependency.toJson)) =
      some m.sources :=
    Json.asList?_map fun d _ => Dependency.ofJson?_toJson d
  rw [ofJson?, toJson, Json.record?_object (by rfl) (by decide)]
  simp only [List.map_cons, List.map_nil, Json.required, Json.asString?, hsources,
    Timestamp.parse?_render h, Option.bind_eq_bind, Option.bind_some]

theorem exact_toJson (m : Metadata) : m.toJson.Exact := by
  refine .object ?_
  simp only [List.forall_mem_cons]
  exact ⟨.string _, .string _, .map Dependency.exact_toJson _, .string _, List.forall_mem_nil _⟩

/-- A record that was written is read, unless its path leads to a device. -/
theorem read_write {m : Metadata} (hm : m.createdAt.OnCalendar) {h h' : Host} {dir : Path}
    (hw : h.write (path dir) (Text.encode m.text) = .ok h')
    (hk : h'.tree.Keeps h'.cwd (path dir).text) : read h' dir = .ok m := by
  obtain ⟨t, hwrite, rfl⟩ := Host.of_write_ok hw
  have hread : Host.read { h with tree := t } (path dir) = .ok (Text.encode m.text) :=
    Host.Tree.read_write (Host.Tree.keeps_of_write hwrite hk) hwrite
  have htext : (Text.decode? (Text.encode m.text)).bind Json.parse? = some m.toJson := by
    rw [Text.decode?_encode, Option.bind_some, text, Json.parse?_pretty m.exact_toJson]
  have hback : ((Text.decode? (Text.encode m.text)).bind Json.parse?).bind ofJson? = some m := by
    rw [htext, Option.bind_some, ofJson?_toJson hm]
  unfold read
  rw [hread]
  dsimp only
  rw [hback]

end Metadata

/-! ### Provisionings that end well -/

/-- A context of sources that were declared under a name, and its record on a host: the record has
what the context has in hand. -/
structure Context.Recorded (c : Context) (name : String) (deps : List Dependency)
    (date : Timestamp) (h : Host) : Prop where
  owner : c.name = name
  name : c.metadata.name = name
  sources : c.metadata.sources = Dependency.resolve deps
  digest : c.metadata.digest = Dependency.digest c.metadata.sources
  createdAt : c.metadata.createdAt = date
  read : h.tree.Keeps h.cwd (Metadata.path c.dir).text → Metadata.read h c.dir = .ok c.metadata

namespace Provisioning

/-- A provisioning that was begun on some day and has been brought on in any worlds, whatever else
happened in between, with the host that its last step left. -/
inductive Brought (p : Provisioner) (name : String) (deps : List Dependency) (date : Timestamp) :
    Provisioning → Host → Prop
  | start {w : World} (hw : w.date = date) :
      Brought p name deps date (start w name deps).1 (start w name deps).2.host
  | step {installer : Installer} {w w' : World} {s s' : Provisioning} {h : Host}
      (hb : Brought p name deps date s h) (hs : step p installer w s = .moved s' w') :
      Brought p name deps date s' w'.host

variable {p : Provisioner} {installer : Installer} {name : String} {deps : List Dependency}
  {date : Timestamp} {w w' : World} {s s' : Provisioning} {h : Host}

theorem start_fst (w : World) (name : String) (deps : List Dependency) :
    (start w name deps).1.name = name ∧
      (start w name deps).1.metadata = .ofDeclared name deps w.date ∧
      (start w name deps).1.stage ≠ .ready := by
  unfold start
  dsimp only
  split <;> exact ⟨rfl, rfl, nofun⟩

/-- A provisioning stays with what it was begun for. -/
theorem Brought.keeps (hb : Brought p name deps date s h) :
    s.name = name ∧ s.metadata = .ofDeclared name deps date := by
  induction hb with
  | start hw =>
    obtain ⟨hname, hmetadata, -⟩ := start_fst _ name deps
    exact ⟨hname, hw ▸ hmetadata⟩
  | step _ hs ih =>
    have hf := step_follows hs
    exact ⟨hf.name.trans ih.1, hf.metadata.trans ih.2⟩

/-- Only writing the record makes a context ready. -/
theorem step_ready (hs : step p installer w s = .moved s' w') (hr : s'.stage = .ready) :
    w.host.write (Metadata.path (s.dir p)) (Text.encode s.metadata.text) = .ok w'.host := by
  have he := (step_follows hs).edge
  rw [hr] at he
  have hstage : s.stage = .recording := by
    generalize s.stage = stage at he
    cases he
    rfl
  simp only [step, hstage] at hs
  obtain ⟨hs', hw'⟩ := moved_eq hs
  cases ho : w.host.write (Metadata.path (s.dir p)) (Text.encode s.metadata.text) with
  | error cause =>
    rw [hs', (record_error ho).1] at hr
    cases hr
  | ok h' => rw [hw', (record_ok ho).2.host]

/-- The record is of the context, once there is one. -/
theorem Brought.recorded (hdate : date.OnCalendar) (hb : Brought p name deps date s h)
    (hr : s.stage = .ready) : (s.context p).Recorded name deps date h := by
  obtain ⟨hname, hmetadata⟩ := hb.keeps
  have hread (hk : h.tree.Keeps h.cwd (Metadata.path (s.dir p)).text) :
      Metadata.read h (s.dir p) = .ok s.metadata := by
    cases hb with
    | start hw => exact absurd hr (start_fst _ name deps).2.2
    | @step installer w w' before s h hb hs =>
      have hf := step_follows hs
      have hwrite := step_ready hs hr
      have hdir : s.dir p = before.dir p := congrArg p.envDir hf.name
      rw [← hdir, ← hf.metadata] at hwrite
      exact Metadata.read_write (hmetadata ▸ hdate) hwrite hk
  exact ⟨hname, congrArg Metadata.name hmetadata, congrArg Metadata.sources hmetadata,
    by rw [context, hmetadata]; rfl, congrArg Metadata.createdAt hmetadata, hread⟩

/-- Alone, a provisioning is brought on to its end. -/
theorem drive_brought (fuel : Nat) (hb : Brought p name deps date s w.host) :
    Brought p name deps date (drive p installer fuel w s).1
      (drive p installer fuel w s).2.host := by
  induction fuel generalizing w s with
  | zero => exact hb
  | succ fuel ih =>
    unfold drive
    split
    next s' w' hs => exact ih (hb.step hs)
    next moment _ => exact ih hb
    next => exact hb

theorem run_brought {c : Context}
    (hrun : run p installer w name deps = (some (.ok c), w')) :
    ∃ s, Brought p name deps w.date s w'.host ∧ s.stage = .ready ∧ c = s.context p := by
  have hb : Brought p name deps w.date _ _ :=
    @drive_brought p installer name deps w.date _ _ (bound deps.length) (.start rfl)
  rw [run_eq] at hrun
  obtain ⟨hverdict, rfl⟩ := Prod.mk.inj hrun
  refine ⟨_, hb, ?_⟩
  unfold verdict at hverdict
  split at hverdict
  next hr =>
    cases hverdict
    exact ⟨hr, rfl⟩
  next => cases hverdict
  next => cases hverdict

/-- Every provisioning that ends well leaves the record of its context, unless the path of the
record leads to a device: whatever was declared, whoever installs it, and whatever others do
meanwhile. -/
theorem record_faithful (p : Provisioner) (name : String) (deps : List Dependency)
    {date : Timestamp} (hdate : date.OnCalendar) :
    (∀ s h, Brought p name deps date s h → s.stage = .ready →
      (s.context p).Recorded name deps date h) ∧
    ∀ (installer : Installer) (w w' : World) (c : Context), w.date = date →
      run p installer w name deps = (some (.ok c), w') → c.Recorded name deps date w'.host := by
  refine ⟨fun s h hb hr => hb.recorded hdate hr, fun installer w w' c hw hrun => ?_⟩
  subst hw
  obtain ⟨s, hb, hr, rfl⟩ := run_brought hrun
  exact hb.recorded hdate hr

open Host (Tree)

/-- In the place of a context that was left. -/
theorem record_faithful_stale :
    let deps := [.package "x" "X >= 1", .manifest ⟨"reqs.txt"⟩]
    ∃ c w', run (rootSite false) traceless (World.start ⟨staleTree, [], []⟩) "a" deps =
        (some (.ok c), w') ∧ c.Recorded "a" deps .epoch w'.host ∧
      Metadata.read w'.host c.dir = .ok c.metadata := by
  intro deps
  let w := World.start ⟨staleTree, [], []⟩
  have hdate : Timestamp.epoch.OnCalendar :=
    ⟨by decide, by decide, by decide, by decide, by decide, by decide, by decide⟩
  have hg : Ground (rootSite false) w.host [".envrun"] ["a"] staleTree :=
    ground_rootSite false (by decide) (by decide) fun name hn =>
      List.mem_singleton.1 hn ▸ .inr (by decide)
  let laid := w.host.laidOut staleTree [".envrun", "a"]
  have hl : LaysOut (rootSite false) traceless w "a" deps laid := laysOut_of_ground hg rfl
  have ha : Accepted (rootSite false) traceless ⟨"a", (rootSite false).envDir "a", ⟨"/"⟩⟩
      (Dependency.resolve deps) laid laid :=
    .cons nofun rfl (.cons nofun rfl (.nil _))
  obtain ⟨left, hb⟩ := Host.behind_of_found (hg.leads laid.tree (alike_layout (by simp) _))
  have hname := hg.named "a" (by simp)
  have hdir : laid.tree.get? ([".envrun"] ++ ["a"]) = some .directory := by decide
  have hfree : laid.tree.get? ([".envrun"] ++ ["a"] ++ [Metadata.fileName]) = none := by decide
  have hwrite := hb.write_below_free hname isName_record hdir hfree
    (Text.encode (Metadata.ofDeclared "a" deps .epoch).text)
  obtain ⟨w', hw, hrun⟩ := run_ready hl ha (Host.write_ok hwrite)
  have hrecorded := (record_faithful (rootSite false) "a" deps hdate).2 _ _ _ _ rfl hrun
  refine ⟨_, w', hrun, hrecorded, hrecorded.read ?_⟩
  have hadmits : (laid.tree.follow true w.host.cwd
      (((rootSite false).workDir.join "a").join Metadata.fileName).text).Admits
        ([".envrun"] ++ ["a"] ++ [Metadata.fileName]) := by
    rw [hb.follow_below_free hname isName_record hdir hfree]
    exact ⟨rfl, rfl⟩
  rw [hw.host]
  exact Tree.keeps_set hadmits

/-! ### A record that leads to a device -/

/-- The way to the contexts goes through a directory that may have to be made. -/
def detour : Provisioner := ⟨⟨"x/.."⟩, ⟨"/"⟩, false, [0]⟩

/-- A context that somebody left, with a link in the place of its record. -/
def linkedTree : Tree :=
  ⟨[(["dev"], .directory), (["dev", "null"], .file .sink 0o666), (["py36"], .directory),
    (["py36", Metadata.fileName], .link "/dev/null")]⟩

def detourTree : Tree := linkedTree.set ["x"] .directory

theorem makeDirs_detour : Tree.makeDirs 3 linkedTree [] "x/../py36" = .ok detourTree := by
  have h₁ : Tree.makeDirs 1 linkedTree [] "x" = .ok detourTree := by
    rw [Tree.makeDirs, Tree.makeDir, Tree.follow_names (by decide) (by decide) (by decide)]
    cbv
  have h₂ : Tree.makeDirs 2 linkedTree [] "x/.." = .ok detourTree := by
    refine Host.makeDirs_up (by decide) (by decide) ?_ h₁
      (@Host.ensureDir_here _ _ [] _ fun fl => ?_)
    · rw [Tree.makeDir, Tree.follow_names (by decide) (by decide) (by decide)]
      cbv
    · rw [Tree.follow_names (by decide) (by decide) (by decide)]
      cases fl <;> cbv
  refine Host.makeDirs_up (by decide) (by decide) ?_ h₂
    (@Host.ensureDir_here _ _ ["py36"] _ fun fl => ?_)
  · rw [Tree.makeDir, Tree.follow_names (by decide) (by decide) (by decide)]
    cbv
  · rw [Tree.follow_names (by decide) (by decide) (by decide)]
    cases fl <;> cbv

/-- The record was written without trouble, and nothing is read of it. -/
theorem run_detour :
    ∃ c w', run detour traceless (World.start ⟨linkedTree, [], []⟩) "py36" [] =
        (some (.ok c), w') ∧ Metadata.read w'.host c.dir = .error .metadata := by
  let bare : Host := ⟨linkedTree, [], []⟩
  let t₁ := detourTree.set ["py36", "bin"] .directory
  let t₂ := t₁.set ["py36", "tmp"] .directory
  have hdir : detour.envDir "py36" = ⟨"x/../py36"⟩ := by decide
  -- the old context is not found while the way to it is not there
  have hfollow (fl : Bool) : linkedTree.follow fl [] "x/../py36" = .failed .notFound := by
    rw [Tree.follow_names (by decide) (by decide) (by decide)]
    cases fl <;> cbv
  have hmissing : bare.removeTree (detour.envDir "py36") = .error ⟨.notFound, bare⟩ := by
    rw [hdir, Host.removeTree, Tree.removeTree, Tree.lstat, hfollow, Host.withTree_error]
  have hclear : (if bare.exists? (detour.envDir "py36") then
      bare.without (detour.envDir "py36") else bare) = bare := by
    have hexists : bare.exists? (detour.envDir "py36") = false := by
      rw [hdir, Host.exists?, Tree.exists?, Tree.stat, hfollow]
      rfl
    rw [hexists, if_neg Bool.false_ne_true]
  have hbin : bare.makeDirAll ((detour.envDir "py36").join "bin") = .ok ⟨t₁, [], []⟩ := by
    have hpath : (detour.envDir "py36").join "bin" = ⟨"x/../py36/bin"⟩ := by decide
    have hmake : Tree.makeDirs 4 linkedTree [] "x/../py36/bin" = .ok t₁ := by
      refine Host.makeDirs_up (by decide) (by decide) ?_ makeDirs_detour
        (Host.ensureDir_of_makeDir ?_)
      all_goals
        rw [Tree.makeDir, Tree.follow_names (by decide) (by decide) (by decide)]
        cbv
    rw [hpath, Host.makeDirAll, Tree.makeDirAll, Tree.makeDirs_mono (by decide) hmake,
      Host.withTree_ok]
  have htmp : Host.makeDirAll ⟨t₁, [], []⟩ ((detour.envDir "py36").join "tmp") =
      .ok ⟨t₂, [], []⟩ := by
    have hpath : (detour.envDir "py36").join "tmp" = ⟨"x/../py36/tmp"⟩ := by decide
    have hmake : Tree.makeDirs 1 t₁ [] "x/../py36/tmp" = .ok t₂ := by
      rw [Tree.makeDirs, Tree.makeDir, Tree.follow_names (by decide) (by decide) (by decide)]
      cbv
    rw [hpath, Host.makeDirAll, Tree.makeDirAll, Tree.makeDirs_mono (by decide) hmake,
      Host.withTree_ok]
  have hrecord : Metadata.path (detour.envDir "py36") = ⟨"x/../py36/.envrun-env.json"⟩ := by decide
  have hdevice : t₂.bodyOf [] "x/../py36/.envrun-env.json" = .ok .sink := by
    rw [Tree.bodyOf, Tree.stat, Tree.follow_names (by decide) (by decide) (by decide)]
    cbv
  have hwrite (data : List UInt8) :
      Host.write ⟨t₂, [], []⟩ (Metadata.path (detour.envDir "py36")) data = .ok ⟨t₂, [], []⟩ := by
    rw [hrecord]
    exact Host.write_ok (Tree.write_device hdevice (.inr rfl) data)
  have hl : LaysOut detour traceless (World.start bare) "py36" [] ⟨t₂, [], []⟩ :=
    laysOut rfl (.inr ⟨_, hmissing⟩) hclear hbin htmp
  obtain ⟨w', hw, hrun⟩ := run_ready hl (.nil _) (hwrite _)
  have hread : Host.read ⟨t₂, [], []⟩ (Metadata.path (detour.envDir "py36")) = .ok [] := by
    rw [hrecord, Host.read, Tree.read, hdevice]
    rfl
  refine ⟨_, w', hrun, ?_⟩
  rw [laid_dir]
  unfold Metadata.read
  rw [hw.host, hread]
  rfl

end Provisioning

end Testbed
