import Testbed.Proofs.Run.Isolation

/-! Entries added to allow-lists. They never make a configuration unreadable, and they change
nothing about a command but where its program is looked for: in the system instead of the context,
when they admit the command and nothing did before. So a program of the context is lost to them just
when it is none of the system too. -/
namespace Testbed

namespace Config

/-! ### Merging -/

/-- A table with more in its allow-list. -/
structure EnvTable.Grows (t t' : EnvTable) : Prop where
  allowlist : t.allowlist ⊆ t'.allowlist
  rest : t' = { t with allowlist := t'.allowlist }

/-- Only what was added to the allow-lists lets a command that declares the program use an external
one. -/
def NewlyAllowed (base own base' own' : EnvTable) (entry : CommandEntry) (program : String) : Prop :=
  ¬ Allowed base own entry program ∧ Allowed base' own' entry program

/-- The environment under another allow-list. -/
def allowing (allowlist : List String) (spec : EnvSpec) : EnvSpec :=
  { spec with
    allowlist := allowlist
    commands := spec.commands.map (markExternal allowlist) }

theorem isAllowlisted_of_subset {entries entries' : List String} (h : entries ⊆ entries')
    {program : String} (ha : isAllowlisted entries program = true) :
    isAllowlisted entries' program = true := by
  obtain ⟨entry, hentry, hadmits⟩ := List.any_eq_true.1 ha
  exact List.any_eq_true.2 ⟨entry, h hentry, hadmits⟩

/-- What fewer entries admit need not be asked for first. -/
theorem markExternal_markExternal {entries entries' : List String} (h : entries ⊆ entries')
    (c : Command) : markExternal entries' (markExternal entries c) = markExternal entries' c := by
  by_cases ha : isAllowlisted entries c.program = true
  · have ha' := isAllowlisted_of_subset h ha
    have hprogram : { c with external := true }.program = c.program := rfl
    simp only [markExternal, ha, ha', hprogram, if_true]
  · rw [markExternal.eq_1 entries, if_neg ha]

theorem markExternal_eq (entries : List String) (c : Command) :
    markExternal entries c = { c with external := (markExternal entries c).external } := by
  unfold markExternal
  split <;> rfl

theorem readLayer_allowlist (table : String) (t : EnvTable) (entries : List String) :
    readLayer table { t with allowlist := entries } =
      (readLayer table t).map fun l => { l with allowlist := entries } := by
  unfold readLayer
  dsimp only
  cases t.deps.mapM (readDep table) with
  | error e => rfl
  | ok deps =>
    cases t.commands.mapM (readCommand table) with
    | error e => rfl
    | ok commands => rfl

theorem readBase_allowlist (t : EnvTable) (entries : List String) :
    readBase { t with allowlist := entries } =
      (readBase t).map fun l => { l with allowlist := entries } := by
  unfold readBase
  dsimp only
  split
  · rfl
  · exact readLayer_allowlist "default" t entries

theorem finalize_allowlist (spec : EnvSpec) {entries : List String} (h : spec.allowlist ⊆ entries) :
    finalize { spec with allowlist := entries } = (finalize spec).map (allowing entries) := by
  have hcheck : checkRequires { spec with allowlist := entries } = checkRequires spec := rfl
  unfold finalize
  dsimp only
  rw [hcheck]
  cases spec.commands.forM (checkRequires spec) with
  | error e => rfl
  | ok _ =>
    have hmarks := funext (markExternal_markExternal h)
    simp only [bind, Except.bind, Except.map, allowing, List.map_map, Function.comp_def, hmarks]

theorem foldl_addNew_subset {entries entries' own own' : List String} (h : entries ⊆ entries')
    (ho : own ⊆ own') : own.foldl addNew entries ⊆ own'.foldl addNew entries' := by
  intro entry hmem
  rw [mem_foldl_addNew, List.mem_append] at hmem ⊢
  exact hmem.imp (@h entry) (@ho entry)

/-- More in the allow-lists changes the allow-list of what is merged and, with it, which commands are
external; a table that is refused stays refused, for the same reason. -/
theorem mergeTables_grows {base base' own own' : EnvTable} (hb : base.Grows base')
    (ho : own.Grows own') (name : String) : mergeTables base' own' name =
      (mergeTables base own name).map (allowing (own'.allowlist.foldl addNew base'.allowlist)) := by
  rw [hb.rest, ho.rest]
  dsimp only
  unfold mergeTables
  rw [readBase_allowlist]
  cases hbase : readBase base with
  | error e => rfl
  | ok lb =>
    have hlb : lb.allowlist = base.allowlist := by rw [(readBase_ok_iff.1 hbase).2.rest]
    simp only [Except.map, bind, Except.bind, mergeEnv, readLayer_allowlist]
    cases hown : readLayer ("env." ++ name) own with
    | error e => rfl
    | ok lo =>
      have hlo : lo.allowlist = own.allowlist := by rw [(readLayer_ok_iff.1 hown).rest]
      refine finalize_allowlist (overlay lb lo name) ?_
      exact foldl_addNew_subset (hlb ▸ hb.allowlist) (hlo ▸ ho.allowlist)

end Config

/-! ### Looking for programs -/

/-- Facilities that look for programs in the ambient system and in contexts. -/
structure Facilities.Looks (f : Facilities) : Prop where
  ambient : f.ambient.resolve = Lookup.ambient
  isolated : f.isolated.resolve = Lookup.isolated

namespace Task

variable {f : Facilities} {h : Host} {ctx : Context} {command : Command} {path : Path}
  {program : String} {args : List String}

theorem locate_of_expand
    (hargv : Placeholders.expand ctx f.posargs command.argv = program :: args) :
    locate f h ctx command = ((executableFor f command.external).resolve h ctx program).map
      fun path => (path, program, args) := by
  rw [locate, hargv]

/-- A command that may use an external program is found where the ambient system has it. -/
theorem locate_ambient_iff (hf : f.Looks) (he : command.external = true)
    (hargv : Placeholders.expand ctx f.posargs command.argv = program :: args) (path : Path) :
    locate f h ctx command = .ok (path, program, args) ↔ Lookup.Provides h ctx program path := by
  rw [locate_of_expand hargv, executableFor, if_pos he, hf.ambient, ← Lookup.ambient_ok_iff]
  cases Lookup.ambient h ctx program <;> simp [Except.map]

theorem locate_ambient_error_iff (hf : f.Looks) (he : command.external = true)
    (hargv : Placeholders.expand ctx f.posargs command.argv = program :: args) (e : CommandError) :
    locate f h ctx command = .error e ↔ e = .notFound program (Lookup.ambientHint program) ∧
      ∀ path, ¬ Lookup.Provides h ctx program path := by
  rw [locate_of_expand hargv, executableFor, if_pos he, hf.ambient, ← Lookup.ambient_error_iff]
  cases Lookup.ambient h ctx program <;> simp [Except.map]

/-- What becomes of a command when entries are added to the allow-lists; `newly` says that only
those admit it. -/
structure Relists (f : Facilities) (h : Host) (ctx : Context) (newly : Prop)
    (command command' : Command) : Prop where
  kept : ¬ newly → locate f h ctx command' = locate f h ctx command
  moved : newly → ∀ program args, Placeholders.expand ctx f.posargs command.argv = program :: args →
    ∀ path, locate f h ctx command' = .ok (path, program, args) ↔ Lookup.Provides h ctx program path
  lost : ∀ path program args, locate f h ctx command = .ok (path, program, args) →
    ∀ e, locate f h ctx command' = .error e ↔
      newly ∧ e = .notFound program (Lookup.ambientHint program) ∧
        ∀ path', ¬ Lookup.Provides h ctx program path'
  absolute : ∀ path program args, locate f h ctx command = .ok (path, program, args) →
    Path.isAbsolute ⟨program⟩ = true → locate f h ctx command' = .ok (path, program, args)

theorem relists_of_not {newly : Prop} (hnot : ¬ newly) : Relists f h ctx newly command command where
  kept _ := rfl
  moved hnewly := absurd hnewly hnot
  lost path program args hl e := by
    rw [hl]
    exact iff_of_false nofun fun hnewly => hnot hnewly.1
  absolute path program args hl _ := hl

theorem relists_of_newly {newly : Prop} {command' : Command} (hf : f.Looks) (hnewly : newly)
    (he : command.external = false) (he' : command'.external = true)
    (hsame : command'.argv = command.argv) : Relists f h ctx newly command command' where
  kept hnot := absurd hnewly hnot
  moved _ program args hargv path := locate_ambient_iff hf he' (hsame ▸ hargv) path
  lost path program args hl e := by
    rw [and_iff_right hnewly]
    exact locate_ambient_error_iff hf he' (hsame ▸ (eq_of_locate hl).1) e
  absolute path program args hl habs := by
    obtain ⟨hargv, hr⟩ := eq_of_locate hl
    rw [he, executableFor, if_neg Bool.false_ne_true, hf.isolated] at hr
    exact (locate_ambient_iff hf he' (hsame ▸ hargv) path).2 (Lookup.provides_of_isolated hr habs)

end Task

namespace Run

open Config (EnvTable NewlyAllowed mergeTables)

/-- An environment before and after entries are added to the allow-lists of its tables. -/
structure Widens (base own base' own' : EnvTable) (spec spec' : EnvSpec) : Prop where
  rest : spec' = { spec with allowlist := spec'.allowlist, commands := spec'.commands }
  allowlist : ∀ entry, entry ∈ spec'.allowlist ↔ entry ∈ base'.allowlist ++ own'.allowlist
  length : spec'.commands.length = spec.commands.length
  commands : ∀ (i : Nat) (command : Command), spec.commands[i]? = some command →
    ∃ entry command', (base.commands ++ own.commands)[i]? = some entry ∧
      spec'.commands[i]? = some command' ∧
      command' = { command with external := command'.external } ∧
      ∀ (f : Facilities) (h : Host) (ctx : Context), f.Looks → Task.Relists f h ctx
        (NewlyAllowed base own base' own' entry command.program) command command'

theorem isAllowlisted_foldl_iff {entries own : List String} {program : String} :
    Config.isAllowlisted (own.foldl Config.addNew entries) program = true ↔
      ∃ allowed ∈ entries ++ own, Config.Admits allowed program := by
  rw [Config.isAllowlisted, List.any_eq_true]
  simp only [Config.mem_foldl_addNew, Config.admits_iff]

theorem relists_markExternal {base own base' own' : EnvTable} {entry : Config.CommandEntry}
    {command : Command} {f : Facilities} (hf : f.Looks)
    (hbefore : command.external = true ↔ Config.Allowed base own entry command.program) (h : Host)
    (ctx : Context) :
    Task.Relists f h ctx (NewlyAllowed base own base' own' entry command.program) command
      (Config.markExternal (own'.allowlist.foldl Config.addNew base'.allowlist) command) := by
  unfold Config.markExternal
  by_cases hnewly : NewlyAllowed base own base' own' entry command.program
  · have hinternal : command.external = false :=
      Bool.eq_false_iff.2 fun he => hnewly.1 (hbefore.1 he)
    rcases hnewly.2 with hentry | hadmits
    · exact absurd (.inl hentry) hnewly.1
    · rw [if_pos (isAllowlisted_foldl_iff.2 hadmits)]
      exact Task.relists_of_newly hf hnewly hinternal rfl rfl
  · split
    next hadmits =>
      have hallowed : Config.Allowed base own entry command.program :=
        Classical.not_not.1 fun hnot => hnewly ⟨hnot, .inr (isAllowlisted_foldl_iff.1 hadmits)⟩
      have hsame : { command with external := true } = command := by rw [← hbefore.2 hallowed]
      rw [hsame]
      exact Task.relists_of_not hnewly
    next => exact Task.relists_of_not hnewly

/-- Entries that are added to allow-lists leave every error as it is, and every command but those
that only they admit. -/
theorem relists {base own base' own' : EnvTable} (hb : base.Grows base') (ho : own.Grows own')
    (name : String) :
    (∀ e, mergeTables base' own' name = .error e ↔ mergeTables base own name = .error e) ∧
    ∀ spec, mergeTables base own name = .ok spec →
      ∃ spec', mergeTables base' own' name = .ok spec' ∧ Widens base own base' own' spec spec' := by
  rw [Config.mergeTables_grows hb ho]
  constructor
  · intro e
    cases mergeTables base own name <;> simp [Except.map]
  · intro spec hspec
    have hmerges := Config.merges_of_mergeTables hspec
    rw [hspec]
    refine ⟨_, rfl, rfl, fun entry => Config.mem_foldl_addNew, by simp [Config.allowing], ?_⟩
    intro i command hcommand
    obtain ⟨entry, hentry, -, hexternal⟩ := Config.getElem?_of_forall₂ hmerges.commands hcommand
    refine ⟨entry, _, hentry, ?_, Config.markExternal_eq _ command,
      fun f h ctx hf => relists_markExternal hf (hmerges.external_iff hexternal) h ctx⟩
    rw [Config.allowing, List.getElem?_map, hcommand, Option.map_some]

/-- One program is installed and asked for, and there is no allow-list. -/
def unlisted : EnvTable :=
  ⟨some "a", none, ["tool"], [⟨.line "tool", false, []⟩], [], [], none, none, none⟩

/-- The same with an allow-list for everything. -/
def listed : EnvTable := { unlisted with allowlist := ["*"] }

def unlistedSpec : EnvSpec :=
  ⟨"a", none, [.package "tool" "tool"], [⟨["tool"], false, []⟩], [], [], none, false, 0⟩

def listedSpec : EnvSpec :=
  { unlistedSpec with commands := [⟨["tool"], true, []⟩], allowlist := ["*"] }

def toolContext : Context :=
  ⟨"a", ⟨"/.envrun/a"⟩, ⟨"/"⟩, false, .ofDeclared "a" [] .epoch, ⟨"a", 0, true⟩⟩

def looking : Facilities :=
  ⟨provisioner toolbox ⟨none, none, none, []⟩, Rehearsal.installer [], .ambient .idle,
    .isolated .idle, []⟩

theorem locate_tool {h : Host} (hexec : h.isExecutable ⟨"/.envrun/a/bin/tool"⟩ = true) :
    Task.locate looking h toolContext ⟨["tool"], false, []⟩ =
      .ok (⟨"/.envrun/a/bin/tool"⟩, "tool", []) := by
  have hexpand : Placeholders.expand toolContext looking.posargs ["tool"] = ["tool"] := rfl
  have hbin : toolContext.binDir.join "tool" = ⟨"/.envrun/a/bin/tool"⟩ := by decide
  have hpath : Lookup.isPathLike "tool" = false := rfl
  have hresolve : Lookup.isolated h toolContext "tool" = .ok ⟨"/.envrun/a/bin/tool"⟩ := by
    rw [Lookup.isolated_eq_ok, Lookup.isolated?, hpath, if_neg Bool.false_ne_true, hbin,
      Lookup.usable, hexec]
    rfl
  rw [Task.locate_of_expand hexpand, Task.executableFor, if_neg Bool.false_ne_true]
  exact congrArg (Except.map _) hresolve

/-- A program of the context is not found any more when the allow-list admits it and it is nowhere
on the search path. -/
theorem listed_loses_tool : EnvTable.empty.Grows .empty ∧ unlisted.Grows listed ∧
    mergeTables .empty unlisted "a" = .ok unlistedSpec ∧
    mergeTables .empty listed "a" = .ok listedSpec ∧
    ∃ command command', unlistedSpec.commands = [command] ∧ listedSpec.commands = [command'] ∧
      Task.locate looking ⟨toolTree, [], []⟩ toolContext command =
        .ok (toolContext.binDir.join "tool", "tool", []) ∧
      Task.locate looking ⟨toolTree, [], []⟩ toolContext command' =
        .error (.notFound "tool" (Lookup.ambientHint "tool")) :=
  ⟨⟨List.Subset.refl _, rfl⟩, ⟨List.nil_subset _, rfl⟩, rfl, rfl, _, _, rfl, rfl,
    locate_tool isExecutable_tool, rfl⟩

/-- The files of the context, and a program of the same name in the system. -/
def twoTools : Host.Tree :=
  ⟨toolTree.entries ++ [(["bin"], .directory), (["bin", "tool"], .file (.tool "tool") 0o755)]⟩

theorem isExecutable_twoTools (vars : Vars) :
    Host.isExecutable ⟨twoTools, vars, []⟩ ⟨"/.envrun/a/bin/tool"⟩ = true ∧
      Host.isExecutable ⟨twoTools, vars, []⟩ ⟨"/bin/tool"⟩ = true := by
  have hinside : twoTools.follow true [] "/.envrun/a/bin/tool" =
      twoTools.walk true Host.Tree.maxLinks [] ["", ".envrun", "a", "bin", "tool"] := rfl
  have houtside : twoTools.follow true [] "/bin/tool" =
      twoTools.walk true Host.Tree.maxLinks [] ["", "bin", "tool"] := rfl
  simp only [Host.isExecutable, Host.Tree.isExecutable, Host.Tree.stat, hinside, houtside]
  constructor <;> cbv

theorem relists_listed :
    let command : Command := ⟨["tool"], false, []⟩
    let h : Host := ⟨twoTools, [("PATH", "/bin")], []⟩
    let h' : Host := ⟨twoTools, [], []⟩
    ∃ command', listedSpec.commands = [command'] ∧
      Task.locate looking h toolContext command = .ok (⟨"/.envrun/a/bin/tool"⟩, "tool", []) ∧
      Task.locate looking h toolContext command' = .ok (⟨"/bin/tool"⟩, "tool", []) ∧
      Task.locate looking h' toolContext command = .ok (⟨"/.envrun/a/bin/tool"⟩, "tool", []) ∧
      Task.locate looking h' toolContext command' =
        .error (.notFound "tool" (Lookup.ambientHint "tool")) := by
  intro command h h'
  have hb : EnvTable.empty.Grows .empty := ⟨List.Subset.refl _, rfl⟩
  have ho : unlisted.Grows listed := ⟨List.nil_subset _, rfl⟩
  obtain ⟨spec', hmerged, hwidens⟩ := (relists hb ho "a").2 unlistedSpec rfl
  obtain rfl : listedSpec = spec' := Except.ok.inj hmerged
  obtain ⟨entry, command', hentry, hcommand', -, hrelists⟩ := hwidens.commands 0 command rfl
  obtain rfl := Option.some.inj hentry
  have hnewly : NewlyAllowed .empty unlisted .empty listed ⟨.line "tool", false, []⟩
      command.program := by
    simp [NewlyAllowed, Config.Allowed, EnvTable.empty, unlisted, listed, Config.Admits]
  have hbefore := locate_tool (isExecutable_twoTools h.vars).1
  have hbefore' := locate_tool (isExecutable_twoTools []).1
  refine ⟨command', by rw [Option.some.inj hcommand'.symm]; rfl, hbefore, ?_, hbefore', ?_⟩
  · have hprovides : Lookup.Provides h toolContext "tool" ⟨"/bin/tool"⟩ :=
      ⟨Host.isExecutable_iff.1 (isExecutable_twoTools h.vars).2, .inr ⟨by decide, "/bin", [],
        ⟨"/bin"⟩, [], rfl, by decide, by decide, List.forall_mem_nil _⟩⟩
    exact ((hrelists looking h toolContext ⟨rfl, rfl⟩).moved hnewly "tool" [] rfl _).2 hprovides
  · exact ((hrelists looking h' toolContext ⟨rfl, rfl⟩).lost _ "tool" [] hbefore' _).2
      ⟨hnewly, rfl, Lookup.not_provides_of_unset (by decide) rfl⟩

end Run

end Testbed
