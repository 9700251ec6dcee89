import Testbed.Proofs.Config.Names

/-! Configurations that are refused for a requirement. Of all the checks only one is about what a
command requires, the one that is made of an environment once it is merged. So a refusal of that
kind goes back to one entry of the tables, of the environment that it names or of the base, and it
names the command of that entry by its display. -/
namespace Testbed.Config

/-! ### How attempts fail -/

/-- An attempt fails, if it does, with an error of some kind. -/
def FailsAs {α : Type} (kind : Error → Prop) (x : Except Error α) : Prop :=
  ∀ e, x = .error e → kind e

section

variable {α β : Type} {kind : Error → Prop} {x : Except Error α} {g : α → Except Error β}

theorem failsAs_ok (a : α) : FailsAs kind (.ok a : Except Error α) := nofun

theorem failsAs_error {e : Error} (h : kind e) : FailsAs kind (.error e : Except Error α) := by
  rintro _ ⟨⟩
  exact h

theorem FailsAs.imp {kind' : Error → Prop} (hx : FailsAs kind x) (h : ∀ e, kind e → kind' e) :
    FailsAs kind' x := fun e he => h e (hx e he)

theorem FailsAs.bind (hx : FailsAs kind x) (hg : ∀ a, x = .ok a → FailsAs kind (g a)) :
    FailsAs kind (x >>= g) := by
  cases x with
  | error e =>
    rintro _ ⟨⟩
    exact hx e rfl
  | ok a => exact hg a rfl

theorem failsAs_mapM {xs : List α} (h : ∀ a ∈ xs, FailsAs kind (g a)) :
    FailsAs kind (xs.mapM g) := by
  induction xs with
  | nil => exact failsAs_ok []
  | cons a xs ih =>
    rw [List.forall_mem_cons] at h
    rw [List.mapM_cons]
    exact h.1.bind fun b _ => (ih h.2).bind fun bs _ => failsAs_ok (b :: bs)

theorem failsAs_forM {xs : List α} {check : α → Except Error Unit}
    (h : ∀ a ∈ xs, FailsAs kind (check a)) : FailsAs kind (xs.forM check) := by
  induction xs with
  | nil => exact failsAs_ok ()
  | cons a xs ih =>
    rw [List.forall_mem_cons] at h
    have hcons : (a :: xs).forM check = (check a >>= fun _ => xs.forM check) := rfl
    rw [hcons]
    exact h.1.bind fun _ _ => ih h.2

end

/-! ### What is refused for other reasons -/

/-- An error that is not about what a command requires. -/
def Error.Unrelated (e : Error) : Prop :=
  ∀ env line reference, e ≠ .unknownReference env line reference

theorem unrelated_invalid (fault : Fault) : (Error.invalid fault).Unrelated := nofun

theorem unrelated_duplicate (name : String) : (Error.duplicateEnvironment name).Unrelated := nofun

theorem readLayer_failsAs (table : String) (t : EnvTable) :
    FailsAs Error.Unrelated (readLayer table t) := by
  have hdep (raw : String) : FailsAs Error.Unrelated (readDep table raw) := by
    unfold readDep
    split
    · exact failsAs_ok _
    · exact failsAs_error (unrelated_invalid _)
  have hargv (run : Run) : FailsAs Error.Unrelated (argvOf table run) := by
    unfold argvOf
    split
    · exact failsAs_ok _
    · split
      · exact failsAs_ok _
      · exact failsAs_error (unrelated_invalid _)
  have hcommand (entry : CommandEntry) : FailsAs Error.Unrelated (readCommand table entry) := by
    refine (hargv entry.run).bind fun argv _ => ?_
    split
    · exact failsAs_error (unrelated_invalid _)
    · exact failsAs_ok _
  exact (failsAs_mapM fun raw _ => hdep raw).bind fun deps _ =>
    (failsAs_mapM fun entry _ => hcommand entry).bind fun commands _ => failsAs_ok _

theorem readBase_failsAs (t : EnvTable) : FailsAs Error.Unrelated (readBase t) := by
  unfold readBase
  split
  · exact failsAs_error (unrelated_invalid _)
  · exact readLayer_failsAs "default" t

theorem resolveSettings_failsAs (root : Path) (t : SettingsTable) :
    FailsAs Error.Unrelated (resolveSettings root t) := by
  unfold resolveSettings
  dsimp only
  split
  · exact failsAs_error (unrelated_invalid _)
  · split
    · exact failsAs_error (unrelated_invalid _)
    · split
      · exact failsAs_error (unrelated_invalid _)
      · exact failsAs_ok _

theorem checkName_failsAs (name : String) : FailsAs Error.Unrelated (checkName name) := by
  unfold checkName
  split
  · exact failsAs_error (unrelated_invalid _)
  · split
    · exact failsAs_ok _
    · exact failsAs_error (unrelated_invalid _)

theorem checkEnvlist_failsAs (declared : List String) (envlist : Option (List String)) :
    FailsAs Error.Unrelated (checkEnvlist declared envlist) := by
  unfold checkEnvlist
  split
  · exact failsAs_error (unrelated_invalid _)
  · exact failsAs_ok _

/-! ### What is refused for a requirement -/

/-- A command of the environment requires what no source of it declares, and the error says so. -/
def EnvSpec.Unmet (spec : EnvSpec) (e : Error) : Prop :=
  ∃ command ∈ spec.commands, ∃ reference ∈ command.requires,
    reference ∉ declaredNames spec.deps ∧ e = .unknownReference spec.name command.display reference

theorem finalize_failsAs (spec : EnvSpec) : FailsAs (EnvSpec.Unmet spec) (finalize spec) := by
  have hcheck : ∀ command ∈ spec.commands,
      FailsAs (EnvSpec.Unmet spec) (checkRequires spec command) := by
    intro command hcommand
    unfold checkRequires
    split
    next reference h =>
      have hmissing : reference ∉ declaredNames spec.deps := by simpa using List.find?_some h
      exact failsAs_error
        ⟨command, hcommand, reference, List.mem_of_find?_eq_some h, hmissing, rfl⟩
    next => exact failsAs_ok ()
  exact (failsAs_forM hcheck).bind fun _ _ => failsAs_ok _

/-- Apart from errors of other kinds, an environment table is refused for a command of its own or of
the base. -/
def EnvTable.Blamed (base : Layer) (t : EnvTable) (e : Error) : Prop :=
  ∃ name own, t.name = some name ∧ t.Reads own ∧ EnvSpec.Unmet (overlay base own name) e

theorem mergeEnv_failsAs {base : Layer} {name : String} {t : EnvTable} (hn : t.name = some name) :
    FailsAs (fun e => e.Unrelated ∨ t.Blamed base e) (mergeEnv base name t) := by
  refine ((readLayer_failsAs _ t).imp fun e he => .inl he).bind fun own hown => ?_
  exact (finalize_failsAs _).imp fun e he => .inr ⟨name, own, hn, readLayer_ok_iff.1 hown, he⟩

theorem mergeEnvs_failsAs (base : Layer) (position : Nat) (seen : List String)
    (ts : List EnvTable) : FailsAs (fun e => e.Unrelated ∨ ∃ t ∈ ts, t.Blamed base e)
      (mergeEnvs base position seen ts) := by
  induction ts generalizing position seen with
  | nil => exact failsAs_ok []
  | cons t rest ih =>
    unfold mergeEnvs
    cases hn : t.name with
    | none => exact failsAs_error (.inl (unrelated_invalid _))
    | some name =>
      have hok : FailsAs (fun e => e.Unrelated ∨ ∃ t' ∈ t :: rest, t'.Blamed base e)
        (Except.ok name : Except Error String) := failsAs_ok name
      refine hok.bind fun name' hname => ?_
      cases hname
      refine ((checkName_failsAs name).imp fun e he => .inl he).bind fun _ _ => ?_
      dsimp only
      split
      · have hduplicate : FailsAs (fun e => e.Unrelated ∨ ∃ t' ∈ t :: rest, t'.Blamed base e)
          (Except.error (.duplicateEnvironment name) : Except Error PUnit) :=
          failsAs_error (.inl (unrelated_duplicate name))
        exact hduplicate.bind fun _ h => by cases h
      · refine ((mergeEnv_failsAs hn).imp fun e he =>
          he.imp_right fun hb => ⟨t, List.mem_cons_self, hb⟩).bind fun spec _ => ?_
        refine ((ih _ _).imp fun e he => he.imp_right ?_).bind fun specs _ => failsAs_ok _
        rintro ⟨t', ht', hb⟩
        exact ⟨t', List.mem_cons_of_mem _ ht', hb⟩

/-! ### Files -/

/-- A command of an environment, its own or of the base, which requires what it is blamed for. -/
def File.Blames (file : File) (env reference : String) (argv : List String) : Prop :=
  ∃ own ∈ file.envs, own.name = some env ∧ ∃ entry ∈ file.base.commands ++ own.commands,
    entry.run.Means argv ∧ reference ∈ entry.requires.map Dependency.normalizeName

theorem ofFile_failsAs (root : Path) (file : File) : FailsAs (fun e => e.Unrelated ∨
    ∃ base, file.base.Reads base ∧ ∃ t ∈ file.envs, t.Blamed base e) (ofFile root file) := by
  unfold ofFile
  refine ((resolveSettings_failsAs _ _).imp fun e he => .inl he).bind fun settings _ => ?_
  refine ((readBase_failsAs _).imp fun e he => .inl he).bind fun base hbase => ?_
  refine ((mergeEnvs_failsAs base 0 [] file.envs).imp fun e he => he.imp_right fun hblamed =>
    ⟨base, (readBase_ok_iff.1 hbase).2, hblamed⟩).bind fun environments _ => ?_
  exact ((checkEnvlist_failsAs _ _).imp fun e he => .inl he).bind fun _ _ => failsAs_ok _

/-- A file that is refused for a requirement is refused for one command, which the error shows. -/
theorem ofFile_unknownReference {root : Path} {file : File} {env line reference : String}
    (h : ofFile root file = .error (.unknownReference env line reference)) :
    ∃ argv, file.Blames env reference argv ∧ line = Command.displayArgv argv := by
  obtain hunrelated | ⟨base, hbase, own, hmem, name, layer, hname, hown, hunmet⟩ :=
    ofFile_failsAs root file _ h
  · exact absurd rfl (hunrelated env line reference)
  · obtain ⟨command, hcommand, _, hreference, -, ⟨⟩⟩ := hunmet
    obtain ⟨entry, hentry, hreads, -⟩ :=
      exists_left_of_forall₂ (List.rel_append hbase.commands hown.commands) hcommand
    rw [hreads.requires] at hreference
    exact ⟨command.argv, ⟨own, hmem, hname, entry, hentry, hreads.means, hreference⟩, rfl⟩

end Testbed.Config
