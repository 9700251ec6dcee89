import Testbed.Program.Spawn
import Testbed.Proofs.Text.Pieces
import Testbed.Proofs.Vars

/-! The variables of the programs that commands start. What the environment assigns wins over the
base, the base over what the context has of its own, and that over what the host has. The search path
is an exception: the programs of the context come first in it, and then those of the host, whatever
is assigned; but where a colon in the path of the context keeps it out, the search path is a variable
like all others. -/
namespace Testbed

/-- Programs that leave everything as it is and succeed at once. -/
def Process.Programs.idle : Process.Programs :=
  fun tree _ _ => .ok ⟨tree, .exited (some 0), 0, [], 0, [], 0⟩

namespace Spawn

open Vars (Assigns Ascending)

variable {h : Host} {c : Context} {i : Invocation} {base own : List (String × String)}
  {name value : String}

/-! ### What a program is started with -/

/-- The variables that a context has of its own. -/
def contextVars (c : Context) : Vars :=
  [("ENVRUN_ENV_DIR", c.dir.text), ("ENVRUN_ENV_NAME", c.name), ("TMPDIR", c.tmpDir.text)]

/-- The search path goes through the programs of the context first and then through the directories
of the host's. -/
def Leads (h : Host) (c : Context) (vars : Vars) : Prop :=
  ∃ path, vars.get? "PATH" = some path ∧
    Host.searchDirs path = c.binDir :: ((h.vars.get? "PATH").map Host.searchDirs).getD []

/-- A variable that is no search path, or one that the context could not be put into. -/
def Ordinary (c : Context) (name : String) : Prop := name ≠ "PATH" ∨ ':' ∈ c.binDir.text.toList

/-- The variables of a program of a context, on a host, with what the base and the environment
assign. -/
structure Furnished (h : Host) (c : Context) (base own : List (String × String)) (vars : Vars) :
    Prop where
  leads : Leads h c vars ↔ ':' ∉ c.binDir.text.toList
  assigned : ∀ name value, Ordinary c name → Assigns own name value → vars.get? name = some value
  shared : ∀ name value, Ordinary c name → name ∉ own.map Prod.fst → Assigns base name value →
    vars.get? name = some value
  contextual : ∀ name value, (name, value) ∈ contextVars c → name ∉ (base ++ own).map Prod.fst →
    vars.get? name = some value
  inherited : ∀ name, Ordinary c name → name ∉ (base ++ own).map Prod.fst →
    name ∉ (contextVars c).map Prod.fst → vars.get? name = h.vars.get? name

/-- Whatever programs do, one is not started, or it is followed with these variables, whenever it is
cut short. -/
def Sees (h : Host) (i : Invocation) (vars : Vars) : Prop :=
  ∀ (programs : Process.Programs) (cutAt : Option Nat),
    (∃ reason, run programs h i cutAt = ⟨h.tree, [], false, .none, .launchFailed reason⟩) ∨
    ∃ cwd course, Process.startDir h (workDir i) = .ok cwd ∧
      programs h.tree ⟨i.path.text, i.path.text :: i.args, vars, cwd⟩
        ((cut? (timeLimit? i.spec) cutAt).map Cut.moment) = .ok course ∧
      run programs h i cutAt = replyTo i (if cutAt = some 0 then unborn h else course)
        (cut? (timeLimit? i.spec) cutAt)

theorem sees_commandVars (h : Host) (i : Invocation) : Sees h i (commandVars h i) := by
  intro programs cutAt
  rw [run]
  cases hl : Process.launch programs h (workDir i) (fun _ => .ok i.path.text) (i.path.text :: i.args)
      (commandVars h i) ((cut? (timeLimit? i.spec) cutAt).map Cut.moment) with
  | error cause => exact .inl ⟨_, rfl⟩
  | ok course =>
    refine .inr ?_
    unfold Process.launch at hl
    split at hl
    · cases hl
    · split at hl
      · cases hl
      next cwd hcwd => exact ⟨cwd, course, hcwd, hl, rfl⟩

/-! ### The search path -/

theorem searchDirs_concat {dir : Path} (hdir : ':' ∉ dir.text.toList) (list : String) :
    Host.searchDirs (dir.text ++ ":" ++ list) = dir :: Host.searchDirs list := by
  have hlist : (dir.text ++ ":" ++ list).toList = dir.text.toList ++ ':' :: list.toList := by simp
  rw [Host.searchDirs, hlist, Text.pieces_append_cut rfl, Text.pieces_of_not_mem hdir]
  simp [Host.searchDirs]

theorem searchDirs_singleton {dir : Path} (hdir : ':' ∉ dir.text.toList) :
    Host.searchDirs dir.text = [dir] := by
  rw [Host.searchDirs, Text.pieces_of_not_mem hdir]
  simp

theorem colon_not_mem_of_searchDirs {dir : Path} {list : String}
    (hdir : dir ∈ Host.searchDirs list) : ':' ∉ dir.text.toList := by
  obtain ⟨p, hp, rfl⟩ := List.mem_map.1 hdir
  intro hmem
  have := Text.uncut_of_mem_pieces hp ':' (by simpa using hmem)
  cases this

/-- Only a colon keeps the context out of the search path. -/
theorem searchPath?_eq_none_iff : searchPath? h c = none ↔ ':' ∈ c.binDir.text.toList := by
  unfold searchPath?
  dsimp only
  split
  next hcolon => exact iff_of_true rfl (by simpa using hcolon)
  next hcolon =>
    refine iff_of_false ?_ (by simpa using hcolon)
    split <;> exact nofun

theorem searchDirs_of_searchPath? {path : String} (hpath : searchPath? h c = some path) :
    Host.searchDirs path = c.binDir :: ((h.vars.get? "PATH").map Host.searchDirs).getD [] := by
  have hcolon : ':' ∉ c.binDir.text.toList := fun hmem => by
    rw [searchPath?_eq_none_iff.2 hmem] at hpath
    cases hpath
  have hnot : ¬ c.binDir.text.toList.contains ':' = true := by simpa using hcolon
  rw [searchPath?, if_neg hnot] at hpath
  split at hpath
  next ambient hambient =>
    cases hpath
    rw [searchDirs_concat hcolon, hambient]
    rfl
  next hambient =>
    cases hpath
    rw [searchDirs_singleton hcolon, hambient]
    rfl

/-! ### All variables -/

theorem get?_commandVars_path {path : String} (hpath : searchPath? h i.context = some path) :
    (commandVars h i).get? "PATH" = some path := by
  rw [commandVars, hpath]
  dsimp only
  rw [Vars.get?_set, if_pos rfl]

theorem get?_commandVars (hs : Ascending i.spec.setenv) (ho : Ordinary i.context name) :
    (commandVars h i).get? name =
      (i.spec.setenv.get? name).or ((h.vars.overlay (contextVars i.context)).get? name) := by
  have hoverlay := hs.get?_overlay (h.vars.overlay (contextVars i.context)) name
  rw [commandVars]
  split
  next path hpath =>
    have hcolon : ':' ∉ i.context.binDir.text.toList := fun hmem => by
      rw [searchPath?_eq_none_iff.2 hmem] at hpath
      cases hpath
    rw [Vars.get?_set, if_neg (ho.resolve_right hcolon).symm]
    exact hoverlay
  next => exact hoverlay

theorem leads_commandVars_iff (h : Host) (i : Invocation) :
    Leads h i.context (commandVars h i) ↔ ':' ∉ i.context.binDir.text.toList := by
  constructor
  · rintro ⟨path, -, hdirs⟩
    exact colon_not_mem_of_searchDirs (hdirs ▸ List.mem_cons_self)
  · intro hcolon
    cases hpath : searchPath? h i.context with
    | none => exact absurd (searchPath?_eq_none_iff.1 hpath) hcolon
    | some path => exact ⟨path, get?_commandVars_path hpath, searchDirs_of_searchPath? hpath⟩

theorem ordinary_of_mem_contextVars (h : (name, value) ∈ contextVars c) : Ordinary c name := by
  left
  simp only [contextVars, List.mem_cons, Prod.mk.injEq, List.not_mem_nil, or_false] at h
  rcases h with ⟨rfl, -⟩ | ⟨rfl, -⟩ | ⟨rfl, -⟩
  all_goals decide

theorem assigns_contextVars (h : (name, value) ∈ contextVars c) :
    Assigns (contextVars c) name value := by
  simp only [contextVars, List.mem_cons, Prod.mk.injEq, List.not_mem_nil, or_false] at h
  rcases h with ⟨rfl, rfl⟩ | ⟨rfl, rfl⟩ | ⟨rfl, rfl⟩
  · exact ⟨[], _, rfl, by simp⟩
  · exact ⟨[_], _, rfl, by simp⟩
  · exact ⟨[_, _], _, rfl, by simp⟩

/-- What the commands of an environment are started with. -/
theorem furnished_commandVars (h : Host)
    (hs : i.spec.setenv = Vars.overlay (Vars.overlay [] base) own) :
    Furnished h i.context base own (commandVars h i) := by
  have hascending : Ascending i.spec.setenv := by
    rw [hs]
    exact (Ascending.overlay .nil base).overlay own
  have hget {name : String} (ho : Ordinary i.context name) := get?_commandVars (h := h) hascending ho
  have hunset {name : String} (hnot : name ∉ (base ++ own).map Prod.fst) :
      i.spec.setenv.get? name = none := by
    rw [List.map_append, List.mem_append, not_or] at hnot
    rw [hs, Vars.get?_overlay_of_not_mem hnot.2, Vars.get?_overlay_of_not_mem hnot.1]
    rfl
  refine ⟨leads_commandVars_iff h i, fun name value ho hset => ?_, fun name value ho hnot hset => ?_,
    fun name value hmem hnot => ?_, fun name ho hnot hmem => ?_⟩
  · rw [hget ho, hs, Vars.get?_overlay_of_assigns hset, Option.some_or]
  · rw [hget ho, hs, Vars.get?_overlay_of_not_mem hnot, Vars.get?_overlay_of_assigns hset,
      Option.some_or]
  · rw [hget (ordinary_of_mem_contextVars hmem), hunset hnot, Option.none_or,
      Vars.get?_overlay_of_assigns (assigns_contextVars hmem)]
  · rw [hget ho, hunset hnot, Option.none_or, Vars.get?_overlay_of_not_mem hmem]

end Spawn

end Testbed
