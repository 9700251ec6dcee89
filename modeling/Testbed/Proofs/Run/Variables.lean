import Testbed.Proofs.Context.Ground
import Testbed.Proofs.Host.Spelling
import Testbed.Proofs.Program.Spawn
import Testbed.Proofs.Run.Isolation

/-! The variables that commands see. A command is started with what its environment and the base
assign, what its context has of its own, and what the host has; its search path goes through the
programs of its context first, unless the path of the work directory holds a colon. -/
namespace Testbed

namespace Run

variable {c : Config} {o : RunOptions} {ctx : Context}

theorem colon_mem_binDir_iff (hname : Config.isIdentifier ctx.name = true)
    (hdir : ctx.dir = (provisioner c o).envDir ctx.name) :
    ':' ∈ ctx.binDir.text.toList ↔ ':' ∈ c.settings.workDir.text.toList := by
  rw [Context.binDir, Host.mem_join_iff _ isName_bin.piece (by decide) (by decide), hdir,
    Provisioner.envDir, Host.mem_join_iff _ (isPiece_of_isIdentifier hname).1
      (Config.not_mem_of_isIdentifier hname (by decide)) (by decide)]
  rfl

/-- What the commands of an environment see in a context of it, on any host. -/
structure Supplies (c : Config) (base own : List (String × String)) (ctx : Context)
    (spec : EnvSpec) : Prop where
  colon : ':' ∈ ctx.binDir.text.toList ↔ ':' ∈ c.settings.workDir.text.toList
  sees : ∀ (h : Host) (path : Path) (args : List String),
    Spawn.Sees h ⟨path, args, ctx, spec⟩ (Spawn.commandVars h ⟨path, args, ctx, spec⟩)
  furnished : ∀ (h : Host) (path : Path) (args : List String),
    Spawn.Furnished h ctx base own (Spawn.commandVars h ⟨path, args, ctx, spec⟩)

theorem supplies_of_setenv {base own : List (String × String)} {spec : EnvSpec}
    (hs : spec.setenv = Vars.overlay (Vars.overlay [] base) own)
    (hname : Config.isIdentifier spec.name = true) (hctx : ctx.name = spec.name)
    (hdir : ctx.dir = (provisioner c o).envDir spec.name) : Supplies c base own ctx spec where
  colon := colon_mem_binDir_iff (hctx ▸ hname) (hctx ▸ hdir)
  sees h path args := Spawn.sees_commandVars h ⟨path, args, ctx, spec⟩
  furnished h path args := Spawn.furnished_commandVars (i := ⟨path, args, ctx, spec⟩) h hs

/-- The commands of every environment see what its table, the base, its context and the host give
them, and under any schedule that is so of all that a run starts. -/
theorem commands_furnished {root : Path} {file : Config.File} {c : Config}
    (hc : Config.ofFile root file = .ok c) (o : RunOptions) :
    List.Forall₂ (fun own spec => ∀ ctx : Context, ctx.name = spec.name →
        ctx.dir = (provisioner c o).envDir spec.name →
        Supplies c file.base.setenv own.setenv ctx spec) file.envs c.environments ∧
    ∀ (s : Selection) (runId : Uuid) (w : World) (moves : List Move),
      (∀ m ∈ moves, m.Uses (·.provisioner = provisioner c o)) →
      ∀ l ∈ (after c s o runId w moves).2.launches, l ∈ w.launches ∨
        ∃ x ∈ scenes c s o w moves, ∃ own ∈ file.envs, ∃ t ctx p,
          Task.Reaches (scenes c s o w moves) t.spec t ∧ t.Makes x l ∧ t.phase = .commands ctx p ∧
          own.name = some l.env ∧ ctx.name = l.env ∧ ctx.dir = (provisioner c o).envDir l.env ∧
          Supplies c file.base.setenv own.setenv ctx t.spec := by
  obtain ⟨base, hreads, hnamed⟩ := Config.ofFile_named hc
  constructor
  · exact hnamed.imp fun own spec hspec ctx => supplies_of_setenv (hspec.setenv hreads)
      hspec.identifier
  · intro s runId w moves hm l hl
    refine (mem_launches c s o runId w moves l hl).imp_right ?_
    rintro ⟨chosen, hchosen, hcomes⟩
    have hxs : ∀ x ∈ scenes c s o w moves, x.facilities.provisioner = provisioner c o := by
      unfold scenes
      split
      · exact Crew.facilities_of_mem_scenes hm
      · simp
    obtain ⟨x, hx, t, ctx, p, command, program, hspec, hreach, hmakes, hstarts, henv, hhome⟩ :=
      exists_starts hxs hcomes
    obtain ⟨spec, hmem, heq⟩ := exists_overridden_of_mem_specs hchosen hspec
    obtain ⟨own, hown, hmerged⟩ := Config.exists_left_of_forall₂ hnamed hmem
    have hname : t.spec.name = spec.name := by rw [heq]
    have hsetenv : t.spec.setenv = spec.setenv := by rw [heq]
    refine ⟨x, hx, own, hown, t, ctx, p, hreach, hmakes, hstarts.phase, ?_, hhome.1, hhome.2, ?_⟩
    · rw [hmerged.name, henv, hname]
    · refine supplies_of_setenv (hsetenv.trans (hmerged.setenv hreads)) ?_ (hhome.1.trans henv)
        (henv ▸ hhome.2)
      rw [hname]
      exact hmerged.identifier

/-- The path of the work directory holds a colon, and an environment assigns over the base. -/
def assigningFile : Config.File where
  settings := { Config.SettingsTable.empty with workDir := some ⟨".env:run"⟩ }
  base := ⟨none, none, [], [], [], [("A", "1"), ("PATH", "/x")], none, none, none⟩
  envs := [⟨some "a", none, [], [⟨.line "tool", false, []⟩], [], [("A", "2")], none, none, none⟩]

def assigning : Config :=
  ⟨⟨"/"⟩, ⟨⟨"/.env:run"⟩, none, 1, false, InstallCommand.default, [0]⟩,
    [⟨"a", none, [], [⟨["tool"], false, []⟩], [], [("A", "2"), ("PATH", "/x")], none, false, 0⟩]⟩

theorem commands_furnished_colon :
    let ctx : Context :=
      ⟨"a", ⟨"/.env:run/a"⟩, ⟨"/"⟩, false, .ofDeclared "a" [] .epoch, ⟨"a", 0, true⟩⟩
    let h : Host := ⟨⟨[]⟩, [("PATH", "/bin"), ("Z", "z")], []⟩
    ∃ spec, assigning.environments = [spec] ∧
      let vars := Spawn.commandVars h ⟨⟨"/tool"⟩, [], ctx, spec⟩
      Config.ofFile ⟨"/"⟩ assigningFile = .ok assigning ∧
        vars.get? "A" = some "2" ∧ vars.get? "PATH" = some "/x" ∧
        vars.get? "TMPDIR" = some "/.env:run/a/tmp" ∧ vars.get? "Z" = some "z" ∧
        ¬ Spawn.Leads h ctx vars := by
  intro ctx h
  have hc : Config.ofFile ⟨"/"⟩ assigningFile = .ok assigning := by decide +kernel
  refine ⟨_, rfl, hc, ?_⟩
  have hcolon : ':' ∈ assigning.settings.workDir.text.toList := by decide
  obtain ⟨⟩ | ⟨hsupplies, -⟩ := (commands_furnished hc ⟨none, none, none, []⟩).1
  have hs := hsupplies ctx rfl (by decide)
  have hf := hs.furnished h ⟨"/tool"⟩ []
  have ho (name : String) : Spawn.Ordinary ctx name := .inr (hs.colon.2 hcolon)
  refine ⟨hf.assigned "A" "2" (ho _) ⟨[], [], rfl, by decide⟩,
    hf.shared "PATH" "/x" (ho _) (by decide) ⟨[("A", "1")], [], rfl, by decide⟩,
    hf.contextual "TMPDIR" _ (by decide) (by decide), ?_,
    fun hleads => hf.leads.1 hleads (hs.colon.2 hcolon)⟩
  exact hf.inherited "Z" (ho _) (by decide) (by decide)

end Run

end Testbed
