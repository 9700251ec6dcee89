import Testbed.Installer
import Testbed.Program.Process

/-! The installer that starts a program for each source, by a template of its command. It waits
until nobody holds the outputs of the program any more. -/
namespace Testbed.Installer

def programVars (h : Host) (target : InstallTarget) : Vars :=
  h.vars.overlay [("ENVRUN_ENV_DIR", target.envDir.text), ("ENVRUN_ENV_NAME", target.envName)]

def replyTo (h : Host) (argv : List String) (notes : List Note)
    (r : Except Host.OsError Process.Course) : InstallReply :=
  match r with
  | .error cause =>
    ⟨h.tree, notes, false, .none, .refused (.installerUnavailable (argv.headD "") cause.message)⟩
  | .ok c =>
    let closed := max c.ended (max c.stdoutUntil c.stderrUntil)
    let reply (pause : Pause) (code : Int) : InstallReply :=
      ⟨c.tree, notes, false, pause, .exited code (Text.decodeLossy c.stderr)⟩
    match c.finish with
    | .exited code => reply (.lasting closed) (code.getD (-1))
    | .killed | .endless => reply .forever (-1)

/-- Installs by starting a program. -/
def ofTemplate (programs : Process.Programs) (template : List String) : Installer :=
  fun h target source =>
  let argv := InstallCommand.expand template source target
  let notes : List Note := [⟨.debug, some target.envName, "Installing dependency"⟩]
  replyTo h argv notes
    (Process.launch programs h target.root (fun cwd => Process.search h cwd (argv.headD "")) argv
      (programVars h target) none)

end Testbed.Installer
