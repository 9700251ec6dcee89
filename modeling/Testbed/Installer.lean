import Testbed.InstallCommand
import Testbed.World

/-! Installers put one source into a context. An installer answers with an exit code, refuses to
start, or never comes back; whether a code is acceptable is for others to judge. -/
namespace Testbed

inductive InstallEnd where
  | exited (code : Int) (stderr : String)
  | refused (cause : ProvisionError)
deriving DecidableEq, Repr

/-- What an installer does with a source: the files after it, what it says, whether it cancels the
run, how long it takes and how it ends. -/
structure InstallReply where
  tree : Host.Tree
  notes : List Note
  cancels : Bool
  pause : Pause
  ending : InstallEnd

abbrev Installer := Host → InstallTarget → Dependency → InstallReply

end Testbed
