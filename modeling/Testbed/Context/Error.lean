import Testbed.Host.OsError
import Testbed.Path
import Testbed.Text.Quoted

/-! Why a context could not be built, torn down or read. -/
namespace Testbed

inductive ProvisionError where
  | invalidSource (raw : String)
  | installFailed (env dependency : String) (exitCode : Int) (stderr : String)
  | installerUnavailable (program reason : String)
  | emptyInstallCommand
  | context (path : Path) (cause : Host.OsError)
  | metadata
deriving DecidableEq, Repr

def ProvisionError.message : ProvisionError → String
  | .invalidSource raw => s!"invalid dependency source: '{raw}'"
  | .installFailed env dependency exitCode _ =>
    s!"failed to install '{dependency}' into environment '{env}' (exit code {exitCode})"
  | .installerUnavailable program reason =>
    s!"installer '{program}' could not be started: {reason}"
  | .emptyInstallCommand => "install command is empty"
  | .context path cause =>
    "environment context error at " ++ Text.quoted path.text ++ ": " ++ cause.message
  | .metadata => "metadata error"

end Testbed
