import Testbed.Dependency.Basic
import Testbed.Text.Replace

/-! The template of an install command. An argument that is the word `source` in braces
stands for the arguments of the source; in every other argument the context's directory and name and
the root are put in. -/
namespace Testbed

/-- Where a source is installed. -/
structure InstallTarget where
  envName : String
  envDir : Path
  root : Path
deriving DecidableEq, Repr

namespace InstallCommand

def default : List String :=
  ["python", "-m", "pip", "install", "--prefix", "\x7benvdir\x7d", "\x7bsource\x7d"]

def sourceMark : String := "\x7bsource\x7d"

def table (target : InstallTarget) : List (List Char × List Char) :=
  [("\x7benvdir\x7d".toList, target.envDir.text.toList),
   ("\x7benvname\x7d".toList, target.envName.toList),
   ("\x7broot\x7d".toList, target.root.text.toList)]

def expandArgument (source : Dependency) (target : InstallTarget) (arg : String) : List String :=
  if arg = sourceMark then source.installArgs target.root
  else [String.ofList (Text.replaceEach (table target) arg.toList)]

def expand (template : List String) (source : Dependency) (target : InstallTarget) : List String :=
  template.flatMap (expandArgument source target)

end InstallCommand

end Testbed
