import Testbed.Context.Basic
import Testbed.Text.Replace

/-! Placeholders in the arguments of a command. An argument that is the word `posargs` in braces
stands for the positional arguments of the run, and may carry words after a colon that stand in when
there are none; in every other argument the context's directories and name and the root are put
in. -/
namespace Testbed.Placeholders

def posargsMark : String := "\x7bposargs\x7d"

def defaultOpening : List Char := "\x7bposargs:".toList

/-- The words that stand in when there are no positional arguments. -/
def default? (arg : List Char) : Option (List Char) :=
  (Text.stripStart? defaultOpening arg).bind (Text.stripEnd? ['\x7d'])

def table (c : Context) : List (List Char × List Char) :=
  [("\x7benvdir\x7d".toList, c.dir.text.toList),
   ("\x7benvtmpdir\x7d".toList, c.tmpDir.text.toList),
   ("\x7benvname\x7d".toList, c.name.toList),
   ("\x7broot\x7d".toList, c.root.text.toList)]

def expandArgument (c : Context) (posargs : List String) (arg : String) : List String :=
  if arg = posargsMark then posargs
  else
    match default? arg.toList with
    | some words =>
      if posargs.isEmpty then (Text.words words).map String.ofList else posargs
    | none => [String.ofList (Text.replaceEach (table c) arg.toList)]

def expand (c : Context) (posargs argv : List String) : List String :=
  argv.flatMap (expandArgument c posargs)

end Testbed.Placeholders
