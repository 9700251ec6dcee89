import Testbed.Text.Blank

/-! Splitting a command line into words and writing words back as a command line.

Splitting follows the shell's quoting: blanks separate words, a backslash keeps the next character,
single quotes keep everything, double quotes keep all but a backslash before one of `$`, a back
quote, `"`, `\` and a line end, and a `#` where a word could start begins a comment. It is one pass
of a small automaton. -/
namespace Testbed.Command

inductive Mode where
  | between
  | comment
  | bare
  | bareEscape
  | single
  | double
  | doubleEscape
deriving DecidableEq, Repr

/-- What has been read: the finished words and the letters of the open one, latest first. -/
structure Reading where
  mode : Mode
  letters : List Char
  done : List (List Char)
deriving Repr

namespace Reading

def start : Reading := ⟨.between, [], []⟩

def push (r : Reading) (mode : Mode) (c : Char) : Reading := ⟨mode, c :: r.letters, r.done⟩

def finishWord (r : Reading) : Reading := ⟨.between, [], r.letters.reverse :: r.done⟩

def isSeparator (c : Char) : Bool := c = ' ' || c = '\t' || c = '\n'

def bareStep (r : Reading) (c : Char) : Reading :=
  if c = '"' then { r with mode := .double }
  else if c = '\'' then { r with mode := .single }
  else if c = '\\' then { r with mode := .bareEscape }
  else if isSeparator c then r.finishWord
  else r.push .bare c

/-- Characters that a backslash protects inside double quotes. -/
def isGuarded (c : Char) : Bool := c = '$' || c = '\x60' || c = '"' || c = '\\'

def step (r : Reading) (c : Char) : Reading :=
  match r.mode with
  | .between =>
    if isSeparator c then r
    else if c = '#' then { r with mode := .comment }
    else r.bareStep c
  | .comment => if c = '\n' then { r with mode := .between } else r
  | .bare => r.bareStep c
  | .bareEscape => if c = '\n' then { r with mode := .bare } else r.push .bare c
  | .single => if c = '\'' then { r with mode := .bare } else r.push .single c
  | .double =>
    if c = '"' then { r with mode := .bare }
    else if c = '\\' then { r with mode := .doubleEscape }
    else r.push .double c
  | .doubleEscape =>
    if c = '\n' then { r with mode := .double }
    else if isGuarded c then r.push .double c
    else ⟨.double, c :: '\\' :: r.letters, r.done⟩

/-- The words, unless a quote or a backslash is left open. -/
def result? (r : Reading) : Option (List (List Char)) :=
  match r.mode with
  | .between | .comment => some r.done.reverse
  | .bare => some (r.letters.reverse :: r.done).reverse
  | _ => none

end Reading

/-- The words of a command line; `none` when its quoting is unbalanced. -/
def splitWords? (line : List Char) : Option (List (List Char)) :=
  (line.foldl Reading.step Reading.start).result?

/-! ### Display -/

def needsQuotes (word : List Char) : Bool :=
  word.isEmpty || word.any (fun c => Text.isBlank c || c = '\'' || c = '"')

/-- Single quotes around the word; a single quote inside closes them, stands escaped and opens
them again. -/
def quote (word : List Char) : List Char :=
  '\'' :: word.flatMap (fun c => if c = '\'' then ['\'', '\\', '\'', '\''] else [c]) ++ ['\'']

def displayWord (word : List Char) : List Char :=
  if needsQuotes word then quote word else word

def displayWords (words : List (List Char)) : List Char :=
  Text.joinWith [' '] (words.map displayWord)

end Testbed.Command
