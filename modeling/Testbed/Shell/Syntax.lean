/-! Scripts of the system's shell: words with what is to be put into them, redirections and
commands. -/
namespace Testbed.Shell

/-- Which end of a value a pattern takes off. -/
inductive TrimEnd where
  | front
  | back
deriving DecidableEq, Repr

/-- A part of a word. Text in quotes is taken as it is; what is put in outside quotes is split into
fields. -/
inductive Piece where
  | plain (text : List Char)
  | quoted (text : List Char)
  | value (name : String) (inQuotes : Bool)
  | length (name : String) (inQuotes : Bool)
  /-- The value, or a word in its place: when it is not set or, with `orEmpty`, when it is empty. -/
  | fallback (name : String) (orEmpty assign : Bool) (word : List Piece) (inQuotes : Bool)
  /-- A word when there is a value, and nothing otherwise. -/
  | alternative (name : String) (orEmpty : Bool) (word : List Piece) (inQuotes : Bool)
  /-- The value, which must be there. -/
  | demand (name : String) (orEmpty : Bool) (word : List Piece) (inQuotes : Bool)
  | trimmed (name : String) (side : TrimEnd) (longest : Bool) (pattern : List Piece)
      (inQuotes : Bool)
  /-- What a script prints. -/
  | output (script : List Char) (inQuotes : Bool)
  | arithmetic (expr : List Piece) (inQuotes : Bool)
  /-- Braces around something that names no value. -/
  | misnamed
deriving Repr, Inhabited

abbrev Word := List Piece

inductive RedirectOp where
  | read
  | write
  | append
  | duplicate
  /-- Text that stands in the script itself. -/
  | here (body : Word)
deriving Repr, Inhabited

structure Redirect where
  channel : Nat
  op : RedirectOp
  target : Word
deriving Repr, Inhabited

inductive Script where
  | nothing
  | simple (line : Nat) (assigns : List (String × Word)) (words : List Word)
      (redirects : List Redirect)
  | pipeline (negated : Bool) (parts : List Script)
  | both (first second : Script)
  | either (first second : Script)
  | sequence (first second : Script)
  | background (body : Script)
  | branch (condition yes no : Script)
  /-- Goes on while the condition has the outcome `holds`. -/
  | repeated (holds : Bool) (condition body : Script)
  | each (name : String) (words : Option (List Word)) (body : Script)
  | choose (subject : Word) (arms : List (List Word × Script))
  | apart (body : Script) (redirects : List Redirect)
  | together (body : Script) (redirects : List Redirect)
  | define (name : String) (body : Script)
deriving Repr, Inhabited

/-- A fault in the text of a script, with its line. -/
structure SyntaxFault where
  line : Nat
  reason : String
deriving DecidableEq, Repr, Inhabited

end Testbed.Shell
