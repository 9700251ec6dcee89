import Testbed.Shell.Syntax
import Testbed.Text.Digit

/-! From the text of a script to words and operators. A number that stands directly before a
redirection names its channel, and the text of a `<<` redirection is taken out of the lines
below. -/
namespace Testbed.Shell

inductive Token where
  | word (w : Word)
  | op (text : String)
  | redirect (channel : Option Nat) (kind : String)
  | here (channel : Option Nat) (body : Word)
deriving Repr, Inhabited

/-- A token and the line on which it ends. -/
structure Lexeme where
  line : Nat
  token : Token
deriving Repr, Inhabited

/-! ### Names and brackets -/

def isNameStart (c : Char) : Bool := c.isAlpha || c = '_'

def isNameChar (c : Char) : Bool := c.isAlphanum || c = '_'

def isName (s : String) : Bool := s.toList.head?.any isNameStart && s.toList.all isNameChar

/-- Parameters that are named by one character. -/
def isSpecial (c : Char) : Bool := "@*#?$!-".toList.contains c || c.isDigit

/-- The name of a parameter at the front of a text. -/
def parameterName (cs : List Char) : List Char × List Char :=
  match cs with
  | c :: r =>
    if isNameStart c then (cs.takeWhile isNameChar, cs.dropWhile isNameChar)
    else if isSpecial c then ([c], r)
    else ([], cs)
  | [] => ([], [])

/-- The name of a parameter in braces, where a number may have several digits. -/
def bracedName (cs : List Char) : List Char × List Char :=
  if cs.head?.any Char.isDigit then (cs.takeWhile Char.isDigit, cs.dropWhile Char.isDigit)
  else parameterName cs

/-- The text up to the closing bracket of `depth` open ones, and what follows it. Brackets in quotes
do not count. -/
def closing (opening close : Char) : Nat → Option Char → List Char → List Char →
    Option (List Char × List Char)
  | _, _, _, [] => none
  | depth, some q, seen, c :: r =>
    if c = q then closing opening close depth none (c :: seen) r
    else if c = '\\' && q = '"' then
      match r with
      | d :: r' => closing opening close depth (some q) (d :: c :: seen) r'
      | [] => none
    else closing opening close depth (some q) (c :: seen) r
  | depth, none, seen, c :: r =>
    if c = '\\' then
      match r with
      | d :: r' => closing opening close depth none (d :: c :: seen) r'
      | [] => none
    else if c = '\'' || c = '"' then closing opening close depth (some c) (c :: seen) r
    else if c = opening then closing opening close (depth + 1) none (c :: seen) r
    else if c = close then
      if depth = 0 then some (seen.reverse, r)
      else closing opening close (depth - 1) none (c :: seen) r
    else closing opening close depth none (c :: seen) r

/-- The text up to two closing brackets outside all others, and what follows them. -/
def doubleClosing : Nat → List Char → List Char → Option (List Char × List Char)
  | _, _, [] => none
  | depth, seen, c :: r =>
    if c = '(' then doubleClosing (depth + 1) (c :: seen) r
    else if c = ')' then
      if depth = 0 && r.head? = some ')' then some (seen.reverse, r.tail)
      else doubleClosing (depth - 1) (c :: seen) r
    else doubleClosing depth (c :: seen) r

/-- The text up to an unescaped grave accent, and what follows it. -/
def graveText : List Char → List Char → Option (List Char × List Char)
  | _, [] => none
  | seen, '\\' :: c :: r =>
    if c = '\x60' || c = '$' || c = '\\' then graveText (c :: seen) r
    else graveText (c :: '\\' :: seen) r
  | seen, c :: r => if c = '\x60' then some (seen.reverse, r) else graveText (c :: seen) r

/-! ### Words -/

/-- Where pieces are read: in a word, in double quotes, in the braces of a parameter, or in the text
of a redirection. -/
inductive Place where
  | word
  | quotes
  | braces (inQuotes : Bool)
  | here
deriving DecidableEq, Repr

def Place.inQuotes : Place → Bool
  | .word => false
  | .quotes | .here => true
  | .braces inQuotes => inQuotes

def isBlankChar (c : Char) : Bool := c = ' ' || c = '\t'

/-- Characters that end a word. -/
def isMeta (c : Char) : Bool := isBlankChar c || "\n;&|<>()".toList.contains c

def Place.endsAt (p : Place) (c : Char) : Bool :=
  match p with
  | .word => isMeta c
  | .quotes => c = '"'
  | .braces _ => c = '\x7d'
  | .here => false

def Place.missing : Place → Option String
  | .word | .here => none
  | .quotes => some "Unterminated quoted string"
  | .braces _ => some "Missing '\x7d'"

/-- Text that stands for itself. -/
def literal (inQuotes : Bool) (text : List Char) : Piece :=
  if inQuotes then .quoted text else .plain text

/-- Neighbouring texts of one kind are one. -/
def merge : List Piece → List Piece
  | .plain a :: rest =>
    match merge rest with
    | .plain b :: more => .plain (a ++ b) :: more
    | more => .plain a :: more
  | .quoted a :: rest =>
    match merge rest with
    | .quoted b :: more => .quoted (a ++ b) :: more
    | more => .quoted a :: more
  | p :: rest => p :: merge rest
  | [] => []

/-- What a backslash stands for, with the character after it. -/
def escaped (place : Place) (c : Char) : List Piece :=
  if c = '\n' then []
  else if place.inQuotes then
    if c = '$' || c = '\x60' || c = '\\' || (c = '"' && place ≠ .here) ||
        (c = '\x7d' && place = .braces true) then [.quoted [c]]
    else [.quoted ['\\', c]]
  else [.quoted [c]]

mutual

/-- The pieces up to the end of the place, latest first in `seen`. -/
def pieces : Nat → Place → List Piece → List Char → Except String (List Piece × List Char)
  | 0, _, _, _ => .error "Word too long"
  | _, place, seen, [] =>
    match place.missing with
    | some reason => .error reason
    | none => .ok (merge seen.reverse, [])
  | fuel + 1, place, seen, c :: r =>
    if place.endsAt c then .ok (merge seen.reverse, c :: r)
    else if c = '\\' then
      match r with
      | d :: r' => pieces fuel place ((escaped place d).reverse ++ seen) r'
      | [] => .ok (merge (.quoted ['\\'] :: seen).reverse, [])
    else if c = '\'' && !place.inQuotes then
      let text := r.takeWhile (· ≠ '\'')
      match r.dropWhile (· ≠ '\'') with
      | _ :: r' => pieces fuel place (.quoted text :: seen) r'
      | [] => .error "Unterminated quoted string"
    else if c = '"' && place ≠ .here then
      match pieces fuel .quotes [.quoted []] r with
      | .ok (inner, _ :: r') => pieces fuel place (inner.reverse ++ seen) r'
      | .ok (_, []) => .error "Unterminated quoted string"
      | .error e => .error e
    else if c = '$' then
      match dollar fuel place.inQuotes r with
      | .ok (p, r') => pieces fuel place (p :: seen) r'
      | .error e => .error e
    else if c = '\x60' then
      match graveText [] r with
      | some (text, r') => pieces fuel place (.output text place.inQuotes :: seen) r'
      | none => .error "EOF in backquote substitution"
    else pieces fuel place (literal place.inQuotes [c] :: seen) r

/-- What stands after a dollar sign. -/
def dollar : Nat → Bool → List Char → Except String (Piece × List Char)
  | 0, _, _ => .error "Word too long"
  | fuel + 1, inQuotes, cs =>
    match cs with
    | '(' :: '(' :: r =>
      match doubleClosing 0 [] r with
      | some (text, r') =>
        match pieces fuel .here [] text with
        | .ok (word, _) => .ok (.arithmetic word inQuotes, r')
        | .error e => .error e
      | none => .error "Missing '))'"
    | '(' :: r =>
      match closing '(' ')' 0 none [] r with
      | some (text, r') => .ok (.output text inQuotes, r')
      | none => .error "end of file unexpected (expecting \")\")"
    | '\x7b' :: r => braces fuel inQuotes r
    | _ =>
      match parameterName cs with
      | ([], r) => .ok (literal inQuotes ['$'], r)
      | (name, r) => .ok (.value (String.ofList name) inQuotes, r)

/-- What stands after a dollar sign and an opening brace. -/
def braces : Nat → Bool → List Char → Except String (Piece × List Char)
  | 0, _, _ => .error "Word too long"
  | fuel + 1, inQuotes, cs =>
    let counted := match cs with
      | '#' :: c :: r =>
        match bracedName (c :: r) with
        | (name, '\x7d' :: r') => if name.isEmpty then none else some (name, r')
        | _ => none
      | _ => none
    match counted with
    | some (name, r) => .ok (.length (String.ofList name) inQuotes, r)
    | none =>
      match bracedName cs with
      | ([], r) => misnamed fuel inQuotes r
      | (cs', r) =>
        let name := String.ofList cs'
        let within (make : List Piece → Piece) (text : List Char) (asPattern : Bool) :
            Except String (Piece × List Char) :=
          match pieces fuel (.braces (inQuotes && !asPattern)) [] text with
          | .ok (word, _ :: r') => .ok (make word, r')
          | .ok (_, []) => .error "Missing '\x7d'"
          | .error e => .error e
        match r with
        | '\x7d' :: r' => .ok (.value name inQuotes, r')
        | ':' :: '-' :: t => within (.fallback name true false · inQuotes) t false
        | '-' :: t => within (.fallback name false false · inQuotes) t false
        | ':' :: '=' :: t => within (.fallback name true true · inQuotes) t false
        | '=' :: t => within (.fallback name false true · inQuotes) t false
        | ':' :: '+' :: t => within (.alternative name true · inQuotes) t false
        | '+' :: t => within (.alternative name false · inQuotes) t false
        | ':' :: '?' :: t => within (.demand name true · inQuotes) t false
        | '?' :: t => within (.demand name false · inQuotes) t false
        | '%' :: '%' :: t => within (.trimmed name .back true · inQuotes) t true
        | '%' :: t => within (.trimmed name .back false · inQuotes) t true
        | '#' :: '#' :: t => within (.trimmed name .front true · inQuotes) t true
        | '#' :: t => within (.trimmed name .front false · inQuotes) t true
        | _ => misnamed fuel inQuotes r

/-- The rest of braces that name no value. -/
def misnamed : Nat → Bool → List Char → Except String (Piece × List Char)
  | 0, _, _ => .error "Word too long"
  | fuel + 1, inQuotes, cs =>
    match pieces fuel (.braces inQuotes) [] cs with
    | .ok (_, _ :: r) => .ok (.misnamed, r)
    | .ok (_, []) => .error "Missing '\x7d'"
    | .error e => .error e

end

/-! ### Tokens -/

def operators : List String :=
  ["<<-", "<<", "<&", "<>", ">>", ">&", ">|", "&&", "||", ";;", "<", ">", "&", ";", "(", ")", "|"]

/-- The longest operator at the front of a text. -/
def operator? (cs : List Char) : Option (String × List Char) :=
  match operators.find? (fun op => op.toList.isPrefixOf cs) with
  | some op => some (op, cs.drop op.length)
  | none => none

def isRedirect (op : String) : Bool := op.toList.head? = some '<' || op.toList.head? = some '>'

/-- The text of a piece as it stands in the script, less its quotes. -/
def Piece.written : Piece → List Char
  | .plain text | .quoted text => text
  | _ => []

def isBare : Piece → Bool
  | .plain _ => true
  | _ => false

/-- The lines up to the delimiter, and what follows it. -/
def hereText (delimiter : List Char) (stripTabs : Bool) : List (List Char) → List (List Char) ×
    List (List Char)
  | [] => ([], [])
  | l :: rest =>
    let line := if stripTabs then l.dropWhile (· = '\t') else l
    if line = delimiter || (l.isEmpty && rest.isEmpty) then ([], rest)
    else
      let (body, after) := hereText delimiter stripTabs rest
      (line :: body, after)

def splitLines (cs : List Char) : List (List Char) :=
  cs.foldr (fun c ls =>
    if c = '\n' then [] :: ls
    else match ls with
      | [] => [[c]]
      | l :: rest => (c :: l) :: rest) [[]]

def unlines (ls : List (List Char)) : List Char := List.intercalate ['\n'] ls

/-- Takes the text of a redirection out of the lines after the current one. -/
def takeHere (delimiter : Word) (stripTabs : Bool) (cs : List Char) :
    Except String (Word × List Char) :=
  let current := cs.takeWhile (· ≠ '\n')
  let below := (cs.dropWhile (· ≠ '\n')).drop 1
  let (body, after) := hereText (delimiter.flatMap Piece.written) stripTabs (splitLines below)
  let text := body.flatMap (fun l => l ++ ['\n'])
  let rest := current ++ '\n' :: unlines after
  if delimiter.all isBare then
    match pieces (text.length + 2) .here [] text with
    | .ok (word, _) => .ok (word, rest)
    | .error e => .error e
  else .ok ([.quoted text], rest)

structure Lexed where
  lexemes : List Lexeme
  fault : Option SyntaxFault
deriving Repr, Inhabited

def Lexed.add (x : Lexeme) (l : Lexed) : Lexed := { l with lexemes := x :: l.lexemes }

def newlines (before after : List Char) : Nat :=
  before.count '\n' - after.count '\n'

/-- Where the text ends without what has to come. -/
def atEnd (line : Nat) (text : List Char) (reason : String) : SyntaxFault :=
  ⟨line + text.count '\n', reason⟩

/-- A redirection, whose channel has been read. -/
def lexHere (channel : Option Nat) (stripTabs : Bool) (r : List Char) :
    Except String (Token × List Char) :=
  let start := r.dropWhile isBlankChar
  match pieces (start.length + 2) .word [] start with
  | .error e => .error e
  | .ok (delimiter, r') =>
    match takeHere delimiter stripTabs r' with
    | .error e => .error e
    | .ok (body, r'') => .ok (.here channel body, r'')

def isHere (op : String) : Bool := op = "<<" || op = "<<-"

/-- The tokens of a text that starts at a line. `taken` lines have been taken out from below the
current one. -/
def lex : Nat → Nat → Nat → List Char → Lexed
  | 0, line, _, _ => ⟨[], some ⟨line, "script too long"⟩⟩
  | _, _, _, [] => ⟨[], none⟩
  | fuel + 1, line, taken, c :: r =>
    if isBlankChar c then lex fuel line taken r
    else if c = '\n' then
      let next := line + taken + 1
      (lex fuel next 0 r).add ⟨next, .op "\n"⟩
    else if c = '#' then lex fuel line taken (r.dropWhile (· ≠ '\n'))
    else if c = '\\' && r.head? = some '\n' then lex fuel (line + 1) taken r.tail
    else
      let failed (e : String) : Lexed := ⟨[], some (atEnd (line + taken) r e)⟩
      let redirect (channel : Option Nat) (op : String) (rest : List Char) : Lexed :=
        if isHere op then
          match lexHere channel (op = "<<-") rest with
          | .ok (token, rest') =>
            (lex fuel line (taken + newlines rest rest') rest').add ⟨line, token⟩
          | .error e => failed e
        else (lex fuel line taken rest).add ⟨line, .redirect channel op⟩
      match operator? (c :: r) with
      | some (op, rest) =>
        if isRedirect op then redirect none op rest
        else (lex fuel line taken rest).add ⟨line, .op op⟩
      | none =>
        match pieces (2 * (r.length + 2)) .word [] (c :: r) with
        | .error e => failed e
        | .ok (word, rest) =>
          let line' := line + newlines (c :: r) rest
          match word, operator? rest with
          | [.plain digits], some (op, rest') =>
            if isRedirect op && digits.all Char.isDigit then
              redirect (some (Text.numberIn 10 digits)) op rest'
            else (lex fuel line' taken rest).add ⟨line', .word word⟩
          | _, _ => (lex fuel line' taken rest).add ⟨line', .word word⟩

/-- The tokens of a script that starts at a line. -/
def lexFrom (line : Nat) (text : List Char) : Lexed := lex (2 * text.length + 2) line 0 text

end Testbed.Shell
