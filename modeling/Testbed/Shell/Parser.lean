import Testbed.Shell.Lexer

/-! From tokens to commands. A script is a list of complete commands, one or more lines each, and
possibly a fault at which reading ends; the commands before the fault are run. -/
namespace Testbed.Shell

structure Parsed where
  commands : List Script
  fault : Option SyntaxFault
deriving Repr, Inhabited

/-- A fault at a line or, without one, at the end of the text. -/
structure Misfit where
  line : Option Nat
  reason : String
deriving DecidableEq, Repr, Inhabited

abbrev Parse (α : Type) := Except Misfit (α × List Lexeme)

/-- The word that a token is, when it is written without quotes. -/
def Lexeme.bare? (x : Lexeme) : Option String :=
  match x.token with
  | .word [.plain text] => some (String.ofList text)
  | _ => none

def Lexeme.word? (x : Lexeme) : Option Word :=
  match x.token with
  | .word w => some w
  | _ => none

def Lexeme.op? (x : Lexeme) : Option String :=
  match x.token with
  | .op text => some text
  | _ => none

/-- The words that end a list of commands. -/
def terminators : List String :=
  ["then", "else", "elif", "fi", "do", "done", "esac", "\x7d", ")", ";;"]

def Lexeme.isTerminator (x : Lexeme) : Bool :=
  match x.bare?, x.op? with
  | some w, _ => terminators.contains w
  | _, some op => op = ")" || op = ";;"
  | _, _ => false

/-- Words with a meaning of their own where a command may begin. -/
def reserved : List String :=
  ["!", "case", "for", "if", "in", "until", "while", "\x7b"] ++ terminators

/-- How a fault names a token. -/
def Lexeme.name (x : Lexeme) : String :=
  match x.token with
  | .op "\n" => "newline"
  | .op text => "\"" ++ text ++ "\""
  | .redirect .. | .here .. => "redirection"
  | .word _ =>
    match x.bare? with
    | some w => if reserved.contains w then "\"" ++ w ++ "\"" else "word"
    | none => "word"

def unexpectedAs (name : Lexeme → String) (toks : List Lexeme) (expecting : Option String) : Misfit :=
  let hint := match expecting with
    | some w => " (expecting \"" ++ w ++ "\")"
    | none => ""
  match toks with
  | x :: _ => ⟨some x.line, name x ++ " unexpected" ++ hint⟩
  | [] => ⟨none, "end of file unexpected" ++ hint⟩

def unexpected : List Lexeme → Option String → Misfit := unexpectedAs Lexeme.name

/-- Where no word is reserved. -/
def unexpectedWord : List Lexeme → Option String → Misfit :=
  unexpectedAs (fun x => match x.token with
    | .word _ => "word"
    | _ => x.name)

def skipNewlines : List Lexeme → List Lexeme
  | x :: rest => if x.op? = some "\n" then skipNewlines rest else x :: rest
  | [] => []

/-- Takes one operator or reserved word. -/
def expect (word : String) (toks : List Lexeme) : Except Misfit (List Lexeme) :=
  match toks with
  | x :: rest =>
    if x.bare? = some word || x.op? = some word then .ok rest else .error (unexpected toks (some word))
  | [] => .error (unexpected toks (some word))

/-! ### Simple commands -/

/-- The name and the rest of a word of the form `NAME=…`. -/
def assignment? (w : Word) : Option (String × Word) :=
  match w with
  | .plain text :: rest =>
    let name := text.takeWhile isNameChar
    match text.drop name.length with
    | '=' :: value =>
      if (name.head?.map isNameStart).getD false then
        some (String.ofList name, if value.isEmpty then rest else .plain value :: rest)
      else none
    | _ => none
  | _ => none

def defaultChannel (kind : String) : Nat := if kind.toList.head? = some '<' then 0 else 1

def opOf (kind : String) : RedirectOp :=
  if kind = "<" || kind = "<>" then .read
  else if kind = ">>" then .append
  else if kind = ">&" || kind = "<&" then .duplicate
  else .write

/-- One redirection, when the next token is one. -/
def redirect? (toks : List Lexeme) : Option (Except Misfit (Redirect × List Lexeme)) :=
  match toks with
  | [] => none
  | x :: rest =>
    match x.token with
    | .redirect channel kind =>
      match rest with
      | y :: rest' =>
        match y.token with
        | .word w => some (.ok (⟨channel.getD (defaultChannel kind), opOf kind, w⟩, rest'))
        | _ => some (.error (unexpected rest none))
      | [] => some (.error (unexpected rest none))
    | .here channel body => some (.ok (⟨channel.getD 0, .here body, []⟩, rest))
    | _ => none

def redirects : Nat → List Lexeme → Parse (List Redirect)
  | 0, toks => .ok ([], toks)
  | fuel + 1, toks =>
    match redirect? toks with
    | none => .ok ([], toks)
    | some (.error e) => .error e
    | some (.ok (r, rest)) => (redirects fuel rest).map (fun p => (r :: p.1, p.2))

structure SimpleParts where
  assigns : List (String × Word)
  words : List Word
  redirects : List Redirect

def simpleParts : Nat → SimpleParts → List Lexeme → Parse SimpleParts
  | 0, parts, toks => .ok (parts, toks)
  | fuel + 1, parts, toks =>
    match redirect? toks with
    | some (.error e) => .error e
    | some (.ok (r, rest)) => simpleParts fuel { parts with redirects := parts.redirects ++ [r] } rest
    | none =>
      match toks with
      | [] => .ok (parts, [])
      | x :: rest =>
        match x.token with
        | .word w =>
          match (if parts.words.isEmpty then assignment? w else none) with
          | some a => simpleParts fuel { parts with assigns := parts.assigns ++ [a] } rest
          | none => simpleParts fuel { parts with words := parts.words ++ [w] } rest
        | _ => .ok (parts, toks)

def simple (line : Nat) (toks : List Lexeme) : Parse Script :=
  match simpleParts toks.length ⟨[], [], []⟩ toks with
  | .error e => .error e
  | .ok (⟨[], [], []⟩, rest) => .error (unexpected rest none)
  | .ok (p, rest) => .ok (.simple line p.assigns p.words p.redirects, rest)

/-! ### Compound commands -/

/-- Commands whose failures end the shell and whose assignments stay. -/
def isSpecialCommand (name : String) : Bool :=
  [":", ".", "break", "continue", "eval", "exec", "exit", "export", "readonly", "return", "set",
   "shift", "times", "trap", "unset"].contains name

def isFunctionName (name : String) : Bool := isName name && !isSpecialCommand name


/-- The words of a `for` up to the end of its line. -/
def wordList : List Lexeme → List Word × List Lexeme
  | x :: rest =>
    match x.token with
    | .word w =>
      let (ws, rest') := wordList rest
      (w :: ws, rest')
    | _ => ([], x :: rest)
  | [] => ([], [])

/-- What a loop goes through: words after `in`, which a line or a semicolon ends, or the
parameters. -/
def loopWords (toks : List Lexeme) : Parse (Option (List Word)) :=
  match toks with
  | x :: rest =>
    if x.bare? = some "in" then
      let (ws, after) := wordList rest
      match after with
      | y :: more =>
        if y.op? = some "\n" || y.op? = some ";" then .ok (some ws, more)
        else .error (unexpected after none)
      | [] => .error (unexpected [] none)
    else .ok (none, if x.op? = some ";" then rest else toks)
  | [] => .ok (none, [])

/-- The patterns of one arm of a `case`. -/
def patterns : Nat → List Lexeme → Parse (List Word)
  | 0, toks => .error (unexpected toks (some ")"))
  | fuel + 1, toks =>
    match toks with
    | x :: y :: rest =>
      match x.token with
      | .word w =>
        if y.op? = some "|" then (patterns fuel rest).map (fun p => (w :: p.1, p.2))
        else if y.op? = some ")" then .ok ([w], rest)
        else .error (unexpectedWord (y :: rest) (some ")"))
      | _ => .error (unexpected toks none)
    | _ => .error (unexpected toks (some ")"))

mutual

/-- Commands with separators between them, over several lines when `multi` holds. There may be none
when `orNone` holds. -/
def list : Nat → Bool → Bool → List Lexeme → Parse Script
  | 0, _, _, toks => .error (unexpected toks none)
  | fuel + 1, multi, orNone, toks =>
    let toks := if multi then skipNewlines toks else toks
    match toks with
    | [] => .ok (.nothing, [])
    | x :: _ =>
      if orNone && x.isTerminator then .ok (.nothing, toks)
      else
        match andOr fuel toks with
        | .error e => .error e
        | .ok (first, rest) => listRest fuel multi first rest

def listRest : Nat → Bool → Script → List Lexeme → Parse Script
  | 0, _, _, toks => .error (unexpected toks none)
  | fuel + 1, multi, first, toks =>
    let goOn (first : Script) (rest : List Lexeme) : Parse Script :=
      if !multi && ((rest.head?.map (fun y => y.op? == some "\n")).getD true) then .ok (first, rest)
      else
        match list fuel multi true rest with
        | .ok (.nothing, rest') => .ok (first, rest')
        | .ok (second, rest') => .ok (.sequence first second, rest')
        | .error e => .error e
    match toks with
    | [] => .ok (first, [])
    | x :: rest =>
      if x.op? = some ";" then goOn first rest
      else if x.op? = some "&" then goOn (.background first) rest
      else if x.op? = some "\n" && multi then goOn first rest
      else .ok (first, toks)

def andOr : Nat → List Lexeme → Parse Script
  | 0, toks => .error (unexpected toks none)
  | fuel + 1, toks =>
    match pipeline fuel toks with
    | .error e => .error e
    | .ok (first, rest) => andOrRest fuel first rest

def andOrRest : Nat → Script → List Lexeme → Parse Script
  | 0, _, toks => .error (unexpected toks none)
  | fuel + 1, first, toks =>
    match toks with
    | x :: rest =>
      if x.op? = some "&&" || x.op? = some "||" then
        match pipeline fuel (skipNewlines rest) with
        | .error e => .error e
        | .ok (second, rest') =>
          andOrRest fuel (if x.op? = some "&&" then .both first second else .either first second) rest'
      else .ok (first, toks)
    | [] => .ok (first, [])

def pipeline : Nat → List Lexeme → Parse Script
  | 0, toks => .error (unexpected toks none)
  | fuel + 1, toks =>
    let negated := (toks.head?.bind Lexeme.bare?) = some "!"
    match parts fuel (if negated then toks.tail else toks) with
    | .error e => .error e
    | .ok ([one], rest) => .ok (if negated then .pipeline true [one] else one, rest)
    | .ok (several, rest) => .ok (.pipeline negated several, rest)

def parts : Nat → List Lexeme → Parse (List Script)
  | 0, toks => .error (unexpected toks none)
  | fuel + 1, toks =>
    match command fuel toks with
    | .error e => .error e
    | .ok (first, rest) =>
      match rest with
      | x :: rest' =>
        if x.op? = some "|" then (parts fuel (skipNewlines rest')).map (fun p => (first :: p.1, p.2))
        else .ok ([first], rest)
      | [] => .ok ([first], [])

def command : Nat → List Lexeme → Parse Script
  | 0, toks => .error (unexpected toks none)
  | fuel + 1, toks =>
    let wrapped (r : Parse Script) (make : Script → List Redirect → Script) : Parse Script :=
      match r with
      | .error e => .error e
      | .ok (body, rest) => (redirects rest.length rest).map (fun p => (make body p.1, p.2))
    let grouped (body : Script) (rs : List Redirect) : Script :=
      if rs.isEmpty then body else .together body rs
    match toks with
    | [] => .error (unexpected toks none)
    | x :: rest =>
      if x.op? = some "(" then
        wrapped (enclosed fuel ")" rest) .apart
      else
        match x.bare? with
        | some "\x7b" => wrapped (enclosed fuel "\x7d" rest) .together
        | some "if" => wrapped (branches fuel rest) grouped
        | some "while" => wrapped (loop fuel true rest) grouped
        | some "until" => wrapped (loop fuel false rest) grouped
        | some "for" => wrapped (forEach fuel rest) grouped
        | some "case" => wrapped (choice fuel rest) grouped
        | name? =>
          if x.isTerminator || name? = some "!" || name? = some "in" then
            .error (unexpected toks none)
          else
            match name?, rest with
            | some name, y :: rest' =>
              if y.op? = some "(" && (x.word?.bind assignment?).isNone then
                match rest' with
                | z :: rest'' =>
                  if z.op? = some ")" then
                    if isFunctionName name then
                      match command fuel (skipNewlines rest'') with
                      | .ok (body, rest'') => .ok (.define name body, rest'')
                      | .error e => .error e
                    else .error ⟨some z.line, "Bad function name"⟩
                  else .error (unexpectedWord rest' (some ")"))
                | [] => .error (unexpected [] (some ")"))
              else simple x.line toks
            | _, _ => simple x.line toks

/-- A list up to a closing word. -/
def enclosed : Nat → String → List Lexeme → Parse Script
  | 0, _, toks => .error (unexpected toks none)
  | fuel + 1, close, toks =>
    match list fuel true false toks with
    | .error e => .error e
    | .ok (body, rest) =>
      match expect close rest with
      | .ok rest' => .ok (body, rest')
      | .error e => .error e

/-- What stands after `if` or `elif`. -/
def branches : Nat → List Lexeme → Parse Script
  | 0, toks => .error (unexpected toks none)
  | fuel + 1, toks =>
    match enclosed fuel "then" toks with
    | .error e => .error e
    | .ok (condition, rest) =>
      match list fuel true false rest with
      | .error e => .error e
      | .ok (yes, rest') =>
        match rest' with
        | [] => .error (unexpected [] (some "fi"))
        | x :: rest'' =>
          match x.bare? with
          | some "fi" => .ok (.branch condition yes .nothing, rest'')
          | some "elif" =>
            (branches fuel rest'').map (fun p => (.branch condition yes p.1, p.2))
          | some "else" =>
            (enclosed fuel "fi" rest'').map (fun p => (.branch condition yes p.1, p.2))
          | _ => .error (unexpected rest' (some "fi"))

def loop : Nat → Bool → List Lexeme → Parse Script
  | 0, _, toks => .error (unexpected toks none)
  | fuel + 1, holds, toks =>
    match enclosed fuel "do" toks with
    | .error e => .error e
    | .ok (condition, rest) =>
      (enclosed fuel "done" rest).map (fun p => (.repeated holds condition p.1, p.2))

def forEach : Nat → List Lexeme → Parse Script
  | 0, toks => .error (unexpected toks none)
  | fuel + 1, toks =>
    match toks with
    | x :: rest =>
      match x.bare? with
      | none => .error ⟨some x.line, "Bad for loop variable"⟩
      | some name =>
        if !isName name then .error ⟨some x.line, "Bad for loop variable"⟩
        else
          match loopWords (skipNewlines rest) with
          | .error e => .error e
          | .ok (words, rest') =>
            match expect "do" (skipNewlines rest') with
            | .error e => .error e
            | .ok rest'' =>
              (enclosed fuel "done" rest'').map (fun p => (.each name words p.1, p.2))
    | [] => .error ⟨none, "Bad for loop variable"⟩

def choice : Nat → List Lexeme → Parse Script
  | 0, toks => .error (unexpected toks none)
  | fuel + 1, toks =>
    match toks with
    | x :: rest =>
      match x.token with
      | .word subject =>
        match expect "in" (skipNewlines rest) with
        | .error e => .error e
        | .ok rest' => (arms fuel rest').map (fun p => (.choose subject p.1, p.2))
      | _ => .error (unexpected toks none)
    | [] => .error (unexpected [] none)

def arms : Nat → List Lexeme → Parse (List (List Word × Script))
  | 0, toks => .error (unexpected toks (some "esac"))
  | fuel + 1, toks =>
    match skipNewlines toks with
    | [] => .error (unexpected [] (some "esac"))
    | x :: rest =>
      if x.bare? = some "esac" then .ok ([], rest)
      else
        let start := if x.op? = some "(" then rest else x :: rest
        match patterns start.length start with
        | .error e => .error e
        | .ok (ps, rest') =>
          match list fuel true true rest' with
          | .error e => .error e
          | .ok (body, rest'') =>
            match rest'' with
            | y :: more =>
              if y.op? = some ";;" then (arms fuel more).map (fun p => ((ps, body) :: p.1, p.2))
              else if y.bare? = some "esac" then .ok ([(ps, body)], more)
              else .error (unexpected rest'' (some ";;"))
            | [] => .error (unexpected [] (some ";;"))

end

/-! ### Whole scripts -/

/-- Complete commands, one after the other. The text ends at `last`, or earlier in a fault. -/
def commandsOf : Nat → Nat → Option SyntaxFault → List Lexeme → Parsed
  | 0, _, fault, _ => ⟨[], fault⟩
  | fuel + 1, last, fault, toks =>
    let faultOf (m : Misfit) : SyntaxFault :=
      match m.line with
      | some line => ⟨line, m.reason⟩
      | none => fault.getD ⟨last, m.reason⟩
    match skipNewlines toks with
    | [] => ⟨[], fault⟩
    | toks' =>
      match list (16 * toks'.length + 16) false false toks' with
      | .error e => ⟨[], some (faultOf e)⟩
      | .ok (first, rest) =>
        let after (rest' : List Lexeme) : Parsed :=
          let more := commandsOf fuel last fault rest'
          { more with commands := first :: more.commands }
        match rest, fault with
        | [], none => ⟨[first], none⟩
        | [], some f => ⟨[], some f⟩
        | x :: rest', _ =>
          if x.op? = some "\n" then after rest' else ⟨[], some (faultOf (unexpected rest none))⟩

def parse (line : Nat) (text : List Char) : Parsed :=
  let lexed := lexFrom line text
  let last := line + text.count '\n'
  commandsOf (lexed.lexemes.length + 1) last lexed.fault lexed.lexemes

end Testbed.Shell
