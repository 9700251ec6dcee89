import Testbed.Tool.Basic

/-! Conditions: the expressions of `test`, read with the usual precedence. A word that may be an
operator is one where it has what it needs. -/
namespace Testbed.Tool.Condition

open Host (Location Tree Entry Body)

/-- What is wrong with a condition. -/
inductive Fault where
  | noNumber (text : String)
  | noOperand (op : String)
  /-- Something follows the last word that could be read. -/
  | excess (last next : String)
  | notClosed
deriving DecidableEq, Repr

structure Scope where
  tree : Tree
  cwd : Location
  /-- Two equal signs are as good as one. -/
  doubled : Bool

def isLink (s : Scope) (path : String) : Bool :=
  match s.tree.lstat s.cwd path with
  | .ok (_, .link _) => true
  | _ => false

def sizeOf (b : Body) : Nat :=
  match b with
  | .bytes data => data.length
  | .tool _ => 1
  | .zeros | .sink => 0

def fileTest (s : Scope) (op : Char) (path : String) : Bool :=
  if op = 'h' || op = 'L' then isLink s path
  else
    match s.tree.stat s.cwd path with
    | .error _ => false
    | .ok (_, entry) =>
      match op, entry with
      | 'e', _ | 'r', _ | 'w', _ => true
      | 'd', .directory | 'x', .directory | 's', .directory => true
      | 'f', .file (.bytes _) _ | 'f', .file (.tool _) _ => true
      | 's', .file body _ => sizeOf body != 0
      | 'x', .file _ mode => mode &&& 0o111 != 0
      | 'c', .file .zeros _ | 'c', .file .sink _ => true
      | _, _ => false

/-- The letter of an operator on one operand. -/
def unary? (op : String) : Option Char :=
  match op.toList with
  | ['-', c] => if "nzefdrwxshLtpScbugkOG".toList.contains c then some c else none
  | _ => none

def applyUnary (s : Scope) (op : Char) (arg : String) : Bool :=
  if op = 'n' then !arg.isEmpty else if op = 'z' then arg.isEmpty else fileTest s op arg

def comparison? (op : String) : Option (Int → Int → Bool) :=
  match op with
  | "-eq" => some (fun a b => a == b)
  | "-ne" => some (fun a b => a != b)
  | "-lt" => some (fun a b => a < b)
  | "-le" => some (fun a b => a ≤ b)
  | "-gt" => some (fun a b => b < a)
  | "-ge" => some (fun a b => b ≤ a)
  | _ => none

def textual? (doubled : Bool) (op : String) : Option (String → String → Bool) :=
  match op with
  | "=" => some (fun a b => a == b)
  | "==" => if doubled then some (fun a b => a == b) else none
  | "!=" => some (fun a b => a != b)
  | "<" => some (fun a b => a < b)
  | ">" => some (fun a b => b < a)
  | _ => none

/-- Comparisons of files. All files are equally old. -/
def files? (s : Scope) (op : String) : Option (String → String → Bool) :=
  match op with
  | "-nt" | "-ot" => some (fun _ _ => false)
  | "-ef" => some (fun a b =>
      match s.tree.stat s.cwd a, s.tree.stat s.cwd b with
      | .ok (x, _), .ok (y, _) => x == y
      | _, _ => false)
  | _ => none

/-- What an operator between two operands makes of them. -/
def binary? (s : Scope) (op : String) : Option (String → String → Except Fault Bool) :=
  match textual? s.doubled op, comparison? op, files? s op with
  | some f, _, _ | _, _, some f => some (fun a b => .ok (f a b))
  | _, some f, _ => some (fun a b =>
      match int? a, int? b with
      | some m, some n => .ok (f m n)
      | none, _ => .error (.noNumber a)
      | _, none => .error (.noNumber b))
  | none, none, none => none

/-- The operator that a word is in front of others. -/
def operator? (s : Scope) (word : String) (rest : List String) : Option Char :=
  match rest with
  | [] => none
  | [_] => unary? word
  | next :: _ :: _ => if (binary? s next).isSome then none else unary? word

/-- A value, the last word that was read for it and what follows. -/
abbrev Reading := Except Fault (Bool × String × List String)

mutual

def disjunction (s : Scope) : Nat → String → List String → Reading
  | 0, _, _ => .error .notClosed
  | fuel + 1, last, args =>
    match conjunction s fuel last args with
    | .ok (a, _, "-o" :: rest) => (disjunction s fuel "-o" rest).map (fun p => (a || p.1, p.2))
    | r => r

def conjunction (s : Scope) : Nat → String → List String → Reading
  | 0, _, _ => .error .notClosed
  | fuel + 1, last, args =>
    match primary s fuel last args with
    | .ok (a, _, "-a" :: rest) => (conjunction s fuel "-a" rest).map (fun p => (a && p.1, p.2))
    | r => r

def primary (s : Scope) : Nat → String → List String → Reading
  | 0, _, _ => .error .notClosed
  | fuel + 1, last, args =>
    match args with
    | [] => .ok (false, last, [])
    | "!" :: rest => (primary s fuel "!" rest).map (fun p => (!p.1, p.2))
    | "(" :: ")" :: rest => .ok (false, ")", rest)
    | "(" :: next :: rest =>
      match disjunction s fuel "(" (next :: rest) with
      | .ok (a, _, ")" :: rest') => .ok (a, ")", rest')
      | .ok _ => .error .notClosed
      | .error e => .error e
    | a :: rest =>
      match operator? s a rest, rest with
      | some c, b :: rest' => .ok (applyUnary s c b, b, rest')
      | _, op :: rest' =>
        match binary? s op, rest' with
        | some f, b :: rest'' => (f a b).map (fun v => (v, b, rest''))
        | some _, [] => .error (.noOperand op)
        | none, _ => .ok (!a.isEmpty, a, rest)
      | _, [] => .ok (!a.isEmpty, a, [])

end

def general (s : Scope) (args : List String) : Except Fault Bool :=
  match disjunction s (3 * args.length + 3) "" args with
  | .ok (a, _, []) => .ok a
  | .ok (_, last, next :: _) => .error (.excess last next)
  | .error e => .error e

/-- The value of a condition. Three words with an operator in the middle are never read
otherwise. -/
def evaluate (s : Scope) (args : List String) : Except Fault Bool :=
  match args with
  | [a, op, b] =>
    match binary? s op with
    | some f => f a b
    | none => if a = "(" && b = ")" then .ok (!op.isEmpty) else general s args
  | ["(", a, b, ")"] => general s [a, b]
  | _ => general s args

end Testbed.Tool.Condition
