import Testbed.Tool.Condition
import Testbed.Tool.Files
import Testbed.Tool.Format
import Testbed.Tool.Streams

/-! The programs of the system by name. Those that start other programs are not among them. -/
namespace Testbed.Tool

/-! ### Printing -/

def echo (c : Call) : Answer :=
  let isFlags (a : String) : Bool :=
    match a.toList with
    | '-' :: f :: fs => (f :: fs).all (fun x => x = 'n' || x = 'e' || x = 'E')
    | _ => false
  let flags := (c.args.takeWhile isFlags).flatMap String.toList
  let text := " ".intercalate (c.args.dropWhile isFlags)
  let escapes := (flags.filter (fun f => f = 'e' || f = 'E')).getLast? = some 'e'
  let (body, stop) := if escapes then Format.unescaped text else (Text.encode text, false)
  .ofBytes c (if stop || flags.contains 'n' then body else body ++ [10])

/-- What a formatted print answers. -/
def printed (c : Call) (s : Format.State) : Answer :=
  ⟨c.tree, (1, s.written) :: s.complaints.map (fun t => (2, Text.encode s!"{c.name}: {t}\n")),
    if s.complaints.isEmpty then 0 else 1, 0⟩

def numberComplaint (arg : String) (begun : Bool) : String :=
  quote arg ++ (if begun then ": value not completely converted" else ": expected a numeric value")

def printf (c : Call) : Answer :=
  let args := if c.args.head? = some "--" then c.args.tail else c.args
  match args with
  | [] => .complain c (missing c "operand") 1
  | format :: rest =>
    let s := Format.format numberComplaint format rest
    match s.args with
    | extra :: _ =>
      if s.ended then printed c s
      else
        let a := printed c s
        { a with writes := a.writes ++
          [(2, Text.encode s!"{c.name}: warning: ignoring excess arguments, starting with {quote extra}\n")] }
    | [] => printed c s

/-! ### Waiting -/

/-- A duration in milliseconds: a decimal number with an optional unit. -/
def duration? (s : String) : Option Nat :=
  let unit (c : Char) : Option Nat :=
    match c with
    | 's' => some 1000
    | 'm' => some 60000
    | 'h' => some 3600000
    | 'd' => some 86400000
    | _ => none
  let (number, scale) := match s.toList.getLast?.bind unit with
    | some scale => (s.toList.dropLast, scale)
    | none => (s.toList, 1000)
  let whole := number.takeWhile Char.isDigit
  match number.drop whole.length with
  | [] => if whole.isEmpty then none else some (natOf whole * scale)
  | '.' :: fraction =>
    if fraction.all Char.isDigit && !(whole.isEmpty && fraction.isEmpty) then
      some (natOf whole * scale + natOf fraction * scale / Nat.pow 10 fraction.length)
    else none
  | _ => none

def sleep (c : Call) : Answer :=
  match c.args.find? (fun a => (duration? a).isNone) with
  | some bad =>
    .complain c (withHint c s!"invalid time interval {quote bad}") 1
  | none =>
    if c.args.isEmpty then
      .complain c (missing c "operand") 1
    else { Answer.quiet c 0 with elapsed := (c.args.filterMap duration?).foldl (· + ·) 0 }

/-! ### Conditions -/

def conditionComplaint (args : List String) (fault : Condition.Fault) : String :=
  match fault, args with
  | .noNumber text, _ => s!"invalid integer {quote text}"
  | .noOperand op, _ => s!"missing argument after {quote op}"
  | .notClosed, _ => quote ")" ++ " expected"
  | .excess _ _, [a, _] => s!"{quote a}: unary operator expected"
  | .excess _ _, [_, op, _] => s!"{quote op}: binary operator expected"
  | .excess _ next, _ => s!"extra argument {quote next}"

def test (c : Call) : Answer :=
  let bracket := c.name = "["
  if bracket && c.args.getLast? ≠ some "]" then .complain c "missing ']'" 2
  else
    let args := if bracket then c.args.dropLast else c.args
    match Condition.evaluate ⟨c.tree, c.cwd, true⟩ args with
    | .ok true => .quiet c 0
    | .ok false => .quiet c 1
    | .error fault => .complain c (conditionComplaint args fault) 2

/-! ### By name -/

/-- Calls a program; one that is known by name only fails. -/
def call (program : String) (c : Call) : Answer :=
  match program with
  | "true" => .quiet c 0
  | "false" => .quiet c 1
  | "echo" => echo c
  | "printf" => printf c
  | "sleep" => sleep c
  | "test" | "[" => test c
  | "cat" => cat c
  | "head" => head c
  | "tail" => tail c
  | "tr" => tr c
  | "wc" => wc c
  | "sort" => sort c
  | "uniq" => uniq c
  | "grep" => grep c
  | "tee" => tee c
  | "seq" => seq c
  | "rm" => rm c
  | "rmdir" => rmdir c
  | "mkdir" => mkdir c
  | "touch" => touch c
  | "chmod" => chmod c
  | "cp" => cp c
  | "mv" => mv c
  | "ln" => ln c
  | "ls" => ls c
  | "pwd" => pwd c
  | "readlink" => readlink c
  | "realpath" => realpath c
  | "basename" => basename c
  | "dirname" => dirname c
  | _ => .quiet c 1

end Testbed.Tool
