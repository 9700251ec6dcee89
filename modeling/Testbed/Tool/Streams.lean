import Testbed.Tool.Basic

/-! Programs that pass bytes on: from files or their input to their output. -/
namespace Testbed.Tool

open Host (Location Tree OsError Body)

/-! ### Sources -/

/-- What a program reads; zeros without end have no bytes of their own. -/
def Input.bytes : Input → Bytes
  | .data bs => bs
  | .zeros => []

/-- At most the first `n` bytes. -/
def Input.take (n : Nat) : Input → Bytes
  | .data bs => bs.take n
  | .zeros => List.replicate n 0

/-- An operand opened for reading; a dash is the input. -/
def openOperand (c : Call) (path : String) : Except OsError Input :=
  if path = "-" then .ok c.input
  else
    match c.tree.bodyOf c.cwd path with
    | .ok .zeros => .ok .zeros
    | .ok body => .ok (.data (Tree.dataOf body))
    | .error e => .error e

/-- Goes through the operands, or the input when there are none. -/
def eachInput (c : Call) (paths : List String) (complaint : String → OsError → String)
    (f : String → Input → Bytes) : Answer :=
  let results := (if paths.isEmpty then ["-"] else paths).map (fun p =>
    match openOperand c p with
    | .ok input => ((1, f p input), true)
    | .error e => ((2, Text.encode s!"{c.name}: {complaint p e}\n"), false))
  ⟨c.tree, results.map Prod.fst, if results.all Prod.snd then 0 else 1, 0⟩

def plainComplaint (path : String) (e : OsError) : String := s!"{path}: {wording e}"

/-- All bytes of the operands, with the complaints about those that cannot be read. -/
def gather (c : Call) (paths : List String) : Bytes × Answer :=
  let a := eachInput c paths plainComplaint (fun _ input => input.bytes)
  let data := (a.writes.filter (fun w => w.1 == 1)).flatMap Prod.snd
  (data, { a with writes := a.writes.filter (fun w => w.1 != 1) })

def Answer.print (a : Answer) (bytes : Bytes) : Answer := { a with writes := a.writes ++ [(1, bytes)] }

/-! ### Whole and in part -/

def cat (c : Call) : Answer :=
  eachInput c (options [] c.args).2 plainComplaint (fun _ input => input.bytes)

/-- Lines whose feeds close them; a last line may have none. -/
def splitAfterFeeds (bs : Bytes) : List Bytes :=
  let step (st : List Bytes × Bytes) (b : UInt8) : List Bytes × Bytes :=
    if b = 10 then ((b :: st.2).reverse :: st.1, []) else (st.1, b :: st.2)
  let (done, open_) := bs.foldl step ([], [])
  (if open_.isEmpty then done else open_.reverse :: done).reverse

def headComplaint (path : String) (e : OsError) : String :=
  if e = .isDirectory then s!"error reading {quote path}: {wording e}"
  else s!"cannot open {quote path} for reading: {wording e}"

/-- `-5` is short for `-n 5`. -/
def longCount (args : List String) : List String :=
  match args with
  | a :: rest =>
    match a.toList with
    | '-' :: d :: ds => if isDigits (d :: ds) then "-n" :: String.ofList (d :: ds) :: rest else args
    | _ => args
  | [] => []

def counted (opts : List (Char × String)) (c : Char) : Option Nat :=
  (valueOf? opts c).bind nat?

def banner (several : Bool) (path : String) : Bytes :=
  let name := if path = "-" then "standard input" else path
  if several then Text.encode ("==> " ++ name ++ " <==\n") else []

def head (c : Call) : Answer :=
  let (opts, paths) := options ['n', 'c'] (longCount c.args)
  eachInput c paths headComplaint (fun p input =>
    banner (1 < paths.length) p ++
      match counted opts 'c' with
      | some n => input.take n
      | none => ((splitAfterFeeds input.bytes).take ((counted opts 'n').getD 10)).flatten)

def lastOf (n : Nat) (xs : List α) : List α := xs.drop (xs.length - n)

def tail (c : Call) : Answer :=
  let (opts, paths) := options ['n', 'c'] (longCount c.args)
  let from? (c : Char) : Option Nat :=
    (valueOf? opts c).bind (fun v =>
      match v.toList with
      | '+' :: ds => if isDigits ds then some (natOf ds) else none
      | _ => none)
  eachInput c paths headComplaint (fun p input =>
    banner (1 < paths.length) p ++
      match from? 'c', counted opts 'c', from? 'n' with
      | some n, _, _ => input.bytes.drop (n - 1)
      | none, some n, _ => lastOf n input.bytes
      | none, none, some n => ((splitAfterFeeds input.bytes).drop (n - 1)).flatten
      | none, none, none =>
        (lastOf ((counted opts 'n').getD 10) (splitAfterFeeds input.bytes)).flatten)

/-! ### Single bytes -/

def className? (name : String) : Option (Nat → Bool) :=
  let upper (n : Nat) : Bool := 65 ≤ n && n ≤ 90
  let lower (n : Nat) : Bool := 97 ≤ n && n ≤ 122
  let digit (n : Nat) : Bool := 48 ≤ n && n ≤ 57
  match name with
  | "upper" => some upper
  | "lower" => some lower
  | "digit" => some digit
  | "alpha" => some (fun n => upper n || lower n)
  | "alnum" => some (fun n => upper n || lower n || digit n)
  | "space" => some (fun n => n = 32 || (9 ≤ n && n ≤ 13))
  | "blank" => some (fun n => n = 32 || n = 9)
  | "punct" => some (fun n => 33 ≤ n && n ≤ 126 && !(upper n || lower n || digit n))
  | "print" => some (fun n => 32 ≤ n && n ≤ 126)
  | "cntrl" => some (fun n => n < 32 || n = 127)
  | _ => none

/-- The bytes of a set as it is written, less ranges and classes. -/
def setBytes : Nat → List Char → List (Nat × Bool)
  | 0, _ => []
  | _, [] => []
  | fuel + 1, '\\' :: c :: r =>
    if Text.isDigitIn 8 c then
      let ds := ((c :: r).take 3).takeWhile (Text.isDigitIn 8)
      (Text.numberIn 8 ds, true) ::
        setBytes fuel ((c :: r).drop ds.length)
    else
      let value := match c with
        | 'n' => 10
        | 't' => 9
        | 'r' => 13
        | 'a' => 7
        | 'b' => 8
        | 'f' => 12
        | 'v' => 11
        | _ => c.toNat
      (value, true) :: setBytes fuel r
  | fuel + 1, c :: r => (Text.encode (String.singleton c)).map (fun b => (b.toNat, false)) ++
      setBytes fuel r

def upTo (low high : Nat) : List Nat := (List.range (high + 1 - low)).map (· + low)

/-- Ranges filled in. -/
def ranges : List (Nat × Bool) → List Nat
  | (a, _) :: (45, false) :: (b, _) :: rest => upTo a b ++ ranges rest
  | (a, _) :: rest => a :: ranges rest
  | [] => []

def classIn? (cs : List Char) : Option ((Nat → Bool) × List Char) :=
  match cs with
  | '[' :: ':' :: r =>
    let name := r.takeWhile (· ≠ ':')
    match r.drop name.length with
    | ':' :: ']' :: rest => (className? (String.ofList name)).map (fun f => (f, rest))
    | _ => none
  | _ => none

def byteSet : Nat → List Char → List Char → List Nat
  | 0, _, _ => []
  | _, seen, [] => ranges (setBytes (seen.length + 1) seen.reverse)
  | fuel + 1, seen, c :: r =>
    match classIn? (c :: r) with
    | some (f, rest) =>
      ranges (setBytes (seen.length + 1) seen.reverse) ++ (List.range 256).filter f ++
        byteSet fuel [] rest
    | none => byteSet fuel (c :: seen) r

def setOf (s : String) : List Nat := byteSet (s.length + 1) [] s.toList

/-- `to` is as long as `source`: its last byte is repeated. -/
def substitute (source target : List Nat) (b : Nat) : Nat :=
  match source.reverse.idxOf? b, target.getLast? with
  | some i, some last => target.getD (source.length - 1 - i) last
  | _, _ => b

def squeeze (set : List Nat) : Option Nat → List Nat → List Nat
  | _, [] => []
  | last, b :: r =>
    if last = some b && set.contains b then squeeze set last r else b :: squeeze set (some b) r

def tr (c : Call) : Answer :=
  let (opts, sets) := options [] c.args
  let bytes := c.input.bytes.map UInt8.toNat
  let print (bs : List Nat) : Answer := .ofBytes c (bs.map UInt8.ofNat)
  let complemented (s : List Nat) : List Nat :=
    if has opts 'c' || has opts 'C' then (List.range 256).filter (fun b => !s.contains b) else s
  match sets with
  | [] => .complain c (missing c "operand") 1
  | [one] =>
    let set := complemented (setOf one)
    if has opts 'd' then print (bytes.filter (fun b => !set.contains b))
    else if has opts 's' then print (squeeze set none bytes)
    else
      .complain c (withHint c (s!"missing operand after {quote one}\n" ++
        "Two strings must be given when translating.")) 1
  | one :: two :: _ =>
    let set := complemented (setOf one)
    let target := setOf two
    if has opts 'd' then print (squeeze target none (bytes.filter (fun b => !set.contains b)))
    else
      let table := (List.range 256).map (substitute set target)
      let out := bytes.map (fun b => table.getD b b)
      print (if has opts 's' then squeeze target none out else out)

/-! ### Lines -/

/-- A number that ends at a column, or later. -/
def column (width n : Nat) : String :=
  let text := toString n
  String.ofList (List.replicate (width - text.length) ' ') ++ text

/-- How many words there are. -/
def wordCount (bs : Bytes) : Nat :=
  let isBlank (b : UInt8) : Bool := b = 32 || (9 ≤ b && b ≤ 13)
  (bs.foldl (fun (st : Nat × Bool) b =>
    if isBlank b then (st.1, false) else (if st.2 then st.1 else st.1 + 1, true)) (0, false)).1

/-- The counts that are asked for: lines, words and bytes. -/
def counts (opts : List (Char × String)) (bs : Bytes) : List Nat :=
  let bytes := has opts 'c' || has opts 'm'
  let all := !(has opts 'l' || has opts 'w' || bytes)
  (if all || has opts 'l' then [bs.count 10] else []) ++
    (if all || has opts 'w' then [wordCount bs] else []) ++
    (if all || bytes then [bs.length] else [])

def wc (c : Call) : Answer :=
  let (opts, paths) := options [] c.args
  let operands := if paths.isEmpty then ["-"] else paths
  let sizeOf (p : String) : Option Nat :=
    match if p = "-" then .error .notFound else c.tree.bodyOf c.cwd p with
    | .ok (.bytes data) => some data.length
    | _ => none
  let sizes := operands.filterMap sizeOf
  let width :=
    if operands.length = 1 && (counts opts []).length = 1 then 1
    else
      let least := if sizes.length = operands.length then 1 else 7
      max least (toString (sizes.foldl (· + ·) 0)).length
  let render (ns : List Nat) (name : String) : Bytes :=
    Text.encode (" ".intercalate (ns.map (column width)) ++ (if name = "" then "" else " " ++ name) ++ "\n")
  let a := eachInput c paths plainComplaint (fun p input =>
    render (counts opts input.bytes) (if paths.isEmpty then "" else p))
  if paths.length ≤ 1 then a
  else
    let all := (paths.filterMap (fun p => (openOperand c p).toOption)).map (fun input => counts opts input.bytes)
    let totals := all.foldl (List.zipWith (· + ·)) ((counts opts []).map (fun _ => 0))
    a.print (render totals "total")

def unfeed (line : Bytes) : Bytes := if line.getLast? = some 10 then line.dropLast else line

def sort (c : Call) : Answer :=
  let (opts, paths) := options ['k', 't', 'o'] c.args
  let (data, a) := gather c paths
  let le (x y : Bytes) : Bool :=
    if has opts 'n' then
      let key (l : Bytes) : Int :=
        ((int? (String.ofList ((Text.decodeLossy l).toList.takeWhile
          (fun ch => ch.isDigit || ch = '-' || ch = ' ')))).getD 0)
      key x < key y || (key x == key y && decide (x ≤ y))
    else decide (x ≤ y)
  let sorted := ((splitAfterFeeds data).map unfeed).mergeSort le
  let unique := if has opts 'u' then sorted.eraseReps else sorted
  let ordered := if has opts 'r' then unique.reverse else unique
  a.print (ordered.flatMap (fun l => l ++ [10]))

/-- Each line once for a stretch of equal ones, with the length of the stretch. -/
def stretches : List Bytes → List (Bytes × Nat)
  | [] => []
  | l :: ls =>
    match stretches ls with
    | (m, n) :: rest => if l = m then (m, n + 1) :: rest else (l, 1) :: (m, n) :: rest
    | [] => [(l, 1)]

def uniq (c : Call) : Answer :=
  let (opts, paths) := options ['f', 's', 'w'] c.args
  let (data, a) := gather c paths
  let kept := (stretches ((splitAfterFeeds data).map unfeed)).filter (fun s =>
    (!has opts 'd' || 1 < s.2) && (!has opts 'u' || s.2 = 1))
  let line (s : Bytes × Nat) : Bytes :=
    (if has opts 'c' then Text.encode (column 7 s.2 ++ " ") else []) ++ s.1 ++ [10]
  a.print (kept.flatMap line)

def occursIn (text : List Char) : List Char → Bool
  | [] => text.isEmpty
  | c :: r => text.isPrefixOf (c :: r) || occursIn text r

/-- Whether a line holds a literal text, at its ends where the pattern is anchored. -/
def matchesLine (fixed whole : Bool) (pattern line : List Char) : Bool :=
  let front := !fixed && pattern.head? = some '^'
  let inner := if front then pattern.tail else pattern
  let back := !fixed && inner.getLast? = some '$'
  let text := if back then inner.dropLast else inner
  if whole || (front && back) then line = text
  else if front then text.isPrefixOf line
  else if back then text.isSuffixOf line
  else occursIn text line

/-- Finds lines that hold a text. -/
def grep (c : Call) : Answer :=
  let (opts, operands) := options ['e', 'm'] c.args
  let (pattern, paths) := match valueOf? opts 'e', operands with
    | some p, ps => (p, ps)
    | none, p :: ps => (p, ps)
    | none, [] => ("", [])
  let (data, a) := gather c paths
  let fold (cs : List Char) : List Char := if has opts 'i' then cs.map Char.toLower else cs
  let found := ((splitAfterFeeds data).map unfeed).filter (fun l =>
    matchesLine (has opts 'F') (has opts 'x') (fold pattern.toList)
      (fold (Text.decodeLossy l).toList) != has opts 'v')
  let status := if a.status ≠ 0 then 2 else if found.isEmpty then 1 else 0
  let out := if has opts 'q' then []
    else if has opts 'c' then Text.encode s!"{found.length}\n"
    else found.flatMap (fun l => l ++ [10])
  { a.print out with status := status }

def tee (c : Call) : Answer :=
  let (opts, paths) := options [] c.args
  let data := c.input.bytes
  let step (path : String) : FileStep := fun t =>
    mapError (fun e => s!"{path}: {wording e}")
      ((t.update c.cwd path (fun old => if has opts 'a' then old ++ data else data)).map Prod.snd)
  (eachStep c (paths.map step)).print data

def seq (c : Call) : Answer :=
  let count (first step last : Int) : List Int :=
    if step = 0 then []
    else (List.range ((last - first) / step + 1).toNat).map (fun (i : Nat) => first + step * i)
  let numbers := match c.args.map int? with
    | [some last] => some (count 1 1 last)
    | [some first, some last] => some (count first 1 last)
    | [some first, some step, some last] => some (count first step last)
    | _ => none
  match numbers with
  | some ns => .ofText c (String.join (ns.map (fun n => s!"{n}\n")))
  | none => .complain c (missing c "operand") 1

end Testbed.Tool
