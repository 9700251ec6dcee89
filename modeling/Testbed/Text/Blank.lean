/-! Blanks, and the ways of cutting a text at them. A blank is a character of Unicode's
`White_Space` property; a text is a list of characters. -/
namespace Testbed.Text

def isBlank (c : Char) : Bool :=
  let n := c.toNat
  (9 ≤ n && n ≤ 13) || n == 0x20 || n == 0x85 || n == 0xA0 || n == 0x1680 ||
    (0x2000 ≤ n && n ≤ 0x200A) || n == 0x2028 || n == 0x2029 || n == 0x202F || n == 0x205F ||
    n == 0x3000

/-! ### Trimming -/

def trimStart (s : List Char) : List Char := s.dropWhile isBlank

def trimEnd (s : List Char) : List Char := (s.reverse.dropWhile isBlank).reverse

def trim (s : List Char) : List Char := trimEnd (trimStart s)

/-! ### Cutting -/

/-- The stretches between the characters that `cut` holds of; one more than there are such
characters, so the empty text has one empty piece. -/
def pieces (cut : Char → Bool) (s : List Char) : List (List Char) :=
  s.foldr
    (fun c ps =>
      if cut c then [] :: ps
      else match ps with
        | [] => [[c]]
        | p :: rest => (c :: p) :: rest)
    [[]]

/-- The maximal runs without a blank. -/
def words (s : List Char) : List (List Char) :=
  (pieces isBlank s).filter (fun w => !w.isEmpty)

/-- One carriage return at the end of a finished line belongs to its line end. -/
def dropReturn (line : List Char) : List Char :=
  if line.getLast? = some '\r' then line.dropLast else line

/-- The lines of a text. A line feed ends a line, so none is left after a final one. -/
def lines (s : List Char) : List (List Char) :=
  let ps := pieces (· == '\n') s
  let last := match ps.getLast? with
    | some (c :: r) => [c :: r]
    | _ => []
  ps.dropLast.map dropReturn ++ last

/-- `sep` between neighbours. -/
def joinWith (sep : List Char) : List (List Char) → List Char
  | [] => []
  | [w] => w
  | w :: rest => w ++ sep ++ joinWith sep rest

end Testbed.Text
