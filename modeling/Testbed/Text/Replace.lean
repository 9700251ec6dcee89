/-! Replacing every occurrence of a word in a text, from the left and without overlap. What a
replacement puts in is not searched again. -/
namespace Testbed.Text

/-- `s` without `p` at its front, if it stands there. -/
def stripStart? : List Char → List Char → Option (List Char)
  | [], s => some s
  | _ :: _, [] => none
  | c :: p, d :: s => if c = d then stripStart? p s else none

/-- `s` without `p` at its end, if it stands there. -/
def stripEnd? (p s : List Char) : Option (List Char) :=
  (stripStart? p.reverse s.reverse).map List.reverse

/-- Replacement that has the first `skip` characters of the text behind it already. -/
def replaceFrom (word new : List Char) : Nat → List Char → List Char
  | _, [] => []
  | skip + 1, _ :: s => replaceFrom word new skip s
  | 0, c :: s =>
    if word.isPrefixOf (c :: s) then new ++ replaceFrom word new (word.length - 1) s
    else c :: replaceFrom word new 0 s

def replaceAll (word new s : List Char) : List Char := replaceFrom word new 0 s

/-- The pairs of the table applied one after the other, each to the result of those before. -/
def replaceEach (table : List (List Char × List Char)) (s : List Char) : List Char :=
  table.foldl (fun t e => replaceAll e.1 e.2 t) s

end Testbed.Text
