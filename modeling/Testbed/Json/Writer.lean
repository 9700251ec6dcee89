import Testbed.Json.Basic
import Testbed.Text.Digit

/-! Writing JSON, on one line or laid out with two blanks for each level. Only quotes, backslashes
and control characters are escaped; an empty list or object stays on its line. -/
namespace Testbed.Json

def escapeChar (c : Char) : List Char :=
  if c = '"' then ['\\', '"']
  else if c = '\\' then ['\\', '\\']
  else if c = '\n' then ['\\', 'n']
  else if c = '\r' then ['\\', 'r']
  else if c = '\t' then ['\\', 't']
  else if c.toNat = 8 then ['\\', 'b']
  else if c.toNat = 12 then ['\\', 'f']
  else if c.toNat < 32 then
    ['\\', 'u', '0', '0', Text.digit (c.toNat / 16), Text.digit (c.toNat % 16)]
  else [c]

def quoted (s : String) : List Char := '"' :: s.toList.flatMap escapeChar ++ ['"']

def margin (depth : Nat) : List Char := List.replicate (2 * depth) ' '

/-! ### On one line -/

mutual

def compactChars : Json → List Char
  | .null => "null".toList
  | .bool true => "true".toList
  | .bool false => "false".toList
  | .int n => (toString n).toList
  | .real text => text.toList
  | .string s => quoted s
  | .array items => '[' :: compactItems items ++ [']']
  | .object members => '\x7b' :: compactMembers members ++ ['\x7d']

def compactItems : List Json → List Char
  | [] => []
  | [j] => compactChars j
  | j :: rest => compactChars j ++ ',' :: compactItems rest

def compactMembers : List (String × Json) → List Char
  | [] => []
  | [m] => compactMember m
  | m :: rest => compactMember m ++ ',' :: compactMembers rest

def compactMember : String × Json → List Char
  | (key, j) => quoted key ++ ':' :: compactChars j

end

def compact (j : Json) : String := String.ofList (compactChars j)

/-! ### Laid out -/

mutual

def prettyChars (depth : Nat) : Json → List Char
  | .null => "null".toList
  | .bool true => "true".toList
  | .bool false => "false".toList
  | .int n => (toString n).toList
  | .real text => text.toList
  | .string s => quoted s
  | .array [] => ['[', ']']
  | .array (j :: rest) =>
    '[' :: prettyItems (depth + 1) (j :: rest) ++ '\n' :: margin depth ++ [']']
  | .object [] => ['\x7b', '\x7d']
  | .object (m :: rest) =>
    '\x7b' :: prettyMembers (depth + 1) (m :: rest) ++ '\n' :: margin depth ++ ['\x7d']

def prettyItems (depth : Nat) : List Json → List Char
  | [] => []
  | [j] => '\n' :: margin depth ++ prettyChars depth j
  | j :: rest => '\n' :: margin depth ++ prettyChars depth j ++ ',' :: prettyItems depth rest

def prettyMembers (depth : Nat) : List (String × Json) → List Char
  | [] => []
  | [m] => prettyMember depth m
  | m :: rest => prettyMember depth m ++ ',' :: prettyMembers depth rest

def prettyMember (depth : Nat) : String × Json → List Char
  | (key, j) => '\n' :: margin depth ++ quoted key ++ ':' :: ' ' :: prettyChars depth j

end

def pretty (j : Json) : String := String.ofList (prettyChars 0 j)

end Testbed.Json
