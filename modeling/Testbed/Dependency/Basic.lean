import Testbed.Path

/-! Dependency sources: a package with a requirement, or a manifest file that lists packages.
Package names are compared in one normal form, and manifests by the components of their path. -/
namespace Testbed

inductive Dependency where
  | package (name requirement : String)
  | manifest (path : Path)
deriving DecidableEq, Repr, Inhabited

namespace Dependency

/-! ### Package names -/

def isSeparator (c : Char) : Bool := c = '-' || c = '_' || c = '.'

def lower (c : Char) : Char := if 'A' ≤ c ∧ c ≤ 'Z' then Char.ofNat (c.toNat + 32) else c

/-- Lower case in ASCII, with one `-` for each run of separators. `joined` says that a separator
stands just before. -/
def normalizeFrom : Bool → List Char → List Char
  | _, [] => []
  | joined, c :: s =>
    if isSeparator c then
      if joined then normalizeFrom true s else '-' :: normalizeFrom true s
    else lower c :: normalizeFrom false s

def normalize (name : List Char) : List Char := normalizeFrom false name

def normalizeName (name : String) : String := String.ofList (normalize name.toList)

/-! ### Reading a declared source -/

def isAlnum (c : Char) : Bool :=
  ('A' ≤ c && c ≤ 'Z') || ('a' ≤ c && c ≤ 'z') || ('0' ≤ c && c ≤ '9')

def isNameChar (c : Char) : Bool := isAlnum c || isSeparator c

/-- The name at the front of a requirement: the longest run of name characters that ends in a letter
or digit. -/
def nameOf (s : List Char) : List Char :=
  ((s.takeWhile isNameChar).reverse.dropWhile (fun c => !isAlnum c)).reverse

/-- `s` after one bracket group, if a closed one stands at its front. -/
def afterGroup (s : List Char) : List Char :=
  match s with
  | '[' :: r =>
    match r.dropWhile (· ≠ ']') with
    | _ :: rest => rest
    | [] => s
  | _ => s

/-- What follows name, blanks, an optional bracket group and blanks. -/
def constraintOf (s : List Char) : List Char :=
  Text.trimStart (afterGroup (Text.trimStart (s.drop (nameOf s).length)))

def opensConstraint (c : Char) : Bool :=
  c = '<' || c = '>' || c = '=' || c = '!' || c = '~' || c = ';' || c = '@' || c = ','

/-- The name that a requirement declares, as it is spelt there: a requirement starts with a letter
or digit, and its constraint stays on one line. -/
def requirementName? (s : List Char) : Option (List Char) :=
  match s with
  | c :: _ => if isAlnum c && !(constraintOf s).contains '\n' then some (nameOf s) else none
  | [] => none

def isConstraint (rest : List Char) : Bool :=
  match rest with
  | [] => true
  | c :: _ => opensConstraint c

def longOption : List Char := "--requirement".toList

def shortOption : List Char := "-r".toList

/-- The path of a manifest declaration, trimmed, when the text is one. -/
def manifestPath? (s : List Char) : Option (List Char) :=
  if longOption.isPrefixOf s then
    some (Text.trim ((s.drop longOption.length).dropWhile (· = '=')))
  else if shortOption.isPrefixOf s then some (Text.trim (s.drop shortOption.length))
  else none

/-- Reads one declared source; `none` when it is neither a manifest with a path nor a
requirement. -/
def parse? (raw : String) : Option Dependency :=
  let s := Text.trim raw.toList
  match manifestPath? s with
  | some [] => none
  | some path => some (.manifest ⟨String.ofList path⟩)
  | none =>
    match requirementName? s with
    | some name =>
      if isConstraint (constraintOf s) then
        some (.package (String.ofList (normalize name)) (String.ofList s))
      else none
    | none => none

/-! ### Views -/

/-- The name in normal form; manifests have none. -/
def packageName? : Dependency → Option String
  | .package name _ => some name
  | .manifest _ => none

/-- The name as the requirement spells it. -/
def declaredName? : Dependency → Option String
  | .package _ requirement => (requirementName? requirement.toList).map String.ofList
  | .manifest _ => none

def display : Dependency → String
  | .package _ requirement => requirement
  | .manifest path => "-r " ++ path.text

/-- The arguments that name this source to an installer. -/
def installArgs (root : Path) : Dependency → List String
  | .package _ requirement => [requirement]
  | .manifest path => ["-r", (root.join path.text).text]

/-- Whether a later declaration of the one supersedes the other. -/
def sameIdentity : Dependency → Dependency → Bool
  | .package n _, .package m _ => n == m
  | .manifest p, .manifest q => p.alike q
  | _, _ => false

end Dependency

end Testbed
