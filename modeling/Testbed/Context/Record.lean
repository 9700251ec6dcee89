import Testbed.Config.Json
import Testbed.Context.Basic
import Testbed.Json.Reader
import Testbed.Json.Writer

/-! The record that a complete context carries, as a JSON file in its directory. -/
namespace Testbed

def Metadata.toJson (m : Metadata) : Json :=
  .object [("name", .string m.name), ("digest", .string m.digest),
    ("sources", .array (m.sources.map Dependency.toJson)),
    ("created_at", .string m.createdAt.render)]

def Metadata.text (m : Metadata) : String := m.toJson.pretty

/-! ### Reading -/

open Json (required asString? asList? word?)

/-- The kind of a source and what is left of its record: from an object, the one member `kind` apart
from the others; from an array, its first element apart from the rest. -/
def Dependency.kindOf? : Json → Option (String × Json)
  | .object members =>
    match Json.membersNamed members "kind" with
    | [j] => (asString? j).map (fun kind => (kind, .object (members.filter (fun m => m.1 != "kind"))))
    | _ => none
  | .array (.string kind :: rest) => some (kind, .array rest)
  | _ => none

def Dependency.ofJson? (j : Json) : Option Dependency := do
  match ← Dependency.kindOf? j with
  | ("package", rest) =>
    match ← Json.record? ["name", "requirement"] rest with
    | [name, requirement] =>
      some (.package (← required asString? name) (← required asString? requirement))
    | _ => none
  | ("manifest", rest) =>
    match ← Json.record? ["path"] rest with
    | [path] => some (.manifest ⟨← required asString? path⟩)
    | _ => none
  | _ => none

def Metadata.ofJson? (j : Json) : Option Metadata := do
  match ← Json.record? ["name", "digest", "sources", "created_at"] j with
  | [name, digest, sources, createdAt] =>
    some {
      name := ← required asString? name
      digest := ← required asString? digest
      sources := ← required (asList? Dependency.ofJson?) sources
      createdAt := ← Timestamp.parse? (← required asString? createdAt) }
  | _ => none

def Metadata.path (dir : Path) : Path := dir.join Metadata.fileName

/-- Reads the record in a context's directory. -/
def Metadata.read (h : Host) (dir : Path) : Except ProvisionError Metadata :=
  match h.read (Metadata.path dir) with
  | .error cause => .error (.context (Metadata.path dir) cause)
  | .ok data =>
    match ((Text.decode? data).bind Json.parse?).bind Metadata.ofJson? with
    | some m => .ok m
    | none => .error .metadata

end Testbed
