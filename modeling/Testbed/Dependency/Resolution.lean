import Testbed.Dependency.Basic
import Testbed.Sha256

/-! Resolving a list of declared sources: of several declarations of one package or manifest the
last one stays, at its own place. The digest of a list is taken over the displays, each closed by a
zero byte. -/
namespace Testbed.Dependency

def supersede (resolved : List Dependency) (source : Dependency) : List Dependency :=
  resolved.filter (fun existing => !existing.sameIdentity source) ++ [source]

def resolve (declared : List Dependency) : List Dependency := declared.foldl supersede []

/-- What the digest is taken of. -/
def digestInput (sources : List Dependency) : List UInt8 :=
  sources.flatMap (fun source => source.display.toUTF8.toList ++ [0])

def digest (sources : List Dependency) : String := (Sha256.digest (digestInput sources)).hex

end Testbed.Dependency
