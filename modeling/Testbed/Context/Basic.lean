import Testbed.Dependency.Resolution
import Testbed.World

/-! A context is the directory in which the programs of one environment are installed and its
commands run. It is built fresh, belongs to whoever holds the lock of its name, and is removed on
every way out unless contexts are kept. Here: where contexts are, what a context is, and how it is
given up. -/
namespace Testbed

/-- Where contexts are built and whether they stay. -/
structure Provisioner where
  workDir : Path
  root : Path
  keep : Bool
  okCodes : List Int
deriving DecidableEq, Repr

def Provisioner.envDir (p : Provisioner) (name : String) : Path := p.workDir.join name

/-- What is recorded of a context that is complete. -/
structure Metadata where
  name : String
  digest : String
  sources : List Dependency
  createdAt : Timestamp
deriving DecidableEq, Repr

def Metadata.fileName : String := ".envrun-env.json"

/-- The record of a context in which `declared` will be installed. -/
def Metadata.ofDeclared (name : String) (declared : List Dependency) (createdAt : Timestamp) :
    Metadata :=
  let resolved := Dependency.resolve declared
  ⟨name, Dependency.digest resolved, resolved, createdAt⟩

structure Context where
  name : String
  dir : Path
  root : Path
  keep : Bool
  metadata : Metadata
  client : Locks.Client
deriving DecidableEq, Repr

namespace Context

def binDir (c : Context) : Path := c.dir.join "bin"

def tmpDir (c : Context) : Path := c.dir.join "tmp"

/-- Removes a context's directory; one that is not there is as good as removed. -/
def removeDir (w : World) (dir : Path) : World × Option Host.OsError :=
  match w.attempt (.remove dir) with
  | (w', some .notFound) => (w', none)
  | r => r

/-- The last resort: removes the directory and only says whether that went well. -/
def removeQuietly (w : World) (name : String) (dir : Path) : World :=
  match w.attempt (.remove dir) with
  | (w', none) => w'.note .debug (some name) "Context removed on drop"
  | (w', some .notFound) => w'
  | (w', some _) => w'.note .warn (some name) "Failed to remove context on drop"

def release (w : World) (client : Locks.Client) : World :=
  { w with locks := Locks.release w.locks client }

/-- Gives up a complete context that was not torn down. -/
def drop (c : Context) (w : World) : World :=
  release (if c.keep then w else removeQuietly w c.name c.dir) c.client

/-- The call on files that a teardown is waiting for. -/
def call? (c : Context) : Option Host.FileCall := if c.keep then none else some (.remove c.dir)

/-- Releases a complete context and removes it unless it is kept. When that fails it is tried once
more. -/
def teardown (c : Context) (w : World) : World × Option ProvisionError :=
  if c.keep then (release w c.client, none)
  else
    match removeDir w c.dir with
    | (w', none) =>
      (release (w'.note .debug (some c.name) "Context removed") c.client, none)
    | (w', some cause) =>
      (release (removeQuietly w' c.name c.dir) c.client, some (.context c.dir cause))

end Context

end Testbed
