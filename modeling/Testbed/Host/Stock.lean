import Testbed.Host.Tree

/-! The files that every host has: two devices and the directories of the system's programs. -/
namespace Testbed.Host.Stock

/-- The programs of the system. -/
def tools : List String :=
  ["[", "basename", "cat", "chmod", "cp", "cut", "dash", "date", "dirname", "echo", "env", "expr",
   "false", "find", "grep", "head", "id", "ln", "ls", "mkdir", "mktemp", "mv", "printf", "pwd",
   "readlink", "realpath", "rm", "rmdir", "sed", "seq", "sleep", "sort", "tail", "tee", "test",
   "touch", "tr", "true", "uname", "uniq", "wc", "whoami", "xargs", "yes"]

def toolMode : Nat := 0o755

def deviceMode : Nat := 0o666

def base : Tree :=
  ⟨[(["bin"], .link "usr/bin"), (["usr"], .directory), (["usr", "bin"], .directory),
    (["usr", "bin", "sh"], .link "dash"), (["dev"], .directory),
    (["dev", "null"], .file .sink deviceMode), (["dev", "zero"], .file .zeros deviceMode),
    (["tmp"], .directory)] ++
    tools.map (fun name => (["usr", "bin", name], .file (.tool name) toolMode))⟩

end Testbed.Host.Stock
