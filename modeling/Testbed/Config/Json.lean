import Testbed.Config.Basic
import Testbed.Json.Basic

/-! A configuration as JSON, with the members of each record in a fixed order. -/
namespace Testbed

def Dependency.toJson : Dependency → Json
  | .package name requirement =>
    .object [("kind", .string "package"), ("name", .string name),
      ("requirement", .string requirement)]
  | .manifest path => .object [("kind", .string "manifest"), ("path", .string path.text)]

def Command.toJson (c : Command) : Json :=
  .object [("argv", .strings c.argv), ("external", .bool c.external),
    ("requires", .strings c.requires)]

def Settings.toJson (s : Settings) : Json :=
  .object [("work_dir", .string s.workDir.text), ("envlist", .ofOption .strings s.envlist),
    ("parallel", .nat s.parallel), ("keep_envs", .bool s.keepEnvs),
    ("install_command", .strings s.installCommand),
    ("install_ok_codes", .array (s.okCodes.map .int))]

def EnvSpec.toJson (e : EnvSpec) : Json :=
  .object [("name", .string e.name), ("description", .ofOption .string e.description),
    ("deps", .array (e.deps.map Dependency.toJson)),
    ("commands", .array (e.commands.map Command.toJson)),
    ("allowlist_externals", .strings e.allowlist),
    ("setenv", .object (e.setenv.map (fun v => (v.1, .string v.2)))),
    ("change_dir", .ofOption (fun p => .string p.text) e.changeDir),
    ("continue_on_error", .bool e.continueOnError), ("timeout_secs", .nat e.timeoutSecs)]

def Config.toJson (c : Config) : Json :=
  .object [("root", .string c.root.text), ("settings", c.settings.toJson),
    ("environments", .array (c.environments.map EnvSpec.toJson))]

end Testbed
