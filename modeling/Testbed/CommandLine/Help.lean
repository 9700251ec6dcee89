import Testbed.CommandLine.Option

/-! The help of the program and of its commands. -/
namespace Testbed.CommandLine

def version : String := "envrun 0.1.0"

def lines (ls : List String) : String := String.join (ls.map (· ++ "\n"))

def commonHelp : List String :=
  ["  -c, --config <CONFIG>  Configuration file [env: ENVRUN_CONFIG=] [default: envrun.toml]",
   "  -v, --verbose          Enable verbose output",
   "  -q, --quiet            Only log errors",
   "      --json             Emit JSON-formatted log lines",
   "  -h, --help             Print help"]

def programHelp : List String :=
  ["Run commands across isolated, freshly provisioned environments", "",
   "Usage: envrun [OPTIONS] <COMMAND>", "",
   "Commands:",
   "  run          Provision environments and run their commands",
   "  list         List declared environments",
   "  show-config  Print the merged configuration as JSON",
   "  help         Print this message or the help of the given subcommand(s)", "",
   "Options:"] ++ commonHelp ++
  ["  -V, --version          Print version"]

def runHelp : List String :=
  ["Provision environments and run their commands", "",
   "Usage: envrun run [OPTIONS] [-- <POSARGS>...]", "",
   "Arguments:",
   "  [POSARGS]...  Arguments substituted for \x7bposargs\x7d", "",
   "Options:",
   "  -c, --config <CONFIG>      Configuration file [env: ENVRUN_CONFIG=] [default: envrun.toml]",
   "  -e, --env <ENVS>           Environments to run, comma separated; ALL for every environment",
   "  -p, --parallel <PARALLEL>  Maximum environments run at once",
   "  -v, --verbose              Enable verbose output",
   "      --continue-on-error    Keep running an environment's commands after one fails",
   "  -q, --quiet                Only log errors",
   "      --json                 Emit JSON-formatted log lines",
   "      --keep-envs            Leave environment contexts on disk after the run",
   "      --report-json <PATH>   Write the run report as JSON",
   "  -h, --help                 Print help"]

def listHelp : List String :=
  ["List declared environments", "", "Usage: envrun list [OPTIONS]", "", "Options:"] ++ commonHelp

def showConfigHelp : List String :=
  ["Print the merged configuration as JSON", "", "Usage: envrun show-config [OPTIONS]", "",
   "Options:", "  -e, --env <ENV>        Only show this environment"] ++ commonHelp

def helpOf (topic : Option String) : String :=
  lines (match topic with
    | some "run" => runHelp
    | some "list" => listHelp
    | some "show-config" => showConfigHelp
    | _ => programHelp)

end Testbed.CommandLine
