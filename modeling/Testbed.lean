import Testbed.Cancellation
import Testbed.Command.Basic
import Testbed.Command.Words
import Testbed.CommandLine.Failure
import Testbed.CommandLine.Help
import Testbed.CommandLine.LogFilter
import Testbed.CommandLine.Option
import Testbed.CommandLine.Order
import Testbed.CommandLine.Session
import Testbed.Config.Basic
import Testbed.Config.Json
import Testbed.Config.Load
import Testbed.Config.Merge
import Testbed.Config.Parse
import Testbed.Config.Tables
import Testbed.Context.Basic
import Testbed.Context.Error
import Testbed.Context.Provision
import Testbed.Context.Record
import Testbed.Dependency.Basic
import Testbed.Dependency.Resolution
import Testbed.Host.Basic
import Testbed.Host.Files
import Testbed.Host.OsError
import Testbed.Host.Stock
import Testbed.Host.Tree
import Testbed.InstallCommand
import Testbed.Installer
import Testbed.Journal
import Testbed.Json.Basic
import Testbed.Json.Reader
import Testbed.Json.Writer
import Testbed.Level
import Testbed.Lifecycle
import Testbed.Locks.Basic
import Testbed.Locks.History
import Testbed.Main
import Testbed.Path
import Testbed.Program.Error
import Testbed.Program.Executable
import Testbed.Program.Install
import Testbed.Program.Lookup
import Testbed.Program.Placeholders
import Testbed.Program.Process
import Testbed.Program.Spawn
import Testbed.Program.System
import Testbed.Rehearsal.Installer
import Testbed.Rehearsal.Programs
import Testbed.Report.Basic
import Testbed.Report.Gate
import Testbed.Report.Json
import Testbed.Report.Render
import Testbed.Run.Basic
import Testbed.Run.Crew
import Testbed.Run.Pool
import Testbed.Run.Progress
import Testbed.Run.Row
import Testbed.Run.Task
import Testbed.Seconds
import Testbed.Selection
import Testbed.Sha256
import Testbed.Shell.Arithmetic
import Testbed.Shell.Builtin
import Testbed.Shell.Eval
import Testbed.Shell.Expansion
import Testbed.Shell.Fields
import Testbed.Shell.Lexer
import Testbed.Shell.Machine
import Testbed.Shell.Parser
import Testbed.Shell.Pattern
import Testbed.Shell.Process
import Testbed.Shell.Syntax
import Testbed.Text.Blank
import Testbed.Text.Digit
import Testbed.Text.Quoted
import Testbed.Text.Replace
import Testbed.Text.Utf8
import Testbed.Text.Visibility
import Testbed.Timestamp
import Testbed.Toml.Basic
import Testbed.Toml.Document
import Testbed.Toml.Reader
import Testbed.Toml.Scalar
import Testbed.Tool.Basic
import Testbed.Tool.Catalog
import Testbed.Tool.Condition
import Testbed.Tool.Files
import Testbed.Tool.Format
import Testbed.Tool.Streams
import Testbed.Uuid
import Testbed.Vars
import Testbed.World
import Testbed.Proofs.Context.Stage
import Testbed.Proofs.Run.Task
import Testbed.Proofs.Config.Names
import Testbed.Proofs.Dependency.Digest
import Testbed.Proofs.Run.Course
import Testbed.Proofs.Run.Drive
import Testbed.Proofs.Run.Solo
import Testbed.Proofs.Run.Ending
import Testbed.Context.History
import Testbed.Proofs.Context.Alone
import Testbed.Proofs.Context.Building
import Testbed.Proofs.Context.Fresh
import Testbed.Proofs.Context.Lifetime
import Testbed.Proofs.Command.Words
import Testbed.Proofs.Config.Acceptance
import Testbed.Proofs.Run.Isolation
import Testbed.Proofs.Run.Sequence
import Testbed.Context.Crowd
import Testbed.Proofs.Context.Crowd
import Testbed.Proofs.Locks.History
import Testbed.Proofs.Run.Cancelled
import Testbed.Proofs.Run.Act
import Testbed.Proofs.Run.Entry
import Testbed.Proofs.Run.WellFormed
import Testbed.Proofs.Run.Chronicle
import Testbed.Proofs.Run.Installation
import Testbed.Proofs.Selection
import Testbed.Proofs.Report.Verdict
import Testbed.Proofs.Run.Removal
import Testbed.Proofs.Report.Json
import Testbed.Proofs.Text.Substitution
import Testbed.Proofs.Program.Placeholders
import Testbed.Proofs.InstallCommand
import Testbed.Proofs.Run.Variables
import Testbed.Proofs.Run.Allowance
import Testbed.Proofs.Config.Hoisting
import Testbed.Proofs.Dependency.Display
import Testbed.Proofs.Cancellation
import Testbed.Proofs.Run.Policy
import Testbed.Proofs.Run.Lifecycle
import Testbed.Proofs.Context.Record
import Testbed.Proofs.Command.Display
import Testbed.Proofs.Config.Refusal
import Testbed.Proofs.Run.Shown
import Testbed.Proofs.Dependency.Canonical
