import LineShell.Text.Basic
import LineShell.Text.Utf8
import LineShell.Text.Numeral
import LineShell.Table
import LineShell.Chain.Basic
import LineShell.Alias
import LineShell.Environment
import LineShell.Expansion
import LineShell.SystemError
import LineShell.Path
import LineShell.Host
import LineShell.History
import LineShell.Builtin.Basic
import LineShell.Sink
import LineShell.Session
import LineShell.Machine
import LineShell.Resolution
import LineShell.Builtin.Outcome
import LineShell.Builtin.Variables
import LineShell.Builtin.Directory
import LineShell.Builtin.Aliases
import LineShell.Builtin.Listing
import LineShell.Builtin.Dispatch
import LineShell.Execution
import LineShell.Source
import LineShell.Shell
import LineShell.Flags
import LineShell.ShellError
import LineShell.Startup.Setting
import LineShell.Startup.Directive
import LineShell.Startup.Config
import LineShell.Warning.Filter
import LineShell.Startup.Boot
import LineShell.CommandLine
import LineShell.FileTree.Basic
import LineShell.FileTree.Change
import LineShell.FileTree.Script
import LineShell.FileTree.Program
import LineShell.FileTree.Launch
import LineShell.FileTree.World
import LineShell.Highlight
import LineShell.Completion.Candidate
import LineShell.Completion.Completer
import LineShell.Main
import LineShell.Proofs.Chain.Comment
import LineShell.Proofs.Chain.Parse
import LineShell.Proofs.Chain.Joining
import LineShell.Proofs.Chain.Rendering
import LineShell.Proofs.Execution.Sequence
import LineShell.Proofs.Builtin.Effect
import LineShell.Proofs.Builtin.Frame
import LineShell.Proofs.Execution.Command
import LineShell.Proofs.Execution.Visit
import LineShell.Proofs.Execution.Reach
import LineShell.Proofs.Execution.Handover
import LineShell.Proofs.Execution.World
import LineShell.Proofs.Builtin.Failure
import LineShell.Proofs.Execution.Failure
import LineShell.Proofs.Shell.Serving
import LineShell.Proofs.Text.Encoding
import LineShell.Proofs.Text.Lines
import LineShell.Proofs.Text.Numeral
import LineShell.Proofs.Text.Words
import LineShell.Proofs.Source.Mending
import LineShell.Proofs.Host.Contents
import LineShell.Proofs.History.Numbering
import LineShell.Proofs.History.Reopening
import LineShell.Proofs.Environment.Log
import LineShell.Proofs.Source.Reading
import LineShell.Proofs.Table.Log
import LineShell.Proofs.Table.Without
import LineShell.Proofs.Builtin.Holdings
import LineShell.Proofs.Builtin.Reach
import LineShell.Proofs.Execution.Holdings
import LineShell.Proofs.Execution.Variables
import LineShell.Proofs.Startup.Setting
import LineShell.Proofs.Startup.Loading
import LineShell.Proofs.Alias.Listing
import LineShell.Proofs.Alias.Expansion
import LineShell.Proofs.Startup.Session
import LineShell.Proofs.Shell.Status
import LineShell.Proofs.Startup.World
import LineShell.Proofs.Startup.HistoryFile
import LineShell.Proofs.Chain.Ending
import LineShell.Proofs.Chain.Arguments
import LineShell.Proofs.Completion.Position
import LineShell.Proofs.Completion.Extension
import LineShell.Proofs.Expansion.Pass
import LineShell.Proofs.Completion.Freshness
import LineShell.Proofs.Builtin.Muting
import LineShell.Proofs.Execution.Muting
import LineShell.Proofs.Builtin.Directory
import LineShell.Proofs.Resolution.FirstMatch
import LineShell.Proofs.Chain.Margins
import LineShell.Proofs.Text.Replacement
import LineShell.Proofs.Environment.Substitution
import LineShell.Proofs.Highlight.Terminal
import LineShell.Proofs.Highlight.Painting
import LineShell.Proofs.Highlight.Commands
import LineShell.Proofs.Flags.Composition
import LineShell.Proofs.Startup.Override
import LineShell.Proofs.Alias.Arguments
import LineShell.Proofs.Text.WordLaws
import LineShell.Proofs.Text.Decoding
import LineShell.Proofs.Table.Removal
import LineShell.Proofs.Shell.Exit
import LineShell.Proofs.Completion.Order
import LineShell.Proofs.Completion.Exactness
