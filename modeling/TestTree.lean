import TestTree.Branch.Basic
import TestTree.Branch.Expansion
import TestTree.Branch.Interchange
import TestTree.Branch.Progress
import TestTree.Branch.Selection
import TestTree.Call.Name
import TestTree.Call.Resolution
import TestTree.CommandLine.Arguments
import TestTree.CommandLine.Dialogue
import TestTree.CommandLine.Execution
import TestTree.CommandLine.Listing
import TestTree.CommandLine.Problem
import TestTree.CommandLine.Style
import TestTree.CommandLine.Summary
import TestTree.Config.Basic
import TestTree.Config.Loading
import TestTree.Error
import TestTree.Files.Basic
import TestTree.Files.Path
import TestTree.Json.Basic
import TestTree.Json.Parser
import TestTree.Json.Printer
import TestTree.Json.Record
import TestTree.Main
import TestTree.Run.Clock
import TestTree.Run.Cursor
import TestTree.Run.Executor
import TestTree.Run.Runner
import TestTree.Run.Script
import TestTree.Shell.Awk
import TestTree.Shell.Command
import TestTree.Shell.Condition
import TestTree.Shell.Console
import TestTree.Shell.Escape
import TestTree.Shell.Executor
import TestTree.Shell.Parser
import TestTree.Shell.Printf
import TestTree.Shell.Programs
import TestTree.Shell.Session
import TestTree.Shell.Token
import TestTree.Shell.Words
import TestTree.Step.Assignments
import TestTree.Step.Basic
import TestTree.Step.ElementFinder
import TestTree.Step.Line
import TestTree.Step.Reference
import TestTree.Text.Basic
import TestTree.Text.Blank
import TestTree.Text.LowerCase
import TestTree.Text.Order
import TestTree.Text.Quoted
import TestTree.Text.WordCharacter
import TestTree.Toml.Basic
import TestTree.Toml.Parser
import TestTree.Tree.Basic
import TestTree.Tree.Parse
import TestTree.Tree.Source
import TestTree.Variables
import TestTree.Proofs.Tree.Blocks
import TestTree.Proofs.Tree.Grafting
import TestTree.Proofs.Tree.WellFormed
import TestTree.Proofs.Tree.Arrangement
import TestTree.Proofs.Branch.Bookkeeping
import TestTree.Proofs.Run.Schedule
import TestTree.Proofs.Run.Walk
import TestTree.Proofs.Run.Walkers
import TestTree.Proofs.Run.Standing
import TestTree.Proofs.Run.Ownership
import TestTree.Proofs.Run.Load
import TestTree.Proofs.Run.Safety
import TestTree.Proofs.Run.Stopping
import TestTree.Proofs.Run.Log
import TestTree.Proofs.Run.Once
import TestTree.Proofs.Run.Pausing
import TestTree.Proofs.Branch.Recursion
import TestTree.Proofs.Branch.Expands
import TestTree.Proofs.Branch.Erasing
import TestTree.Proofs.Branch.Ways
import TestTree.Proofs.Branch.Divergence
import TestTree.Proofs.Branch.NonParallel
import TestTree.Proofs.Run.Fate
import TestTree.Proofs.Run.Foresight
import TestTree.Proofs.Run.Faults
import TestTree.Proofs.Run.Outcomes
import TestTree.Proofs.Run.Repeats
import TestTree.Proofs.Run.Failing
import TestTree.Proofs.Run.Alone
import TestTree.Proofs.Run.Overlap
import TestTree.Proofs.Run.Completion
import TestTree.Proofs.Run.Destiny
import TestTree.Proofs.Run.Confluence
import TestTree.Proofs.Branch.Pruning
import TestTree.Proofs.Branch.Isolation
import TestTree.Proofs.Run.Trailing
import TestTree.Proofs.Run.Everything
import TestTree.Proofs.Run.Finale
import TestTree.Proofs.Run.Marks
import TestTree.Proofs.Run.Leftovers
import TestTree.Proofs.Run.Belated
import TestTree.Proofs.Run.Polling
import TestTree.Proofs.Run.Ranking
import TestTree.Proofs.Run.Fairness
import TestTree.Proofs.Json.Literals
import TestTree.Proofs.Json.RoundTrip
import TestTree.Proofs.Json.Carrying
import TestTree.Proofs.Branch.Interchange
import TestTree.Proofs.Branch.Merging
import TestTree.Proofs.Branch.Declared
import TestTree.Proofs.Branch.Passages
import TestTree.Proofs.Branch.Scopes
import TestTree.Proofs.Branch.HookOrder
import TestTree.Proofs.Branch.Frames
import TestTree.Proofs.Run.Injection
import TestTree.Proofs.Tree.Reading
import TestTree.Proofs.Tree.Grouping
import TestTree.Proofs.Tree.Layout
import TestTree.Proofs.Tree.Indentation
import TestTree.Proofs.Text.Words
import TestTree.Proofs.Step.Tokens
import TestTree.Proofs.Branch.Termination
import TestTree.Proofs.Branch.Nesting
import TestTree.Proofs.Run.Locals
import TestTree.Proofs.Run.Handover
import TestTree.Proofs.Run.Visibility
import TestTree.Proofs.Run.Deeds
import TestTree.Proofs.Run.Needs
import TestTree.Proofs.Run.Guises
import TestTree.Proofs.Run.Staleness
import TestTree.Proofs.Run.Traceless
import TestTree.Proofs.Text.Casing
import TestTree.Proofs.Call.Inputs
import TestTree.Proofs.Call.Spelling
import TestTree.Proofs.Step.Acceptance
import TestTree.Proofs.Call.Brackets
import TestTree.Proofs.Tree.Screening
import TestTree.Proofs.Branch.Tags
import TestTree.Proofs.Branch.Filters
import TestTree.Proofs.Text.Settled
import TestTree.Proofs.Tree.Code
import TestTree.Proofs.Step.Trailers
import TestTree.Proofs.Step.Settings
import TestTree.Proofs.Step.Finders
import TestTree.Proofs.Step.Comments
import TestTree.Proofs.Call.Quoting
import TestTree.Proofs.Step.References
import TestTree.Proofs.Call.Substitution
