import DeadExports.Candidate.Basic
import DeadExports.Candidate.Scan
import DeadExports.Cleanup
import DeadExports.CommandLine.Arguments
import DeadExports.CommandLine.Run
import DeadExports.Config.Basic
import DeadExports.Config.Toml
import DeadExports.Error
import DeadExports.Facts.Binding
import DeadExports.Facts.Declared
import DeadExports.Facts.Extract
import DeadExports.FileSystem.Basic
import DeadExports.Graph.Basic
import DeadExports.Language
import DeadExports.Main
import DeadExports.Path.Basic
import DeadExports.Path.Map
import DeadExports.Pattern.Bracket
import DeadExports.Pattern.CaseFold
import DeadExports.Pattern.Category
import DeadExports.Pattern.CharClass
import DeadExports.Pattern.Escape
import DeadExports.Pattern.Flags
import DeadExports.Pattern.Regex
import DeadExports.Pattern.Syntax
import DeadExports.Project.Index
import DeadExports.Project.Reference
import DeadExports.Project.Symbol
import DeadExports.Proofs.Candidate.Comments
import DeadExports.Proofs.Candidate.Examined
import DeadExports.Proofs.Candidate.Items
import DeadExports.Proofs.Candidate.Placement
import DeadExports.Proofs.Candidate.Protection
import DeadExports.Proofs.Candidate.Scan
import DeadExports.Proofs.Candidate.Territory
import DeadExports.Proofs.Cleanup
import DeadExports.Proofs.Closure
import DeadExports.Proofs.Facts.Dependencies
import DeadExports.Proofs.Facts.Nesting
import DeadExports.Proofs.Facts.Objects
import DeadExports.Proofs.Facts.Occurrences
import DeadExports.Proofs.Facts.Places
import DeadExports.Proofs.Grammar.Declarations
import DeadExports.Proofs.Grammar.Expressions
import DeadExports.Proofs.Grammar.Markup
import DeadExports.Proofs.Grammar.Modules
import DeadExports.Proofs.Grammar.Statements
import DeadExports.Proofs.Grammar.Types
import DeadExports.Proofs.Graph.Cycles
import DeadExports.Proofs.Graph.Links
import DeadExports.Proofs.Graph.Relation
import DeadExports.Proofs.Path.Map
import DeadExports.Proofs.Path.Normal
import DeadExports.Proofs.Path.Order
import DeadExports.Proofs.Path.Spelling
import DeadExports.Proofs.Project.Alike
import DeadExports.Proofs.Project.Attend
import DeadExports.Proofs.Project.Completeness
import DeadExports.Proofs.Project.Edit
import DeadExports.Proofs.Project.Failure
import DeadExports.Proofs.Project.Follow
import DeadExports.Proofs.Project.Held
import DeadExports.Proofs.Project.History
import DeadExports.Proofs.Project.Image
import DeadExports.Proofs.Project.Importers
import DeadExports.Proofs.Project.Link
import DeadExports.Proofs.Project.Lookup
import DeadExports.Proofs.Project.Mentions
import DeadExports.Proofs.Project.Mirror
import DeadExports.Proofs.Project.Moves
import DeadExports.Proofs.Project.Reach
import DeadExports.Proofs.Project.Reading
import DeadExports.Proofs.Project.ReferenceOrder
import DeadExports.Proofs.Project.Referring
import DeadExports.Proofs.Project.Resolution
import DeadExports.Proofs.Project.Search
import DeadExports.Proofs.Project.Steps
import DeadExports.Proofs.Project.Sync
import DeadExports.Proofs.Project.Wildcards
import DeadExports.Proofs.Prune.Accounts
import DeadExports.Proofs.Prune.Alike
import DeadExports.Proofs.Prune.Batch
import DeadExports.Proofs.Prune.Clause
import DeadExports.Proofs.Prune.Declarations
import DeadExports.Proofs.Prune.Deletion
import DeadExports.Proofs.Prune.Exact
import DeadExports.Proofs.Prune.FixedPoint
import DeadExports.Proofs.Prune.Guard
import DeadExports.Proofs.Prune.Idempotent
import DeadExports.Proofs.Prune.Pass
import DeadExports.Proofs.Prune.Progress
import DeadExports.Proofs.Prune.Protected
import DeadExports.Proofs.Prune.Removals
import DeadExports.Proofs.Prune.Rewriting
import DeadExports.Proofs.Prune.Safety
import DeadExports.Proofs.Prune.Sessions
import DeadExports.Proofs.Prune.Steady
import DeadExports.Proofs.Prune.Tokens
import DeadExports.Proofs.Prune.Twins
import DeadExports.Proofs.Prune.Workspace
import DeadExports.Proofs.Source.ExportForms
import DeadExports.Proofs.Source.Following
import DeadExports.Proofs.Source.ImportForms
import DeadExports.Proofs.Source.Laying
import DeadExports.Proofs.Source.Program
import DeadExports.Proofs.Source.Scanning
import DeadExports.Proofs.Source.Standing
import DeadExports.Proofs.Source.WordEnds
import DeadExports.Proofs.Source.Words
import DeadExports.Proofs.Source.Yields
import DeadExports.Proofs.Store.Lawful
import DeadExports.Proofs.Store.Local
import DeadExports.Proofs.Store.Opened
import DeadExports.Proofs.Store.Texts
import DeadExports.Proofs.Store.Written
import DeadExports.Proofs.Text.Boundary
import DeadExports.Proofs.Text.Cuts
import DeadExports.Proofs.Text.Moved
import DeadExports.Proofs.Text.Replaced
import DeadExports.Proofs.Text.Sequence
import DeadExports.Proofs.Text.Splice
import DeadExports.Proofs.Text.Widening
import DeadExports.Proofs.Usage.Chain
import DeadExports.Proofs.Usage.Indexed
import DeadExports.Proofs.Usage.Unused
import DeadExports.Proofs.Usage.Verdict
import DeadExports.Prune.Batch
import DeadExports.Prune.Outcome
import DeadExports.Prune.Pass
import DeadExports.Prune.Run
import DeadExports.Prune.Workspace
import DeadExports.Report.Basic
import DeadExports.Report.JsonText
import DeadExports.Report.Render
import DeadExports.Resolve
import DeadExports.Service
import DeadExports.Source.Grammar.Basic
import DeadExports.Source.Grammar.Bindings
import DeadExports.Source.Grammar.Classes
import DeadExports.Source.Grammar.Declarations
import DeadExports.Source.Grammar.Expressions
import DeadExports.Source.Grammar.Markup
import DeadExports.Source.Grammar.Modules
import DeadExports.Source.Grammar.Statements
import DeadExports.Source.Grammar.Types
import DeadExports.Source.Kind
import DeadExports.Source.Layout
import DeadExports.Source.Module
import DeadExports.Source.Parse
import DeadExports.Source.StatementEnd
import DeadExports.Source.Token
import DeadExports.Source.Tree
import DeadExports.Store.Basic
import DeadExports.Store.Disk
import DeadExports.Store.Memory
import DeadExports.Text.Basic
import DeadExports.Text.Change
import DeadExports.Text.Line
import DeadExports.Trace.Basic
import DeadExports.Usage.Chain
import DeadExports.Usage.Verdict
