import SourceAtlas.Analysis.Context
import SourceAtlas.Analysis.Result
import SourceAtlas.Archive.Bytes
import SourceAtlas.Archive.Checksum
import SourceAtlas.Archive.Content
import SourceAtlas.Archive.Directory
import SourceAtlas.Archive.Extract
import SourceAtlas.Archive.Inflate
import SourceAtlas.Archive.Inspect
import SourceAtlas.Archive.OldCharacters
import SourceAtlas.Clock.Date
import SourceAtlas.Clock.Timestamp
import SourceAtlas.Command.Argument
import SourceAtlas.Command.Execute
import SourceAtlas.Command.Line
import SourceAtlas.Component.Declaration
import SourceAtlas.Component.Scan
import SourceAtlas.Disk.Basic
import SourceAtlas.Disk.Edit
import SourceAtlas.Disk.Fault
import SourceAtlas.Disk.Locate
import SourceAtlas.Failure
import SourceAtlas.Graph.Basic
import SourceAtlas.Graph.Extract
import SourceAtlas.Graph.Module
import SourceAtlas.Graph.Scan
import SourceAtlas.Import.Pattern
import SourceAtlas.Import.Resolve
import SourceAtlas.Import.Tree
import SourceAtlas.Json.Decode
import SourceAtlas.Json.Reader
import SourceAtlas.Json.Value
import SourceAtlas.Json.Writer
import SourceAtlas.Lease
import SourceAtlas.Main
import SourceAtlas.Notice
import SourceAtlas.Number.Rounding
import SourceAtlas.Path.Basic
import SourceAtlas.Path.Naming
import SourceAtlas.Path.Normal
import SourceAtlas.Project.FileTree
import SourceAtlas.Project.Id
import SourceAtlas.Project.Root
import SourceAtlas.Proofs.Analysis.Confined
import SourceAtlas.Proofs.Analysis.Context
import SourceAtlas.Proofs.Analysis.Depth
import SourceAtlas.Proofs.Analysis.Paths
import SourceAtlas.Proofs.Analysis.Ranking
import SourceAtlas.Proofs.Analysis.Stored
import SourceAtlas.Proofs.Analysis.Views
import SourceAtlas.Proofs.Archive.Budget
import SourceAtlas.Proofs.Archive.Confinement
import SourceAtlas.Proofs.Archive.Descent
import SourceAtlas.Proofs.Archive.Enclosed
import SourceAtlas.Proofs.Archive.Extraction
import SourceAtlas.Proofs.Archive.Failures
import SourceAtlas.Proofs.Archive.Ledger
import SourceAtlas.Proofs.Archive.Tally
import SourceAtlas.Proofs.Archive.Tidy
import SourceAtlas.Proofs.Archive.Unpacked
import SourceAtlas.Proofs.Clock.Date
import SourceAtlas.Proofs.Clock.Timestamp
import SourceAtlas.Proofs.Component.Blocks
import SourceAtlas.Proofs.Component.Lowering
import SourceAtlas.Proofs.Disk.Contents
import SourceAtlas.Proofs.Disk.Emptied
import SourceAtlas.Proofs.Disk.Folders
import SourceAtlas.Proofs.Disk.Growth
import SourceAtlas.Proofs.Disk.Normal
import SourceAtlas.Proofs.Disk.Numbers
import SourceAtlas.Proofs.Disk.Places
import SourceAtlas.Proofs.Disk.Reduced
import SourceAtlas.Proofs.Disk.Regular
import SourceAtlas.Proofs.Disk.Replace
import SourceAtlas.Proofs.Disk.Tree
import SourceAtlas.Proofs.Disk.View
import SourceAtlas.Proofs.Disk.Way
import SourceAtlas.Proofs.Graph.Confined
import SourceAtlas.Proofs.Graph.Fallback
import SourceAtlas.Proofs.Graph.Files
import SourceAtlas.Proofs.Graph.Hidden
import SourceAtlas.Proofs.Graph.Layers
import SourceAtlas.Proofs.Graph.Order
import SourceAtlas.Proofs.Graph.Search
import SourceAtlas.Proofs.Import.Loading
import SourceAtlas.Proofs.Import.Resolve
import SourceAtlas.Proofs.Import.Statements
import SourceAtlas.Proofs.Json.Depth
import SourceAtlas.Proofs.Json.RoundTrip
import SourceAtlas.Proofs.Json.Text
import SourceAtlas.Proofs.Lease.Exclusion
import SourceAtlas.Proofs.Lease.LockFile
import SourceAtlas.Proofs.Lease.Owner
import SourceAtlas.Proofs.Lease.Probing
import SourceAtlas.Proofs.Lease.Protocol
import SourceAtlas.Proofs.Lease.Refusal
import SourceAtlas.Proofs.Lease.Runs
import SourceAtlas.Proofs.Lease.Sweeping
import SourceAtlas.Proofs.Lease.Swept
import SourceAtlas.Proofs.Path.Names
import SourceAtlas.Proofs.Path.Normal
import SourceAtlas.Proofs.Path.Parts
import SourceAtlas.Proofs.Project.Levels
import SourceAtlas.Proofs.Project.Listing
import SourceAtlas.Proofs.Repository.Address
import SourceAtlas.Proofs.Repository.Diagnosis
import SourceAtlas.Proofs.Repository.Remote
import SourceAtlas.Proofs.Run.Analyze
import SourceAtlas.Proofs.Run.Answers
import SourceAtlas.Proofs.Run.Attempts
import SourceAtlas.Proofs.Run.Changes
import SourceAtlas.Proofs.Run.Courses
import SourceAtlas.Proofs.Run.Disclosure
import SourceAtlas.Proofs.Run.Steps
import SourceAtlas.Proofs.Run.Footprint
import SourceAtlas.Proofs.Run.Frame
import SourceAtlas.Proofs.Run.Held
import SourceAtlas.Proofs.Run.Log
import SourceAtlas.Proofs.Run.Notices
import SourceAtlas.Proofs.Run.Phases
import SourceAtlas.Proofs.Run.Progress
import SourceAtlas.Proofs.Run.Reload
import SourceAtlas.Proofs.Run.Requests
import SourceAtlas.Proofs.Run.Script
import SourceAtlas.Proofs.Run.Stages
import SourceAtlas.Proofs.Settings.RoundTrip
import SourceAtlas.Proofs.Source.Files
import SourceAtlas.Proofs.Source.Ways
import SourceAtlas.Proofs.Store.Log
import SourceAtlas.Proofs.Store.Saves
import SourceAtlas.Proofs.Syntax.Bare
import SourceAtlas.Proofs.Syntax.Visits
import SourceAtlas.Proofs.Syntax.Walk
import SourceAtlas.Proofs.Text.Digits
import SourceAtlas.Proofs.Text.Kept
import SourceAtlas.Proofs.Text.Lower
import SourceAtlas.Proofs.Text.Order
import SourceAtlas.Proofs.Text.Quoted
import SourceAtlas.Proofs.Text.Redact
import SourceAtlas.Proofs.Text.Runs
import SourceAtlas.Proofs.Text.Words
import SourceAtlas.Proofs.Work
import SourceAtlas.Proofs.Yaml.Admitted
import SourceAtlas.Proofs.Yaml.Block
import SourceAtlas.Proofs.Yaml.Cursor
import SourceAtlas.Proofs.Yaml.Document
import SourceAtlas.Proofs.Yaml.Plain
import SourceAtlas.Proofs.Yaml.Quoted
import SourceAtlas.Proofs.Yaml.Scan
import SourceAtlas.Rejection
import SourceAtlas.Repository.CloneFailure
import SourceAtlas.Repository.Git
import SourceAtlas.Repository.Retry
import SourceAtlas.Repository.Transport
import SourceAtlas.Repository.Url
import SourceAtlas.Retention
import SourceAtlas.Run.Analyze
import SourceAtlas.Run.Clone
import SourceAtlas.Run.Stage
import SourceAtlas.Run.Workspace
import SourceAtlas.Settings.Basic
import SourceAtlas.Settings.File
import SourceAtlas.Shell.Eval
import SourceAtlas.Shell.Pattern
import SourceAtlas.Shell.Program
import SourceAtlas.Shell.Reader
import SourceAtlas.Shell.Script
import SourceAtlas.Shell.Session
import SourceAtlas.Shell.Utility
import SourceAtlas.Source.Files
import SourceAtlas.Store
import SourceAtlas.Syntax.BrokenGrammar
import SourceAtlas.Syntax.Cursor
import SourceAtlas.Syntax.ExpressionGrammar
import SourceAtlas.Syntax.MarkupGrammar
import SourceAtlas.Syntax.Parser
import SourceAtlas.Syntax.Program
import SourceAtlas.Syntax.Source
import SourceAtlas.Syntax.StatementGrammar
import SourceAtlas.Syntax.Tree
import SourceAtlas.Syntax.TypeGrammar
import SourceAtlas.Task
import SourceAtlas.Text.Blank
import SourceAtlas.Text.Case
import SourceAtlas.Text.CaseTable
import SourceAtlas.Text.Lossy
import SourceAtlas.Text.PrintTable
import SourceAtlas.Text.Quoted
import SourceAtlas.Text.Range
import SourceAtlas.Text.Redact
import SourceAtlas.Text.Search
import SourceAtlas.Text.Split
import SourceAtlas.Yaml.Core
import SourceAtlas.Yaml.Cursor
import SourceAtlas.Yaml.Node
import SourceAtlas.Yaml.Scalar
import SourceAtlas.Yaml.Token
import SourceAtlas.Yaml.Writer
