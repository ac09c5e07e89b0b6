import DocModel.Comment.Basic
import DocModel.Comment.Json
import DocModel.Comment.Parse
import DocModel.Declaration.Basic
import DocModel.Declaration.Json
import DocModel.Documentation
import DocModel.External.Link
import DocModel.External.Origin
import DocModel.Extraction
import DocModel.FileTable
import DocModel.Id
import DocModel.Json.Basic
import DocModel.Json.Fields
import DocModel.Json.Reader
import DocModel.Json.Writer
import DocModel.Loc
import DocModel.Module.Basic
import DocModel.Module.Exports
import DocModel.Module.Json
import DocModel.Module.Tree
import DocModel.Number.Binary64
import DocModel.Number.Layout
import DocModel.Number.Power
import DocModel.Number.Shortest
import DocModel.Package
import DocModel.Path
import DocModel.Program.Alias
import DocModel.Program.Basic
import DocModel.Program.Build
import DocModel.Program.Json
import DocModel.Program.Query
import DocModel.Program.Text
import DocModel.Project.Discover
import DocModel.Project.Spec
import DocModel.Reference.Basic
import DocModel.Reference.Json
import DocModel.Registry
import DocModel.Session.Basic
import DocModel.Session.Engine
import DocModel.Session.Exports
import DocModel.Session.Members
import DocModel.Session.Normalize
import DocModel.Session.Register
import DocModel.Session.State
import DocModel.Settings.Basic
import DocModel.Settings.Lookup
import DocModel.Settings.Toml
import DocModel.Table
import DocModel.Text.Blank
import DocModel.Text.Escaped
import DocModel.Text.Extending
import DocModel.Text.Invisible
import DocModel.Text.Lines
import DocModel.Text.Quoted
import DocModel.Text.Search
import DocModel.Toml.Basic
import DocModel.Toml.Reader
import DocModel.Ty.Basic
import DocModel.Ty.Equality
import DocModel.Ty.Json
import DocModel.Ty.References
import DocModel.Ty.Shape
import DocModel.Ty.Text
import DocModel.Ty.Union
import DocModel.Proofs.Table
import DocModel.Proofs.Tree
import DocModel.Proofs.Alias
import DocModel.Proofs.Mentions
import DocModel.Proofs.Projects
import DocModel.Proofs.Symbols
import DocModel.Proofs.Ledger
import DocModel.Proofs.Entries
import DocModel.Proofs.Homes
import DocModel.Proofs.Moment
import DocModel.Proofs.Measure
import DocModel.Proofs.Meets
import DocModel.Proofs.Answer
import DocModel.Proofs.Build
import DocModel.Proofs.Place
import DocModel.Proofs.Register
import DocModel.Proofs.Sorts
import DocModel.Proofs.Resolve
import DocModel.Proofs.Exports
import DocModel.Proofs.Operations
import DocModel.Proofs.Closure
import DocModel.Proofs.Stability
import DocModel.Proofs.Registration
import DocModel.Proofs.Steps
import DocModel.Proofs.Lost
import DocModel.Proofs.Termination
import DocModel.Proofs.Paths
import DocModel.Proofs.Directories
import DocModel.Proofs.Builds
import DocModel.Proofs.Change
import DocModel.Proofs.Chain
import DocModel.Proofs.Lookup
import DocModel.Proofs.Orderly
import DocModel.Proofs.Depth
import DocModel.Proofs.Stored
import DocModel.Proofs.Height
import DocModel.Proofs.Placement
import DocModel.Proofs.Origins
import DocModel.Proofs.Arena
import DocModel.Proofs.Endure
import DocModel.Proofs.DepthFree
import DocModel.Proofs.Skipped
import DocModel.Proofs.Enrolment
import DocModel.Proofs.Members
import DocModel.Proofs.Classified
import DocModel.Proofs.Remembered
import DocModel.Proofs.Fields
import DocModel.Proofs.ReadType
import DocModel.Proofs.ReadBack
import DocModel.Proofs.Lasting
import DocModel.Proofs.Outcome
import DocModel.Proofs.Retry
import DocModel.Proofs.Known
import DocModel.Proofs.Revisit
import DocModel.Proofs.Replay
import DocModel.Proofs.Extracted
import DocModel.Proofs.Again
import DocModel.Proofs.Snapshot
import DocModel.Proofs.Restored
import DocModel.Proofs.Circles
import DocModel.Proofs.Places
import DocModel.Proofs.Unions
import DocModel.Proofs.Walk
import DocModel.Proofs.Canonical
import DocModel.Proofs.Scan
import DocModel.Proofs.Binding
import DocModel.Proofs.Reading
import DocModel.Proofs.Locations
import DocModel.Proofs.Trimming
import DocModel.Proofs.Drafts
import DocModel.Proofs.TagText
import DocModel.Proofs.Layout
import DocModel.Proofs.Fences
import DocModel.Proofs.Defaults
import DocModel.Proofs.Templates
import DocModel.Proofs.Packages
import DocModel.Proofs.Edits
import DocModel.Proofs.Literals
