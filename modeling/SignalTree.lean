import SignalTree.CommandLine.Arguments
import SignalTree.CommandLine.Dump
import SignalTree.CommandLine.Program
import SignalTree.CommandLine.Request
import SignalTree.Datatype.Basic
import SignalTree.Datatype.Literal
import SignalTree.Decimal.Binary
import SignalTree.Decimal.Layout
import SignalTree.Decimal.Numeral
import SignalTree.Decimal.Shortest
import SignalTree.Definition.Defect
import SignalTree.Definition.Flat
import SignalTree.Definition.Format
import SignalTree.Definition.Nested
import SignalTree.Generate
import SignalTree.Json.Number
import SignalTree.Json.Printer
import SignalTree.Json.Reader
import SignalTree.Json.Value
import SignalTree.Main
import SignalTree.Model.Basic
import SignalTree.Model.Hierarchy
import SignalTree.Model.Json
import SignalTree.Model.Name
import SignalTree.Model.Units
import SignalTree.Node.Attribute
import SignalTree.Node.Basic
import SignalTree.Node.Record
import SignalTree.Path
import SignalTree.Proofs.Agreement
import SignalTree.Proofs.Ancestors
import SignalTree.Proofs.BlockScan
import SignalTree.Proofs.Clash
import SignalTree.Proofs.CodeLines
import SignalTree.Proofs.CodeText
import SignalTree.Proofs.Declaration
import SignalTree.Proofs.EntryTree
import SignalTree.Proofs.FileText
import SignalTree.Proofs.Forest
import SignalTree.Proofs.FormatAgreement
import SignalTree.Proofs.IndexNames
import SignalTree.Proofs.ItemCode
import SignalTree.Proofs.ItemDecl
import SignalTree.Proofs.ItemText
import SignalTree.Proofs.Lines
import SignalTree.Proofs.Listing
import SignalTree.Proofs.Literals
import SignalTree.Proofs.ModuleTree
import SignalTree.Proofs.Name
import SignalTree.Proofs.NamedPaths
import SignalTree.Proofs.NoteLines
import SignalTree.Proofs.Outline
import SignalTree.Proofs.Placement
import SignalTree.Proofs.Progress
import SignalTree.Proofs.Quote
import SignalTree.Proofs.Reference
import SignalTree.Proofs.Resolution
import SignalTree.Proofs.Resolve
import SignalTree.Proofs.Scope
import SignalTree.Proofs.Standing
import SignalTree.Proofs.TypeTree
import SignalTree.Proofs.UnitItems
import SignalTree.Proofs.UnitNames
import SignalTree.Proofs.Units
import SignalTree.Registry
import SignalTree.Run.Event
import SignalTree.Run.Fault
import SignalTree.Run.Outcome
import SignalTree.Settings.Basic
import SignalTree.Source.Clash
import SignalTree.Source.Code
import SignalTree.Source.Declare
import SignalTree.Source.File
import SignalTree.Source.Index
import SignalTree.Source.Item
import SignalTree.Text.Basic
import SignalTree.Text.Blank
import SignalTree.Text.Cased
import SignalTree.Text.Cluster
import SignalTree.Text.Hex
import SignalTree.Text.Joining
import SignalTree.Text.Literal
import SignalTree.Text.Runs
import SignalTree.Text.Visible
import SignalTree.Text.Words
import SignalTree.Toml.Document
import SignalTree.Toml.Reader
import SignalTree.Toml.Scalar
import SignalTree.Toml.Value
import SignalTree.Workspace.Discovery
import SignalTree.Workspace.Disk
import SignalTree.Workspace.FilePath
import SignalTree.Workspace.FileTree
import SignalTree.Workspace.Files
import SignalTree.Workspace.Install
import SignalTree.Workspace.OsError
import SignalTree.Proofs.DistinctKeys
import SignalTree.Proofs.Registering
import SignalTree.Proofs.NestedPaths
import SignalTree.Proofs.NodeOrder
import SignalTree.Proofs.TreePlaces
import SignalTree.Proofs.DiskPlaces
import SignalTree.Proofs.MissingParents
import SignalTree.Proofs.DiskJobs
import SignalTree.Proofs.Installing
import SignalTree.Proofs.ReadOnly
import SignalTree.Proofs.Generating
import SignalTree.Proofs.Searching
import SignalTree.Proofs.Regenerating
import SignalTree.Proofs.Elementwise
import SignalTree.Proofs.NestedEntries
import SignalTree.Proofs.FlatLines
import SignalTree.Proofs.SamePaths
import SignalTree.Proofs.Revising
import SignalTree.Proofs.SegmentNames
import SignalTree.Proofs.Gaps
import SignalTree.Proofs.FlatEdits
import SignalTree.Proofs.QuotedValues
import SignalTree.Proofs.DecimalText
import SignalTree.Proofs.Doubles
import SignalTree.Proofs.Rounding
import SignalTree.Proofs.Nearest
import SignalTree.Proofs.IntegerBounds
import SignalTree.Proofs.DecimalBounds
import SignalTree.Proofs.UnitFaults
import SignalTree.Proofs.WrittenRows
import SignalTree.Proofs.ConstantText
import SignalTree.Proofs.Writer
import SignalTree.Proofs.Emission
import SignalTree.Proofs.ModuleFiles
import SignalTree.Proofs.PropertySteps
import SignalTree.Proofs.FirstDefinitions
import SignalTree.Proofs.Discovering
import SignalTree.Proofs.Members
import SignalTree.Proofs.ChildOrder
import SignalTree.Proofs.Identifiers
import SignalTree.Proofs.Descent
