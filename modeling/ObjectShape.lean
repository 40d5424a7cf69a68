import ObjectShape.BasicType
import ObjectShape.Calendar
import ObjectShape.Class
import ObjectShape.CommandLine.Arguments
import ObjectShape.CommandLine.Report
import ObjectShape.CommandLine.Run
import ObjectShape.DateText.Internet
import ObjectShape.DateText.Mail
import ObjectShape.DateText.Pattern
import ObjectShape.DateText.Reading
import ObjectShape.DateText.Recognition
import ObjectShape.DateText.Stamp
import ObjectShape.Decimal.Powers
import ObjectShape.Decimal.Reading
import ObjectShape.Decimal.Shortest
import ObjectShape.Declaration.Basic
import ObjectShape.Declaration.ObjectForm
import ObjectShape.Documents
import ObjectShape.EmptyPolicy
import ObjectShape.Entries
import ObjectShape.Fault
import ObjectShape.Files.Basic
import ObjectShape.Files.Fault
import ObjectShape.Files.Tree
import ObjectShape.Function
import ObjectShape.Guard
import ObjectShape.Json.Basic
import ObjectShape.Json.Fault
import ObjectShape.Json.Number
import ObjectShape.Json.Printer
import ObjectShape.Json.Reader
import ObjectShape.Main
import ObjectShape.Memo
import ObjectShape.Path
import ObjectShape.Settings.Basic
import ObjectShape.Settings.Document
import ObjectShape.Settings.Environment
import ObjectShape.Settings.Layers
import ObjectShape.Settings.Reading
import ObjectShape.Settings.Sources
import ObjectShape.Shape.Acceptance
import ObjectShape.Shape.Basic
import ObjectShape.Shape.Call
import ObjectShape.Shape.Compilation
import ObjectShape.Text.Blank
import ObjectShape.Text.Digits
import ObjectShape.Text.Pieces
import ObjectShape.Toml.Data
import ObjectShape.Toml.Quoted
import ObjectShape.Toml.Reader
import ObjectShape.Toml.Scalar
import ObjectShape.Value.Basic
import ObjectShape.Value.Heap
import ObjectShape.Value.Matching
import ObjectShape.Value.Outline
import ObjectShape.Workspace
import ObjectShape.Proofs.Path.Order
import ObjectShape.Proofs.Path.Plain
import ObjectShape.Proofs.Path.Chains
import ObjectShape.Proofs.Value.Outline
import ObjectShape.Proofs.Value.Lookup
import ObjectShape.Proofs.Value.FieldOrder
import ObjectShape.Proofs.Shape.Matching
import ObjectShape.Proofs.Shape.Verdict
import ObjectShape.Proofs.Shape.FieldOrder
import ObjectShape.Proofs.Shape.Assembly
import ObjectShape.Proofs.Shape.Merging
import ObjectShape.Proofs.Declaration.Levels
import ObjectShape.Proofs.Declaration.Placement
import ObjectShape.Proofs.Shape.WellFormed
import ObjectShape.Proofs.Shape.Layout
import ObjectShape.Proofs.Shape.Unmerged
import ObjectShape.Proofs.Declaration.Reading
import ObjectShape.Proofs.Declaration.Meaning
import ObjectShape.Proofs.Declaration.Grammar
import ObjectShape.Proofs.Declaration.Filled
import ObjectShape.Proofs.Shape.Composition
import ObjectShape.Proofs.Shape.Adjusting
import ObjectShape.Proofs.Shape.Widening
import ObjectShape.Proofs.Shape.ChoiceOrder
import ObjectShape.Proofs.Declaration.Reordering
import ObjectShape.Proofs.Memo
import ObjectShape.Proofs.Value.Heap
import ObjectShape.Proofs.Workspace.Ageing
import ObjectShape.Proofs.Workspace.Remembering
import ObjectShape.Proofs.Workspace.Transparency
import ObjectShape.Proofs.Json.Making
import ObjectShape.Proofs.Shape.Depth
import ObjectShape.Proofs.Shape.Calls
import ObjectShape.Proofs.Declaration.Repeated
import ObjectShape.Proofs.Declaration.Drafts
import ObjectShape.Proofs.Declaration.Vacancy
import ObjectShape.Proofs.Shape.Lenience
import ObjectShape.Proofs.Declaration.Flaws
import ObjectShape.Proofs.Declaration.Breaches
import ObjectShape.Proofs.Declaration.FirstBreach
import ObjectShape.Proofs.Value.Recording
import ObjectShape.Proofs.Class.Lineage
import ObjectShape.Proofs.Shape.InstanceChecks
import ObjectShape.Proofs.DateText.Reading
import ObjectShape.Proofs.DateText.Iso
import ObjectShape.Proofs.Calendar
import ObjectShape.Proofs.DateText.Recognition
import ObjectShape.Proofs.Files.Names
import ObjectShape.Proofs.Files.Snapshot
import ObjectShape.Proofs.Files.Disk
import ObjectShape.Proofs.Documents
import ObjectShape.Proofs.CommandLine.Checking
import ObjectShape.Proofs.Text.Bytes
import ObjectShape.Proofs.Shape.UniquePaths
import ObjectShape.Proofs.Shape.KeyOrder
