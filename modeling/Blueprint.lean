import Blueprint.Completion.Basic
import Blueprint.Completion.Kind
import Blueprint.Completion.Reference
import Blueprint.Config.Basic
import Blueprint.Config.Reader
import Blueprint.Cursor.Context
import Blueprint.Cursor.Line
import Blueprint.Cursor.Slot
import Blueprint.Cursor.Style
import Blueprint.Document
import Blueprint.Double
import Blueprint.Draft
import Blueprint.Element.Basic
import Blueprint.Element.Kind
import Blueprint.Element.Load
import Blueprint.Element.Reference
import Blueprint.Element.Substitution
import Blueprint.Element.Write
import Blueprint.Format
import Blueprint.Fragment.Basic
import Blueprint.Fragment.Document
import Blueprint.Fragment.Jsonc
import Blueprint.Fragment.Yaml
import Blueprint.Hover
import Blueprint.Inspect.Arguments
import Blueprint.Inspect.Run
import Blueprint.Json.Basic
import Blueprint.Json.Number
import Blueprint.Json.Printer
import Blueprint.Json.Reader
import Blueprint.Json.Record
import Blueprint.Main
import Blueprint.ParseTree.Basic
import Blueprint.ParseTree.Cursor
import Blueprint.ParseTree.Load
import Blueprint.Path.Basic
import Blueprint.Path.Shape
import Blueprint.Position
import Blueprint.Report
import Blueprint.Semantic
import Blueprint.Semantic.Reader
import Blueprint.Symbol
import Blueprint.Text.Blank
import Blueprint.Text.Bytes
import Blueprint.Text.Lines
import Blueprint.Text.Search
import Blueprint.Tree.Basic
import Blueprint.Tree.Lookup
import Blueprint.Proofs.Store.History
import Blueprint.Proofs.Store.Staleness
import Blueprint.Proofs.Conversion.Datum
import Blueprint.Proofs.Conversion.Writing
import Blueprint.Proofs.Tree.Numbering
import Blueprint.Proofs.Conversion.Nesting
import Blueprint.Proofs.Conversion.Agreement
import Blueprint.Proofs.Conversion.Quoting
import Blueprint.Proofs.Conversion.WellFormed
import Blueprint.Proofs.Outline.Ranges
import Blueprint.Proofs.Outline.Recovery
import Blueprint.Proofs.Outline.Shown
import Blueprint.Proofs.Conversion.Standing
import Blueprint.Proofs.Conversion.Regions
import Blueprint.Proofs.Tree.Lineage
import Blueprint.Proofs.Lookup.Scan
import Blueprint.Proofs.Lookup.Descent
import Blueprint.Proofs.Lookup.Leeway
import Blueprint.Proofs.Lookup.Coverage
import Blueprint.Proofs.Path.Written
import Blueprint.Proofs.Lookup.Paths
import Blueprint.Proofs.Tree.Arena
import Blueprint.Proofs.ParseTree.Walk
import Blueprint.Proofs.Text.Positions
import Blueprint.Proofs.Text.Lines
import Blueprint.Proofs.Text.Blank
import Blueprint.Proofs.Text.Search
import Blueprint.Proofs.Text.Scanners
import Blueprint.Proofs.Text.Strings
import Blueprint.Proofs.Path.Sections
import Blueprint.Proofs.Path.Areas
import Blueprint.Proofs.Completion.Coherence
import Blueprint.Proofs.Completion.Written
import Blueprint.Proofs.Completion.OpenBracket
import Blueprint.Proofs.Completion.Tentative
import Blueprint.Proofs.Completion.Order
import Blueprint.Proofs.Json.Restoring
import Blueprint.Proofs.Element.Restoring
import Blueprint.Proofs.Semantic.Restoring
import Blueprint.Proofs.Semantic.Revision
import Blueprint.Proofs.Semantic.Chain
import Blueprint.Proofs.Semantic.Hover
import Blueprint.Proofs.Lookup.Indentation
import Blueprint.Proofs.Cursor.BlankLine
import Blueprint.Proofs.Cursor.BlockLine
import Blueprint.Proofs.Cursor.FlowValue
import Blueprint.Proofs.Cursor.FlowLine
import Blueprint.Proofs.Cursor.Extraction
import Blueprint.Proofs.Cursor.InString
import Blueprint.Proofs.Cursor.Keys
