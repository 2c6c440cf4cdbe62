import StyleExpand.Text.Blank
import StyleExpand.Text.Word
import StyleExpand.Number.Shortest
import StyleExpand.Value.Basic
import StyleExpand.Value.Operand
import StyleExpand.Sheet.Parser
import StyleExpand.Sheet.Printer
import StyleExpand.Sheet.Outline
import StyleExpand.Scope
import StyleExpand.Reference
import StyleExpand.Report
import StyleExpand.Run.Walk
import StyleExpand.Main
import StyleExpand.Proofs.Run.Refinement
import StyleExpand.Proofs.Run.Isolation
import StyleExpand.Proofs.Run.Built
import StyleExpand.Proofs.Run.Release
import StyleExpand.Proofs.Sheet.RoundTrip
import StyleExpand.Proofs.Sheet.FixedPoint
import StyleExpand.Proofs.Sheet.Ink
import StyleExpand.Proofs.Sheet.Offset
import StyleExpand.Proofs.Reference
import StyleExpand.Proofs.Run.Resolved
import StyleExpand.Proofs.Run.Declared
import StyleExpand.Proofs.Run.Warnings
import StyleExpand.Proofs.Value.RoundTrip
import StyleExpand.Proofs.Value.Literal
import StyleExpand.Proofs.Run.Listing
import StyleExpand.Proofs.Passages
import StyleExpand.Proofs.Run.Reporting
import StyleExpand.Proofs.CommandLine.Arguments
import StyleExpand.Proofs.CommandLine.Delivery
import StyleExpand.Proofs.Sheet.Insertion
import StyleExpand.Proofs.Sheet.Copy
import StyleExpand.Proofs.Decomposition
import StyleExpand.Proofs.Scope
import StyleExpand.Proofs.Assignment
import StyleExpand.Proofs.Sheet.Composition
import StyleExpand.Proofs.Number.Whole
import StyleExpand.Proofs.Number.Numeral
import StyleExpand.Proofs.Run.Counting
import StyleExpand.Proofs.Value.Layout
import StyleExpand.Proofs.Value.Wrapping
import StyleExpand.Proofs.Run.Cursor
