import FormatEdits.Text.Basic
import FormatEdits.Text.Quoted
import FormatEdits.CommandLine.Grammar
import FormatEdits.CommandLine.Reading
import FormatEdits.Text.Encoding
import FormatEdits.FileTree
import FormatEdits.Path
import FormatEdits.Edit
import FormatEdits.Number
import FormatEdits.Json.Value
import FormatEdits.Json.Reader
import FormatEdits.Schema.Checked
import FormatEdits.Schema.Scalar
import FormatEdits.Schema.Model
import FormatEdits.Formatter
import FormatEdits.Escape
import FormatEdits.Report
import FormatEdits.Document
import FormatEdits.Text.Case
import FormatEdits.Settings
import FormatEdits.Session
import FormatEdits.CommandLine.Program
import FormatEdits.Logging
import FormatEdits.Main
import FormatEdits.RunId
import FormatEdits.Web.Framework
import FormatEdits.Web.Service
import FormatEdits.Proofs.Text.Fields
import FormatEdits.Proofs.Text.Lines
import FormatEdits.Proofs.Edit.Position
import FormatEdits.Proofs.Edit.Acceptance
import FormatEdits.Proofs.Edit.Order
import FormatEdits.Proofs.Json.RoundTrip
import FormatEdits.Proofs.Report.Segments
import FormatEdits.Proofs.Report.Blocks
import FormatEdits.Proofs.Escape.Grammar
import FormatEdits.Proofs.Escape.Fixpoint
import FormatEdits.Proofs.Escape.Decoration
import FormatEdits.Proofs.Report.LineEndings
import FormatEdits.Proofs.Path.Lexical
import FormatEdits.Proofs.Path.NullFree
import FormatEdits.Proofs.Session.History
import FormatEdits.Proofs.Session.Overtaking
import FormatEdits.Proofs.Text.Utf8
import FormatEdits.Proofs.CommandLine.Collecting
import FormatEdits.Proofs.Formatter
import FormatEdits.Proofs.CommandLine.Outcomes
import FormatEdits.Proofs.CommandLine.ReadBack
import FormatEdits.Proofs.Edit.LineNumbering
import FormatEdits.Proofs.Edit.BottomUp
import FormatEdits.Proofs.Edit.LineTable
import FormatEdits.Proofs.Edit.Overlap
import FormatEdits.Proofs.Edit.WholeDocument
import FormatEdits.Proofs.Escape.Backtracking
import FormatEdits.Proofs.Web.Requests
import FormatEdits.Proofs.FailedRuns
import FormatEdits.Proofs.Path.FixedForm
import FormatEdits.Proofs.Path.Lifting
import FormatEdits.Proofs.Path.LinkFree
import FormatEdits.Proofs.Replacement
import FormatEdits.Proofs.Report.Written
import FormatEdits.Proofs.Report.Attribution
import FormatEdits.Proofs.Report.Lifting
import FormatEdits.Proofs.Report.Refusals
import FormatEdits.Proofs.Report.Reproduction
import FormatEdits.Proofs.Report.Scanning
import FormatEdits.Proofs.RunId
import FormatEdits.Proofs.Session.Display
import FormatEdits.Proofs.Session.Separation
import FormatEdits.Proofs.Session.Refusal
import FormatEdits.Proofs.SingleHunk
import FormatEdits.Proofs.Surfaces
import FormatEdits.Proofs.Web.RunIds
