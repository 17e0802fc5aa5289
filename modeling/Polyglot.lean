import Polyglot.FileTree
import Polyglot.Main
import Polyglot.Proofs.Document.Lexing
import Polyglot.Proofs.Document.RoundTrip
import Polyglot.Proofs.FileTree.Storing
import Polyglot.Proofs.Command.Course
import Polyglot.Proofs.Command.Effect
import Polyglot.Proofs.Merge.Diagnostics
import Polyglot.Proofs.Merge.Exchange
import Polyglot.Proofs.Document.Controls
import Polyglot.Proofs.Hazard.Runs
import Polyglot.Proofs.Merge.Hazards
import Polyglot.Proofs.Command.Failure
import Polyglot.Proofs.Command.Flags
import Polyglot.Proofs.FileTree.Shape
import Polyglot.Proofs.FileTree.Reading
import Polyglot.Proofs.FileTree.Again
import Polyglot.Proofs.Command.Outcome
import Polyglot.Proofs.Command.Again
import Polyglot.Proofs.Json.Grammar
import Polyglot.Proofs.Json.Unambiguous
import Polyglot.Proofs.Json.Printing
import Polyglot.Proofs.Json.Decoding
import Polyglot.Proofs.Diagnostic.Decoding
import Polyglot.Proofs.Command.Report
import Polyglot.Proofs.Hazard.Maximal
import Polyglot.Proofs.Literal.Refusal
import Polyglot.Proofs.Document.Faults
import Polyglot.Proofs.Document.Truncation
import Polyglot.Proofs.Literal.Canonical
import Polyglot.Proofs.Document.Canonical
import Polyglot.Proofs.Literal.Outcomes
import Polyglot.Proofs.Literal.Replacement
import Polyglot.Proofs.Diagnostic.Lines
import Polyglot.Proofs.Diagnostic.Location
import Polyglot.Proofs.Diagnostic.Checked
import Polyglot.Proofs.Diagnostic.Rows
import Polyglot.Proofs.Diagnostic.Carets
import Polyglot.Proofs.Diagnostic.Gutter
import Polyglot.Proofs.Hazard.Rendering
import Polyglot.Proofs.Merge.Renaming
import Polyglot.Proofs.Literal.Search
import Polyglot.Proofs.Document.Checked
import Polyglot.Proofs.Diagnostic.Partition
