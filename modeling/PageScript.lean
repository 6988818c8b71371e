import PageScript.Editor.Serve
import PageScript.Evaluation
import PageScript.Json.Reader
import PageScript.Json.Writer
import PageScript.Main
import PageScript.Node.Outline
import PageScript.Node.Reader
import PageScript.Node.Record
import PageScript.Report
import PageScript.Proofs.Evaluation.Isolation
import PageScript.Proofs.Evaluation.Mapping
import PageScript.Proofs.Evaluation.Renaming
import PageScript.Proofs.Evaluation.Rewriting
import PageScript.Proofs.Evaluation.Simulation
import PageScript.Proofs.Evaluation.Correspondence
import PageScript.Proofs.Evaluation.Closed
import PageScript.Proofs.Evaluation.Replay
import PageScript.Proofs.Evaluation.Loops
import PageScript.Proofs.Framing.Chunking
import PageScript.Proofs.Lexing.LongestMatch
import PageScript.Proofs.Lexing.Spans
import PageScript.Proofs.Lexing.Rendering
import PageScript.Proofs.Syntax.Grammar
import PageScript.Proofs.Syntax.Reading
import PageScript.Proofs.Number.Decimal
import PageScript.Proofs.Syntax.Lines
import PageScript.Proofs.Syntax.Writing
import PageScript.Proofs.Syntax.RoundTrip
import PageScript.Proofs.Syntax.Statements
import PageScript.Proofs.Syntax.Progress
import PageScript.Proofs.Syntax.Soundness
import PageScript.Proofs.Syntax.Symbols
import PageScript.Proofs.Syntax.Reprinting
import PageScript.Proofs.Syntax.Trees
import PageScript.Proofs.Syntax.WellFormed
import PageScript.Proofs.Evaluation.Policies
import PageScript.Proofs.Evaluation.Sessions
import PageScript.Proofs.Evaluation.Failures
import PageScript.Proofs.Evaluation.Agreement
import PageScript.Proofs.Evaluation.CallDepth
import PageScript.Proofs.Evaluation.Faults
import PageScript.Proofs.Evaluation.Termination
import PageScript.Proofs.Editor.Toolkit
import PageScript.Proofs.Editor.Standard
import PageScript.Proofs.Editor.History
import PageScript.Proofs.Framing.Serving
import PageScript.Proofs.Text.Encoding
import PageScript.Proofs.Json.Strings
import PageScript.Proofs.Json.RoundTrip
import PageScript.Proofs.Framing.Messages
import PageScript.Proofs.Lexing.Joining
import PageScript.Proofs.Syntax.Layout
import PageScript.Proofs.Evaluation.Rewritten
import PageScript.Proofs.Evaluation.Lines
import PageScript.Proofs.Evaluation.Pieces
import PageScript.Proofs.Editor.Lifecycle
import PageScript.Proofs.Syntax.Blame
import PageScript.Proofs.Editor.Analysis
import PageScript.Proofs.Evaluation.DeadStatements
import PageScript.Proofs.Evaluation.TailReturns
import PageScript.Proofs.Lexing.Vocabulary
import PageScript.Proofs.Lexing.Places
import PageScript.Proofs.Syntax.Completion
import PageScript.Proofs.Evaluation.ReservedNames
import PageScript.Proofs.Evaluation.Naming
import PageScript.Proofs.Evaluation.Named
import PageScript.Proofs.Syntax.Data
import PageScript.Proofs.Evaluation.Data
import PageScript.Proofs.Fields
import PageScript.Proofs.Framing.Headers
import PageScript.Proofs.Framing.Blocks
import PageScript.Proofs.Json.LongIntegers
import PageScript.Proofs.Framing.Recovery
import PageScript.Proofs.Editor.Dispatch
import PageScript.Proofs.Value.Equality
import PageScript.Proofs.Number.Magnitude
import PageScript.Proofs.Number.Exact
import PageScript.Proofs.Number.Remainder
import PageScript.Proofs.Value.Ordering
import PageScript.Proofs.Value.Display
import PageScript.Proofs.Evaluation.Stages
import PageScript.Proofs.Evaluation.Genuine
import PageScript.Proofs.Value.Indistinguishable
import PageScript.Proofs.Errors
import PageScript.Proofs.Scopes
import PageScript.Proofs.Syntax.Stopping
import PageScript.Proofs.Syntax.FirstTokens
import PageScript.Proofs.Evaluation.BlamedLines
import PageScript.Proofs.Lexing.Counting
import PageScript.Proofs.Syntax.ErrorTokens
import PageScript.Proofs.Text.Lines
import PageScript.Proofs.Syntax.Diagrams
import PageScript.Proofs.Editor.Ranges
import PageScript.Proofs.Editor.Changes
import PageScript.Proofs.Lexing.Words
import PageScript.Proofs.Editor.Hover
import PageScript.Proofs.Framing.HeaderFields
import PageScript.Proofs.Text.Utf8
import PageScript.Proofs.CommandLine.Exits
import PageScript.Proofs.Text.Quoted
import PageScript.Proofs.Number.Shortest
import PageScript.Proofs.Literal
import PageScript.Proofs.Syntax.Indentation
import PageScript.Proofs.Syntax.Entries
import PageScript.Proofs.Syntax.Outline
import PageScript.Proofs.Evaluation.Reads
import PageScript.Proofs.Toml.Distinct
import PageScript.Proofs.CommandLine.Predefined
