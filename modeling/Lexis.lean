import Lexis.CommandLine
import Lexis.CommandLine.Request
import Lexis.CommandLine.Texts
import Lexis.Diagnostic
import Lexis.ErrorLog
import Lexis.ErrorLog.Step
import Lexis.FileTree
import Lexis.Listing
import Lexis.Main
import Lexis.Number.Binary64
import Lexis.Number.Decimal
import Lexis.Number.Numeral
import Lexis.Placed
import Lexis.Position
import Lexis.Prompt
import Lexis.Prompt.Draft
import Lexis.Report
import Lexis.Scan
import Lexis.Segment
import Lexis.Sink
import Lexis.Text.Blank
import Lexis.Text.BreakClass
import Lexis.Text.Cluster
import Lexis.Text.Conjunct
import Lexis.Text.Pictograph
import Lexis.Text.Runs
import Lexis.Text.Utf8
import Lexis.Token
import Lexis.Token.Keyword
import Lexis.Token.Kind
import Lexis.Token.Operator
import Lexis.Proofs.Front
import Lexis.Proofs.Segmentation
import Lexis.Proofs.Grammar
import Lexis.Proofs.Lines
import Lexis.Proofs.ErrorAutomaton
import Lexis.Proofs.LineJoin
import Lexis.Proofs.Printing
import Lexis.Proofs.Writing
import Lexis.Proofs.History
import Lexis.Proofs.CaretRange
import Lexis.Proofs.Unambiguous
import Lexis.Proofs.FileListing
import Lexis.Proofs.Session
import Lexis.Proofs.ExitCode
import Lexis.Proofs.Rounding
import Lexis.Proofs.NumberLiteral
import Lexis.Proofs.ArgumentGrammar
import Lexis.Proofs.Offsets
import Lexis.Proofs.Carets
import Lexis.Proofs.ShortestDecimal
import Lexis.Proofs.PrintedNumber
import Lexis.Proofs.Boundaries
import Lexis.Proofs.Lookahead
import Lexis.Proofs.Erasure
import Lexis.Proofs.BlankLines
import Lexis.Proofs.Octets
import Lexis.Proofs.Cursor
import Lexis.Proofs.CursorSteps
import Lexis.Proofs.CursorRounds
import Lexis.Proofs.CursorInvariant
