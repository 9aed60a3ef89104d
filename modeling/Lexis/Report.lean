import Lexis.ErrorLog
import Lexis.Sink

/-!
# Reports

The report of an error log has a header line for each diagnostic, and for one with a context the
context and a caret under its column.
-/

namespace Lexis

namespace Diagnostic

def lastCaretColumn : Nat := 65535

/-- A caret under a column, after the margin of the context line. Column 0 is shown as column 1. -/
def caretPiece (column : Nat) : Piece :=
  if column ≤ lastCaretColumn then
    .ok ("    " ++ String.ofList (List.replicate (column - 1) ' ') ++ "^\n")
  else .error .caretOutOfRange

def pieces (filename : Option String) (diagnostic : Diagnostic) : List Piece :=
  (match filename with
    | some name => [.ok (name ++ ":")]
    | none => []) ++
  [.ok (diagnostic.display ++ "\n")] ++
  match diagnostic.context with
    | some context => [.ok ("    " ++ context ++ "\n"), caretPiece diagnostic.position.column]
    | none => []

end Diagnostic

namespace ErrorLog

def reportPieces (log : ErrorLog) : List Piece :=
  log.records.flatMap (Diagnostic.pieces log.filename)

/-- Writes the report. It breaks off where the sink fails or a caret is out of range. -/
def writeReport (log : ErrorLog) (sink : Sink) : Sink × Option WriteError :=
  sink.writeAll log.reportPieces

def report (log : ErrorLog) : Except WriteError String :=
  (log.reportPieces.mapM id).map String.join

end ErrorLog

end Lexis
