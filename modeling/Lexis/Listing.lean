import Lexis.FileTree
import Lexis.Report

/-!
# Token listings

A text is listed by writing one line for each of its tokens to a sink. Its faults do not disturb
the listing; they are reported when it is complete.
-/

namespace Lexis

namespace Listing

def linePieces (token : Token) : List String := "Token: " :: (token.pieces ++ ["\n"])

def textPieces (tokens : List Token) : List String := tokens.flatMap linePieces

def text (tokens : List Token) : String := String.join (textPieces tokens)

def pieces (tokens : List Token) : List Piece := (textPieces tokens).map .ok

theorem textPieces_append (a b : List Token) :
    textPieces (a ++ b) = textPieces a ++ textPieces b := by
  simp [textPieces]

theorem text_append (a b : List Token) : text (a ++ b) = text a ++ text b := by
  simp [text, textPieces_append]

example : text [Token.endOfFile 0] = "Token: END_OF_FILE \n" := by decide

end Listing

inductive Failure where
  | unreadable (path : String) (cause : ReadError)
  | output (cause : WriteError)
  | lexical (log : ErrorLog)
  deriving Repr, DecidableEq

def Failure.message : Failure → String
  | .unreadable path cause => "failed to read " ++ path ++ ": " ++ cause.message
  | .output cause => "failed to write output: " ++ cause.message
  | .lexical log =>
      toString log.count ++ " lexical error(s) in " ++ log.filename.getD "<input>"

/-- Scans a text into a log and writes the listing of its tokens. The log is complete whether or
not the sink takes the whole listing. -/
def ErrorLog.list (log : ErrorLog) (source : String) (sink : Sink) :
    ErrorLog × Sink × Except WriteError (List Token) :=
  let (log, tokens) := log.scanText source
  match sink.writeAll (Listing.pieces tokens) with
  | (sink, none) => (log, sink, .ok tokens)
  | (sink, some cause) => (log, sink, .error cause)

theorem ErrorLog.list_log (log : ErrorLog) (source : String) (sink : Sink) :
    (log.list source sink).1 = log.append (Scan.ofText source).diagnostics := by
  simp only [list, scanText]
  split <;> rfl

/-- Lists a text with a log of its own. A sink that fails comes before any fault of the text. -/
def listNamed (filename : Option String) (source : String) (sink : Sink) :
    Sink × Except Failure (List Token) :=
  match (ErrorLog.empty filename).list source sink with
  | (_, sink, .error cause) => (sink, .error (.output cause))
  | (log, sink, .ok tokens) => (sink, if log.isEmpty then .ok tokens else .error (.lexical log))

def listText (source : String) (sink : Sink) : Sink × Except Failure (List Token) :=
  listNamed none source sink

def listFile (read : FileReader) (path : String) (sink : Sink) :
    Sink × Except Failure (List Token) :=
  match read.readText path with
  | .error cause => (sink, .error (.unreadable path cause))
  | .ok source => listNamed (some path) source sink

end Lexis
