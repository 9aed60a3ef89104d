import Lexis.CommandLine.Request
import Lexis.Prompt
import Lexis.Prompt.Draft

/-!
# The command line

An invocation is answered by an exit status and what it writes to the two output streams, all
worked out from the arguments, the files and the input. A platform brings what the invocation does
not decide.
-/

namespace Lexis

inductive ExitStatus where
  | success
  | failure
  | usage
  | dataError
  | aborted
  deriving Repr, DecidableEq

def ExitStatus.code : ExitStatus → Nat
  | .success => 0
  | .failure => 1
  | .usage => 64
  | .dataError => 65
  | .aborted => 101

structure Outcome where
  exit : ExitStatus
  stdout : ByteArray
  stderr : String

/-- The line editor of the prompt, and what the error stream holds when a run breaks down. -/
structure Platform where
  edit : Prompt.Editor
  crashText : String

namespace Outcome

def printing (text : String) : Outcome := ⟨.success, text.toUTF8, ""⟩

def errorLine (message : String) : String := "Error: " ++ message ++ "\n"

def ofUsageError (error : UsageError) : Outcome :=
  ⟨.usage, usageText.toUTF8, errorLine error.message⟩

section

variable (platform : Platform)

def crash (sink : Sink) : Outcome := ⟨.aborted, sink.held, platform.crashText⟩

/-- Output that breaks off ends the program; a caret out of range breaks it down. -/
def ofWriteError (sink : Sink) (cause : WriteError) : Outcome :=
  match cause with
  | .sinkFull => ⟨.failure, sink.held, errorLine (Failure.output cause).message⟩
  | .caretOutOfRange => crash platform sink

/-- Ends the listing of a text or a file: faults are reported on the same stream and make the exit
status a data error. -/
def ofListing : Sink × Except Failure (List Token) → Outcome
  | (sink, .ok _) => ⟨.success, sink.held, ""⟩
  | (sink, .error (.lexical log)) =>
      match log.writeReport sink with
      | (sink, none) => ⟨.dataError, sink.held, ""⟩
      | (sink, some .sinkFull) =>
          ⟨.dataError, sink.held,
            errorLine ("failed to write diagnostics: " ++ WriteError.sinkFull.message)⟩
      | (sink, some .caretOutOfRange) => crash platform sink
  | (sink, .error (.output cause)) => ofWriteError platform sink cause
  | (sink, .error (.unreadable path cause)) =>
      ⟨.failure, sink.held, errorLine (Failure.unreadable path cause).message⟩

def ofSession : Sink × Prompt.Ending → Outcome
  | (sink, .left) => ⟨.success, sink.held, ""⟩
  | (sink, .endOfInput) => ⟨.success, sink.held, ""⟩
  | (sink, .unreadable .notUtf8) =>
      ⟨.failure, sink.held, errorLine ("readline error: " ++ ReadError.notUtf8.message)⟩
  | (sink, .unreadable .notEdited) => crash platform sink
  | (sink, .broken cause) => ofWriteError platform sink cause

def ofRequest (read : FileReader) (input : ByteArray) : Request → Outcome
  | .help => printing usageText
  | .version => printing versionText
  | .evaluate code => ofListing platform (listText code Sink.unlimited)
  | .file path => ofListing platform (listFile read path Sink.unlimited)
  | .prompt => ofSession platform (Prompt.session platform.edit input)

def ofInvocationOn (arguments : List String) (read : FileReader) (input : ByteArray) : Outcome :=
  match Request.ofArguments arguments with
  | .error error => ofUsageError error
  | .ok request => ofRequest platform read input request

end

theorem ofInvocationOn_of_usageError {arguments : List String} {error : UsageError}
    (h : Request.ofArguments arguments = .error error) (platform : Platform) (read : FileReader)
    (input : ByteArray) : ofInvocationOn platform arguments read input = ofUsageError error := by
  simp only [ofInvocationOn, h]

end Outcome

/-! ## The program -/

/-- A run that breaks down writes nothing of its own to the error stream. -/
def Platform.standard : Platform := ⟨Prompt.applyBackspaces, ""⟩

def Outcome.ofInvocation : List String → FileReader → ByteArray → Outcome :=
  ofInvocationOn .standard

end Lexis
