import Lexis.CommandLine.Texts
import Lexis.Listing
import Lexis.Text.Blank

/-!
# The prompt

The prompt reads lines and answers each on its own: with the listing of the line and the report of
its faults, with nothing if the line is blank, or with a farewell. What the backspaces in a line
make of it is up to a line editor, which may break down on the line.
-/

namespace Lexis

def showText (source : String) (sink : Sink) : Sink × Option WriteError :=
  match (ErrorLog.empty none).list source sink with
  | (_, sink, .error cause) => (sink, some cause)
  | (log, sink, .ok _) => log.writeReport sink

namespace Prompt

/-- What comes of a line by its backspaces; nothing if the editor breaks down on it. -/
abbrev Editor := List Char → Option (List Char)

inductive LineError where
  | notUtf8
  | notEdited
  deriving Repr, DecidableEq

inductive Ending where
  | left
  | endOfInput
  | unreadable (cause : LineError)
  | broken (cause : WriteError)
  deriving Repr, DecidableEq

/-- One carriage return before the line feed belongs to the end of the line. -/
def dropReturn (line : List Char) : List Char :=
  if line.getLast? = some '\r' then line.dropLast else line

variable (edit : Editor)

/-- The line that was typed, given the text before its line feed; `ended` says whether a line feed
was there at all. -/
def typedLine (ended : Bool) (text : String) : Except LineError String :=
  match edit (if ended then dropReturn text.toList else text.toList) with
  | some typed => .ok (String.ofList typed)
  | none => .error .notEdited

def decodeLine (ended : Bool) (bytes : List UInt8) : Except LineError String :=
  match String.fromUTF8? ⟨bytes.toArray⟩ with
  | some text => typedLine edit ended text
  | none => .error .notUtf8

def lineFeed : UInt8 := 10

/-- The lines of an input. What follows the last line feed is a line if it is not empty. -/
def linesOf (input : ByteArray) : List (Except LineError String) :=
  let parts := input.data.toList.splitOn lineFeed
  let rest := parts.getLastD []
  parts.dropLast.map (decodeLine edit true) ++
    if rest.isEmpty then [] else [decodeLine edit false rest]

def isFarewell (line : String) : Bool :=
  let trimmed := Text.trim line.toList
  trimmed == "exit".toList || trimmed == "quit".toList

def isBlank (line : String) : Bool := (Text.trim line.toList).isEmpty

/-- Answers one line. The session goes on if no ending comes back. -/
def answer (line : Except LineError String) (sink : Sink) : Sink × Option Ending :=
  match line with
  | .error cause => (sink, some (.unreadable cause))
  | .ok line =>
      if isFarewell line then ((sink.write farewellText).1, some .left)
      else if isBlank line then (sink, none)
      else
        match showText line sink with
        | (sink, none) => (sink, none)
        | (sink, some cause) => (sink, some (.broken cause))

def converse (sink : Sink) : List (Except LineError String) → Sink × Ending
  | [] => ((sink.write ("\n" ++ farewellText)).1, .endOfInput)
  | line :: later =>
      match answer line sink with
      | (sink, none) => converse sink later
      | (sink, some ending) => (sink, ending)

def session (input : ByteArray) : Sink × Ending :=
  converse (Sink.unlimited.write bannerText).1 (linesOf edit input)

end Prompt

end Lexis
