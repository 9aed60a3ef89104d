import Lexis.Proofs.CaretRange
import Lexis.Proofs.Unambiguous

/-!
# Where carets point

A segment that is rejected starts with a character on one line of the text. Its block in a report
shows this line and sets a caret under the first byte of the character. Three lines make a block,
and the blocks make the report.
-/

namespace Lexis

/-- A character of a text, on its line. -/
structure OnLine (source : List Char) where
  before : List Char
  here : List Char
  char : Char
  there : List Char
  after : List Char
  source_eq : source = before ++ (here ++ char :: there) ++ after
  starts : before = [] ∨ before.getLast? = some '\n'
  whole : '\n' ∉ here ++ char :: there
  ends : after = [] ∨ after.head? = some '\n'

namespace OnLine

variable {source : List Char}

def offset (place : OnLine source) : Nat := Text.byteLength (place.before ++ place.here)

def contextLine (place : OnLine source) : List Char :=
  ("    ".toList ++ place.here) ++ place.char :: place.there

/-- Blanks for the bytes of the margin and of the line up to the character, and a caret. -/
def caretLine (place : OnLine source) : List Char :=
  List.replicate (Text.byteLength ("    ".toList ++ place.here)) ' ' ++ ['^']

end OnLine

namespace Scan

end Scan

namespace Diagnostic

end Diagnostic

namespace Scan

end Scan

/-! ## Reports -/

end Lexis
