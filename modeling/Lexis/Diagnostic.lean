import Lexis.Position
import Lexis.Segment

/-!
# Diagnostics

A diagnostic is a message at a position, with the line it points into where that is known.
-/

namespace Lexis

structure Diagnostic where
  position : Position
  message : String
  context : Option String
  deriving Repr, DecidableEq

namespace Diagnostic

def display (diagnostic : Diagnostic) : String :=
  diagnostic.position.display ++ " error: " ++ diagnostic.message

def ofFault (source : List Char) (offset : Nat) (fault : Fault) : Diagnostic :=
  let location := Location.ofOffset source offset
  ⟨location.position, fault.message, some (String.ofList location.lineText)⟩

example : (ofFault "a\nb @".toList 4 .unexpectedCharacter).display =
    "2:3 error: Unexpected character." := by decide

end Diagnostic

end Lexis
