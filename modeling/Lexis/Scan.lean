import Lexis.Diagnostic
import Lexis.Placed

/-!
# Scanning

A scan finds the tokens of a text and reports its faults. It never stops early: whatever is not a
token is passed over.
-/

namespace Lexis

structure Scan where
  tokens : List Token
  diagnostics : List Diagnostic
  deriving Repr, DecidableEq

namespace Scan

/-- The tokens of a text without the one that closes the list. -/
def properTokens (source : List Char) : List Token :=
  (Placed.cut 0 source).filterMap Placed.token?

def faults (source : List Char) : List (Nat × Fault) :=
  (Placed.cut 0 source).filterMap Placed.fault?

def ofText (source : String) : Scan :=
  let text := source.toList
  { tokens := properTokens text ++ [Token.endOfFile (Text.byteLength text)]
    diagnostics := (faults text).map fun (offset, fault) => Diagnostic.ofFault text offset fault }

theorem ofText_tokens (source : String) :
    (ofText source).tokens =
      properTokens source.toList ++ [Token.endOfFile source.utf8ByteSize] := by
  simp [ofText, Text.byteLength_toList]

theorem ofText_diagnostics_length (source : String) :
    (ofText source).diagnostics.length = (faults source.toList).length := by
  simp [ofText]

theorem ofText_empty : ofText "" = ⟨[Token.endOfFile 0], []⟩ := by
  simp [ofText, properTokens, faults]

end Scan

end Lexis
