/-!
# Sets of characters as runs of code points
-/

namespace Lexis.Text

/-- The first and the last code point of each run. -/
abbrev Runs := List (Nat × Nat)

def Runs.covers (runs : Runs) (n : Nat) : Bool := runs.any fun run => run.1 ≤ n && n ≤ run.2

end Lexis.Text
