import Lexis.Text.Utf8

/-!
# Positions in a source text

A position is a line and a column, both counted from one, the column in bytes. A location is a
position together with the line it falls on.
-/

namespace Lexis

structure Position where
  line : Nat
  column : Nat
  deriving Repr, DecidableEq

namespace Position

def display (position : Position) : String :=
  toString position.line ++ ":" ++ toString position.column

def compare (a b : Position) : Ordering :=
  (Ord.compare a.line b.line).then (Ord.compare a.column b.column)

theorem compare_eq_eq {a b : Position} : a.compare b = .eq ↔ a = b := by
  cases a
  cases b
  simp [compare, Ordering.then_eq_eq]

end Position

structure Location where
  position : Position
  lineText : List Char
  deriving Repr, DecidableEq

namespace Location

def linesOf (source : List Char) : List (List Char) := source.splitOn '\n'

/-- Finds the line that holds a byte offset, when `line` is the number of the first of the lines
and the offset counts from its start. A line feed belongs to the line it ends. -/
def find (line : Nat) : List (List Char) → Nat → Location
  | [], offset => ⟨⟨line, offset + 1⟩, []⟩
  | current :: later, offset =>
      if offset ≤ Text.byteLength current then ⟨⟨line, offset + 1⟩, current⟩
      else find (line + 1) later (offset - (Text.byteLength current + 1))

theorem find_here {line offset : Nat} {current : List Char} {later : List (List Char)}
    (h : offset ≤ Text.byteLength current) :
    find line (current :: later) offset = ⟨⟨line, offset + 1⟩, current⟩ := by
  simp [find, h]

theorem find_later (line offset : Nat) (current : List Char) (later : List (List Char)) :
    find line (current :: later) (Text.byteLength current + 1 + offset) =
      find (line + 1) later offset := by
  rw [find, if_neg (by omega), Nat.add_sub_cancel_left]

/-- The location of a byte offset; an offset beyond the end counts as the end. -/
def ofOffset (source : List Char) (offset : Nat) : Location :=
  find 1 (linesOf source) (min offset (Text.byteLength source))

theorem ofOffset_of_length_le {source : List Char} {offset : Nat}
    (h : Text.byteLength source ≤ offset) :
    ofOffset source offset = ofOffset source (Text.byteLength source) := by
  simp [ofOffset, Nat.min_eq_right h]

example : ofOffset "one\ntwo".toList 5 = ⟨⟨2, 2⟩, "two".toList⟩ := by decide

end Location

end Lexis
