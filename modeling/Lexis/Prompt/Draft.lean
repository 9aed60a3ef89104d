import Lexis.Text.Cluster
import Lexis.Text.Utf8

/-!
# Backspaces in a line

A line comes in with its backspaces. Each of them takes away the cluster before it, by its size in
bytes. A size has one byte: of a cluster of 256 bytes or more the remainder counts.
-/

namespace Lexis.Prompt

def backspace : Char := '\x08'

/-- What is left of a line so far, from its last character to its first, and the sizes in bytes of
the clusters that a backspace can still take away. -/
structure Draft where
  kept : List Char
  sizes : List UInt8
  deriving Repr, DecidableEq

/-- Takes this many bytes off the front; nothing if a character would be cut. -/
def dropBytes : Nat → List Char → Option (List Char)
  | 0, text => some text
  | _, [] => none
  | bytes, c :: text => if c.utf8Size ≤ bytes then dropBytes (bytes - c.utf8Size) text else none

namespace Draft

def empty : Draft := ⟨[], []⟩

/-- Goes on with a cluster of the line. A backspace with nothing before it takes nothing away; one
whose size ends inside a character leaves no line. -/
def enter (draft : Draft) (cluster : List Char) : Option Draft :=
  if cluster = [backspace] then
    match draft.sizes with
    | [] => some draft
    | size :: sizes => (dropBytes size.toNat draft.kept).map fun kept => ⟨kept, sizes⟩
  else
    some ⟨cluster.reverse ++ draft.kept, (Text.byteLength cluster).toUInt8 :: draft.sizes⟩

end Draft

def applyBackspaces (line : List Char) : Option (List Char) :=
  ((Text.clusters line).foldlM Draft.enter Draft.empty).map fun draft => draft.kept.reverse

example : applyBackspaces ['x', 'e', '\u0301', '\x08', '@'] = some ['x', '@'] := by
  decide +kernel

example : applyBackspaces ('a' :: List.replicate 128 '\u0301' ++ [backspace]) = none := by
  decide +kernel

end Lexis.Prompt
