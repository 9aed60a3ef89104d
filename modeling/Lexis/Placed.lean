import Lexis.Segment

/-!
# Cutting a text into segments

Segments are cut off one after the other and keep the byte offset of their text. They tile the
text, and where the text starts is seen in the offsets only.
-/

namespace Lexis

structure Placed where
  offset : Nat
  segment : Segment
  deriving Repr, DecidableEq

namespace Placed

/-- Cuts a text that starts at byte `offset`; `done` holds what was cut before, last first. -/
def cutOnto (done : List Placed) (offset : Nat) : List Char → List Placed
  | [] => done.reverse
  | c :: later =>
      let segment := Segment.first c later
      cutOnto (⟨offset, segment⟩ :: done) (offset + Text.byteLength segment.text)
        ((c :: later).drop segment.text.length)
termination_by source => source.length
decreasing_by exact Segment.length_drop_first_lt c later

def cut (offset : Nat) (source : List Char) : List Placed := cutOnto [] offset source

theorem cutOnto_cons (done : List Placed) (offset : Nat) (c : Char) (later : List Char) :
    cutOnto done offset (c :: later) =
      cutOnto (⟨offset, Segment.first c later⟩ :: done)
        (offset + Text.byteLength (Segment.first c later).text)
        ((c :: later).drop (Segment.first c later).text.length) := by
  rw [cutOnto]

theorem cutOnto_eq (done : List Placed) (offset : Nat) (source : List Char) :
    cutOnto done offset source = done.reverse ++ cut offset source := by
  match source with
  | [] => simp [cut, cutOnto]
  | c :: later =>
      rw [cut, cutOnto_cons, cutOnto_cons, cutOnto_eq, cutOnto_eq [_]]
      simp
termination_by source.length
decreasing_by all_goals exact Segment.length_drop_first_lt c later

@[simp] theorem cut_nil (offset : Nat) : cut offset [] = [] := by
  simp [cut, cutOnto]

theorem cut_cons (offset : Nat) (c : Char) (later : List Char) :
    cut offset (c :: later) =
      ⟨offset, Segment.first c later⟩ ::
        cut (offset + Text.byteLength (Segment.first c later).text)
          ((c :: later).drop (Segment.first c later).text.length) := by
  rw [cut, cutOnto_cons, cutOnto_eq]
  rfl

/-- The segments tile the text: joined, they are the text again. -/
theorem cut_flatMap_text (offset : Nat) (source : List Char) :
    (cut offset source).flatMap (·.segment.text) = source := by
  match source with
  | [] => simp
  | c :: later =>
      rw [cut_cons, List.flatMap_cons, cut_flatMap_text]
      exact List.prefix_iff_eq_append.mp (Segment.first_text_isPrefix c later)
termination_by source.length
decreasing_by exact Segment.length_drop_first_lt c later

def token? (placed : Placed) : Option Token := placed.segment.token? placed.offset

def fault? (placed : Placed) : Option (Nat × Fault) :=
  placed.segment.fault?.map (placed.offset, ·)

end Placed

end Lexis
