import Lexis.Diagnostic

/-!
# Lines of a text and the offsets on them

The lines of a text in two parts are the lines of the parts, so a location is found in the part
that holds its offset. From this come the line an offset lies on, how a location moves when lines
are put before it, and that locations keep the order of their offsets.
-/

namespace Lexis

theorem Position.compare_eq_lt {a b : Position} :
    a.compare b = .lt ↔ a.line < b.line ∨ a.line = b.line ∧ a.column < b.column := by
  unfold compare
  rw [Ordering.then_eq_lt, Nat.compare_eq_lt, Nat.compare_eq_eq, Nat.compare_eq_lt]

def Position.below (position : Position) (lines : Nat) : Position :=
  { position with line := position.line + lines }

namespace Location

def below (location : Location) (lines : Nat) : Location :=
  { location with position := location.position.below lines }

/-! ## Lines -/

theorem linesOf_append (a b : List Char) : linesOf (a ++ '\n' :: b) = linesOf a ++ linesOf b :=
  List.splitOn_append_cons_self a b

theorem linesOf_of_not_mem {line : List Char} (h : '\n' ∉ line) : linesOf line = [line] :=
  List.splitOn_eq_singleton h

/-- A text is one line, or a line and a text behind its line feed. -/
@[elab_as_elim]
theorem lines_induction {motive : List Char → Prop} (source : List Char)
    (last : ∀ line, '\n' ∉ line → motive line)
    (line : ∀ line later, '\n' ∉ line → motive later → motive (line ++ '\n' :: later)) :
    motive source := by
  by_cases h : '\n' ∈ source
  · obtain ⟨first, later, hsource, hfirst⟩ := List.eq_append_cons_of_mem h
    have hshort : later.length < source.length := by
      rw [hsource, List.length_append, List.length_cons]
      omega
    rw [hsource]
    exact line first later hfirst (lines_induction later last line)
  · exact last source h
termination_by source.length

/-- The bytes of lines that each end in a line feed. -/
def width : List (List Char) → Nat
  | [] => 0
  | line :: later => Text.byteLength line + 1 + width later

theorem byteLength_lineFeed : Text.byteLength ['\n'] = 1 := by decide

theorem width_linesOf (source : List Char) :
    width (linesOf source) = Text.byteLength source + 1 := by
  induction source using lines_induction with
  | last line h => rw [linesOf_of_not_mem h, width, width]
  | line line later h ih =>
      have hfeed := byteLength_lineFeed
      rw [linesOf_append, linesOf_of_not_mem h, List.singleton_append, width, ih]
      simp only [Text.byteLength_append, Text.byteLength_cons, Text.byteLength_nil] at hfeed ⊢
      omega

theorem length_linesOf (source : List Char) :
    (linesOf source).length = source.count '\n' + 1 := by
  induction source using lines_induction with
  | last line h =>
      rw [linesOf_of_not_mem h, List.length_singleton, List.count_eq_zero.mpr h]
  | line line later h ih =>
      have hline : line.count '\n' = 0 := List.count_eq_zero.mpr h
      rw [linesOf_append, linesOf_of_not_mem h, List.length_append, ih, List.length_singleton,
        List.count_append, List.count_cons_self, hline]
      omega

/-! ## Finding a location -/

theorem find_append_of_lt {lines : List (List Char)} {offset : Nat} (line : Nat)
    (later : List (List Char)) (h : offset < width lines) :
    find line (lines ++ later) offset = find line lines offset := by
  induction lines generalizing line offset with
  | nil => simp [width] at h
  | cons current lines ih =>
      rw [width] at h
      rw [List.cons_append, find, find]
      by_cases hhere : offset ≤ Text.byteLength current
      · rw [if_pos hhere, if_pos hhere]
      · rw [if_neg hhere, if_neg hhere]
        exact ih (line + 1) (by omega)

theorem find_append_width (line : Nat) (lines later : List (List Char)) (offset : Nat) :
    find line (lines ++ later) (width lines + offset) =
      find (line + lines.length) later offset := by
  induction lines generalizing line with
  | nil => simp [width]
  | cons current lines ih =>
      have hnext : line + 1 + lines.length = line + (lines.length + 1) := by omega
      rw [List.cons_append, width, Nat.add_assoc _ (width lines), find_later, ih,
        List.length_cons, hnext]

theorem find_add (line down : Nat) (lines : List (List Char)) (offset : Nat) :
    find (line + down) lines offset = (find line lines offset).below down := by
  induction lines generalizing line offset with
  | nil => rfl
  | cons current later ih =>
      rw [find, find]
      split
      · rfl
      · rw [Nat.add_right_comm]
        exact ih (line + 1) _

theorem le_find_line (line : Nat) (lines : List (List Char)) (offset : Nat) :
    line ≤ (find line lines offset).position.line := by
  induction lines generalizing line offset with
  | nil => exact Nat.le_refl line
  | cons current later ih =>
      rw [find]
      split
      · exact Nat.le_refl line
      · have hnext := ih (line + 1) (offset - (Text.byteLength current + 1))
        omega

theorem find_compare {p q : Nat} (line : Nat) (lines : List (List Char)) (h : p < q) :
    (find line lines p).position.compare (find line lines q).position = .lt := by
  induction lines generalizing line p q with
  | nil =>
      rw [Position.compare_eq_lt]
      right
      exact ⟨rfl, Nat.succ_lt_succ h⟩
  | cons current later ih =>
      by_cases hq : q ≤ Text.byteLength current
      · have hp : p ≤ Text.byteLength current := by omega
        rw [find_here hp, find_here hq, Position.compare_eq_lt]
        right
        exact ⟨rfl, Nat.succ_lt_succ h⟩
      · by_cases hp : p ≤ Text.byteLength current
        · have hline := le_find_line (line + 1) later (q - (Text.byteLength current + 1))
          rw [find_here hp, find, if_neg hq, Position.compare_eq_lt]
          left
          exact hline
        · rw [find, if_neg hp, find, if_neg hq]
          exact ih (line + 1) (by omega)

/-! ## Locations of offsets -/

theorem ofOffset_append_left {a : List Char} {offset : Nat} (b : List Char)
    (h : offset ≤ Text.byteLength a) :
    ofOffset (a ++ '\n' :: b) offset = ofOffset a offset := by
  have hwidth := width_linesOf a
  have hlength : offset ≤ Text.byteLength (a ++ '\n' :: b) := by
    rw [Text.byteLength_append]
    omega
  rw [ofOffset, ofOffset, Nat.min_eq_left h, Nat.min_eq_left hlength, linesOf_append]
  exact find_append_of_lt 1 _ (by omega)

/-- Offsets behind a line feed are located in what follows it, as many lines further down as there
are before. -/
theorem ofOffset_append_right (a b : List Char) (offset : Nat) :
    ofOffset (a ++ '\n' :: b) (Text.byteLength a + 1 + offset) =
      (ofOffset b offset).below (a.count '\n' + 1) := by
  have hfeed : '\n'.utf8Size = 1 := by decide
  have hlength : Text.byteLength (a ++ '\n' :: b) = Text.byteLength a + 1 + Text.byteLength b := by
    simp only [Text.byteLength_append, Text.byteLength_cons, hfeed]
    omega
  rw [ofOffset, ofOffset, hlength, Nat.add_min_add_left, linesOf_append, ← width_linesOf,
    find_append_width, length_linesOf, find_add]

theorem ofOffset_compare {source : List Char} {p q : Nat} (h : p < q)
    (hq : q ≤ Text.byteLength source) :
    (ofOffset source p).position.compare (ofOffset source q).position = .lt := by
  rw [ofOffset, ofOffset, Nat.min_eq_left hq, Nat.min_eq_left (by omega)]
  exact find_compare 1 _ h

/-- An offset on a whole line of a text has the number of that line and the distance from its
start. -/
theorem ofOffset_of_line {before line after : List Char} {offset : Nat}
    (starts : before = [] ∨ before.getLast? = some '\n') (whole : '\n' ∉ line)
    (ends : after = [] ∨ after.head? = some '\n') (h : offset ≤ Text.byteLength line) :
    ofOffset (before ++ line ++ after) (Text.byteLength before + offset) =
      ⟨⟨before.count '\n' + 1, offset + 1⟩, line⟩ := by
  have alone : ofOffset line offset = ⟨⟨1, offset + 1⟩, line⟩ := by
    rw [ofOffset, Nat.min_eq_left h, linesOf_of_not_mem whole, find_here h]
  have first : ofOffset (line ++ after) offset = ⟨⟨1, offset + 1⟩, line⟩ := by
    rcases ends with rfl | ends
    · rw [List.append_nil, alone]
    · obtain ⟨later, rfl⟩ := List.head?_eq_some_iff.mp ends
      rw [ofOffset_append_left later h, alone]
  rcases starts with rfl | starts
  · simpa using first
  · obtain ⟨earlier, rfl⟩ := List.getLast?_eq_some_iff.mp starts
    have hfeed := byteLength_lineFeed
    rw [Text.byteLength_append, hfeed, List.append_assoc, List.append_assoc,
      List.singleton_append, ofOffset_append_right, first, List.count_append,
      List.count_singleton_self, below, Position.below, Nat.add_comm 1]

end Location

end Lexis
