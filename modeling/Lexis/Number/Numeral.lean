/-!
# Numerals of the source language

A numeral is a run of digits, with a point and a second run of digits if there is one.
-/

namespace Lexis

/-- The digits before the point and those after it; without a point the second run is empty. -/
structure Numeral where
  whole : List Char
  fraction : List Char
  deriving Repr, DecidableEq

namespace Numeral

def text (numeral : Numeral) : List Char :=
  match numeral.fraction with
  | [] => numeral.whole
  | d :: ds => numeral.whole ++ '.' :: d :: ds

structure WellFormed (numeral : Numeral) : Prop where
  whole_ne_nil : numeral.whole ≠ []
  whole_digits : ∀ d ∈ numeral.whole, d.isDigit
  fraction_digits : ∀ d ∈ numeral.fraction, d.isDigit

theorem text_ne_nil {numeral : Numeral} (h : numeral.WellFormed) : numeral.text ≠ [] := by
  unfold text
  split
  · exact h.whole_ne_nil
  · simp

def fractionAt : List Char → List Char
  | '.' :: later => later.takeWhile Char.isDigit
  | _ => []

/-- The longest numeral at the front of a text. A point without a digit behind it is left out. -/
def atFront (source : List Char) : Numeral :=
  ⟨source.takeWhile Char.isDigit, fractionAt (source.dropWhile Char.isDigit)⟩

theorem atFront_wellFormed {d : Char} (later : List Char) (h : d.isDigit) :
    (atFront (d :: later)).WellFormed where
  whole_ne_nil := by simp [atFront, h]
  whole_digits := by
    intro c hc
    exact List.all_eq_true.mp List.all_takeWhile c hc
  fraction_digits := by
    intro c hc
    simp only [atFront, fractionAt] at hc
    split at hc
    · exact List.all_eq_true.mp List.all_takeWhile c hc
    · simp at hc

theorem atFront_text_isPrefix (source : List Char) : (atFront source).text <+: source := by
  have front := List.takeWhile_append_dropWhile (p := Char.isDigit) (l := source)
  unfold text
  split
  · exact List.takeWhile_prefix _
  · rename_i d ds hfraction
    simp only [atFront, fractionAt] at hfraction ⊢
    split at hfraction
    · rename_i later hrest
      rw [hrest] at front
      rw [← hfraction]
      calc source.takeWhile Char.isDigit ++ '.' :: later.takeWhile Char.isDigit
          <+: source.takeWhile Char.isDigit ++ '.' :: later := by
            simp [List.takeWhile_prefix]
        _ = source := front
    · simp at hfraction

def digitsValue (numeral : Numeral) : Nat :=
  Nat.ofDigitChars 10 (numeral.whole ++ numeral.fraction) 0

def scale (numeral : Numeral) : Nat := Nat.pow 10 numeral.fraction.length

theorem scale_pos (numeral : Numeral) : 0 < numeral.scale := Nat.pow_pos (by decide)

example : (atFront "1.50;".toList).digitsValue = 150 ∧ (atFront "1.50;".toList).scale = 100 := by
  decide

end Numeral

end Lexis
