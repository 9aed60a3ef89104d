/-!
# Double precision numbers

A double is a sign and a magnitude of 63 bits. Magnitudes below the infinite one stand, in their
order, for the multiples of the smallest positive double that `steps` counts. That double is one
divided by two 1074 times.
-/

namespace Lexis

namespace Binary64

def signBit : Nat := 0x8000000000000000

/-- How many magnitudes share an exponent. -/
def fractionSize : Nat := 0x10000000000000

/-- Exponent bits all set, fraction bits all clear. -/
def infinite : Nat := 0x7FF0000000000000

end Binary64

structure Binary64 where
  negative : Bool
  magnitude : Nat
  magnitude_lt : magnitude < Binary64.signBit
  deriving Repr, DecidableEq

namespace Binary64

def ofBits (bits : Nat) : Binary64 where
  negative := bits.testBit 63
  magnitude := bits % signBit
  magnitude_lt := Nat.mod_lt _ (by decide)

def bits (x : Binary64) : Nat := (if x.negative then signBit else 0) + x.magnitude

def isNaN (x : Binary64) : Bool := infinite < x.magnitude

def isInfinite (x : Binary64) : Bool := x.magnitude == infinite

/-- Numeric equality: a NaN equals nothing, and the two zeros are equal. -/
def equals (x y : Binary64) : Bool :=
  !x.isNaN && x.magnitude == y.magnitude && (x.negative == y.negative || x.magnitude == 0)

/-- The value of a magnitude in steps. The exponents 0 and 1 have steps of the same size; each
further exponent doubles it. -/
def steps (magnitude : Nat) : Nat :=
  let exponent := magnitude / fractionSize
  let fraction := magnitude % fractionSize
  if exponent = 0 then fraction else (fractionSize + fraction) <<< (exponent - 1)

theorem steps_of_lt {magnitude : Nat} (h : magnitude < fractionSize) :
    steps magnitude = magnitude := by
  have exponent : magnitude / fractionSize = 0 := Nat.div_eq_of_lt h
  have fraction : magnitude % fractionSize = magnitude := Nat.mod_eq_of_lt h
  simp only [steps, exponent, fraction, if_true]

/-- A significand of 53 bits that is doubled `shift` times has its exponent and its fraction side
by side in `shift * fractionSize + significand`. -/
theorem steps_normal {shift significand : Nat} (low : fractionSize ≤ significand)
    (high : significand < 2 * fractionSize) :
    steps (shift * fractionSize + significand) = significand <<< shift := by
  obtain ⟨fraction, rfl⟩ := Nat.exists_eq_add_of_le low
  have small : fraction < fractionSize := by omega
  have sum : shift * fractionSize + (fractionSize + fraction) =
      fraction + fractionSize * (shift + 1) := by
    rw [Nat.mul_add, Nat.mul_comm]
    omega
  have exponent : (shift * fractionSize + (fractionSize + fraction)) / fractionSize =
      shift + 1 := by
    rw [sum, Nat.add_mul_div_left _ _ (by decide), Nat.div_eq_of_lt small, Nat.zero_add]
  have rest : (shift * fractionSize + (fractionSize + fraction)) % fractionSize = fraction := by
    rw [sum, Nat.add_mul_mod_self_left, Nat.mod_eq_of_lt small]
  simp only [steps, exponent, rest]
  rw [if_neg (by omega), Nat.add_sub_cancel]

/-- Rounds `numerator / denominator` to a whole number, a half to the even neighbour. -/
def roundDiv (numerator denominator : Nat) : Nat :=
  let quotient := numerator / denominator
  let rest := numerator % denominator
  if 2 * rest < denominator then quotient
  else if denominator < 2 * rest then quotient + 1
  else quotient + quotient % 2

/-- The magnitude next to `numerator / denominator`; of two equally near, the even one. What lies
half a step or more above the largest finite double is infinite. -/
def nearest (numerator denominator : Nat) : Nat :=
  let scaled := numerator <<< 1074
  let shift := Nat.log2 (scaled / denominator) - 52
  min (shift * fractionSize + roundDiv scaled (denominator <<< shift)) infinite

theorem nearest_le_infinite (numerator denominator : Nat) :
    nearest numerator denominator ≤ infinite := Nat.min_le_right _ _

def ofRatio (numerator denominator : Nat) : Binary64 where
  negative := false
  magnitude := nearest numerator denominator
  magnitude_lt := Nat.lt_of_le_of_lt (nearest_le_infinite _ _) (by decide)

example : (ofRatio 1 1).bits = 0x3FF0000000000000 := by decide +kernel
example : (ofRatio 1 10).bits = 0x3FB999999999999A := by decide +kernel

end Binary64

end Lexis
