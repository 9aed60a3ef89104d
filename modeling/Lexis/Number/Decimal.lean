import Lexis.Number.Binary64

/-!
# Shortest decimal text of a double

Every midpoint between two neighbouring doubles is a whole number once it is multiplied by ten 1075
times, so the decimals that read back as a double are found in whole numbers at that scale.
-/

namespace Lexis

/-- The number whose digits are those of `digits`, multiplied by ten `exponent` times and divided by
ten 1075 times. -/
structure Decimal where
  digits : Nat
  exponent : Nat
  deriving Repr, DecidableEq

namespace Decimal

def places : Nat := 1075

def scaled (d : Decimal) : Nat := d.digits * Nat.pow 10 d.exponent

/-- Positional notation: no exponent, no point in a whole number, a zero before a leading point. -/
def text (d : Decimal) : List Char :=
  let ds := Nat.toDigits 10 d.digits
  if places ≤ d.exponent then ds ++ List.replicate (d.exponent - places) '0'
  else
    let behind := places - d.exponent
    if behind < ds.length then ds.take (ds.length - behind) ++ '.' :: ds.drop (ds.length - behind)
    else '0' :: '.' :: (List.replicate (behind - ds.length) '0' ++ ds)

example : (⟨15, 1074⟩ : Decimal).text = "1.5".toList := by decide
example : (⟨15, 1071⟩ : Decimal).text = "0.0015".toList := by decide
example : (⟨15, 1077⟩ : Decimal).text = "1500".toList := by decide

end Decimal

/-- The numbers that round to one double, multiplied by ten 1075 times. The ends belong to them when
its magnitude is even. -/
structure RoundingInterval where
  low : Nat
  value : Nat
  high : Nat
  closed : Bool
  deriving Repr, DecidableEq

namespace RoundingInterval

def contains (interval : RoundingInterval) (x : Nat) : Bool :=
  if interval.closed then interval.low ≤ x && x ≤ interval.high
  else interval.low < x && x < interval.high

def ofMagnitude (magnitude : Nat) : RoundingInterval where
  low := (Binary64.steps (magnitude - 1) + Binary64.steps magnitude) * Nat.pow 5 1075
  value := 2 * Binary64.steps magnitude * Nat.pow 5 1075
  high := (Binary64.steps magnitude + Binary64.steps (magnitude + 1)) * Nat.pow 5 1075
  closed := magnitude % 2 == 0

/-- The multiple of a power of ten in the interval that is next to its value; of two equally near,
the upper. Only the two neighbours of the value have to be tried. -/
def onGrid? (interval : RoundingInterval) (exponent : Nat) : Option Nat :=
  let grid := Nat.pow 10 exponent
  let below := interval.value / grid
  let above := below + 1
  match interval.contains (below * grid), interval.contains (above * grid) with
  | true, true => if 2 * (interval.value % grid) < grid then some below else some above
  | true, false => some below
  | false, true => some above
  | false, false => none

/-- The multiple of a power of ten that lies in the interval, for the highest exponent, from the
given one down, for which there is one. -/
def coarsest (interval : RoundingInterval) : Nat → Decimal
  | 0 => ⟨interval.value, 0⟩
  | exponent + 1 =>
      match interval.onGrid? (exponent + 1) with
      | some digits => ⟨digits, exponent + 1⟩
      | none => interval.coarsest exponent

/-- The decimal with the fewest digits in the interval. The first power of ten that is tried exceeds
`high`: 31 / 100 is more than the decimal logarithm of two. -/
def shortest (interval : RoundingInterval) : Decimal :=
  interval.coarsest ((Nat.log2 interval.high + 1) * 31 / 100 + 1)

end RoundingInterval

namespace Binary64

def shortestDecimal (magnitude : Nat) : Decimal :=
  (RoundingInterval.ofMagnitude magnitude).shortest

def magnitudeText (magnitude : Nat) : List Char :=
  if magnitude = 0 then ['0']
  else if magnitude = infinite then ['i', 'n', 'f']
  else (shortestDecimal magnitude).text

/-- The printed number: a minus sign if it is negative, also before a zero; a NaN has no sign. -/
def display (x : Binary64) : String :=
  if x.isNaN then "NaN"
  else
    let magnitude := magnitudeText x.magnitude
    String.ofList (if x.negative then '-' :: magnitude else magnitude)

example : (ofBits 0x3FB999999999999A).display = "0.1" := by decide +kernel
example : (ofBits 0x8000000000000000).display = "-0" := by decide +kernel

end Binary64

end Lexis
