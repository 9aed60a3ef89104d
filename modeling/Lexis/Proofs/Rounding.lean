import Lexis.Number.Binary64
import Mathlib.Algebra.Order.Field.Power
import Mathlib.Data.Rat.Cast.Order
import Mathlib.Tactic.Linarith
import Mathlib.Tactic.Ring

/-!
# Correct rounding

The magnitudes of the finite doubles stand in a row, and midway between each and the next one lies a
midpoint. A number between two midpoints is nearer to the magnitude between them than to any other;
a midpoint goes to the even one of its two neighbours. These numbers make up the cell of the
magnitude. That a double is the nearest one, that it overflows and that it vanishes are all read off
the cell.
-/

namespace Lexis.Binary64

/-! ## Magnitudes in a row -/

theorem fractionSize_eq : fractionSize = 2 ^ 52 := by decide

theorem even_fractionSize : Even fractionSize := by decide

/-- Within one exponent magnitudes are evenly spaced, up to the first of the next exponent. -/
theorem steps_grid {shift significand : Nat} (low : shift = 0 ∨ fractionSize ≤ significand)
    (high : significand ≤ 2 * fractionSize) :
    steps (shift * fractionSize + significand) = significand * 2 ^ shift := by
  rcases Nat.lt_or_ge significand fractionSize with hsmall | hlarge
  · obtain rfl : shift = 0 := by omega
    rw [Nat.zero_mul, Nat.zero_add, steps_of_lt hsmall, Nat.pow_zero, Nat.mul_one]
  rcases Nat.lt_or_eq_of_le high with hbelow | rfl
  · rw [steps_normal hlarge hbelow, Nat.shiftLeft_eq]
  · have hnext : shift * fractionSize + 2 * fractionSize =
        (shift + 1) * fractionSize + fractionSize := by
      rw [Nat.succ_mul shift, Nat.two_mul, Nat.add_assoc]
    rw [hnext, steps_normal Nat.le.refl (by decide), Nat.shiftLeft_eq, Nat.pow_succ']
    exact (Nat.mul_left_comm ..).trans (Nat.mul_assoc ..).symm

theorem exists_grid (magnitude : Nat) : ∃ shift significand,
    magnitude = shift * fractionSize + significand ∧
      (shift = 0 ∨ fractionSize ≤ significand) ∧ significand < 2 * fractionSize := by
  have hrest : magnitude % fractionSize < fractionSize := Nat.mod_lt _ (by decide)
  have hsum : fractionSize * (magnitude / fractionSize) + magnitude % fractionSize = magnitude :=
    Nat.div_add_mod ..
  rcases Nat.eq_zero_or_pos (magnitude / fractionSize) with hzero | hpos
  · rw [hzero] at hsum
    exact ⟨0, magnitude % fractionSize, by omega, .inl rfl, by omega⟩
  · obtain ⟨shift, hshift⟩ := Nat.exists_eq_add_of_lt hpos
    rw [Nat.zero_add] at hshift
    rw [hshift, Nat.mul_succ, Nat.mul_comm] at hsum
    exact ⟨shift, fractionSize + magnitude % fractionSize, by omega, .inr (by omega), by omega⟩

theorem steps_lt_succ (magnitude : Nat) : steps magnitude < steps (magnitude + 1) := by
  obtain ⟨shift, significand, rfl, low, high⟩ := exists_grid magnitude
  have hnext : shift = 0 ∨ fractionSize ≤ significand + 1 := by omega
  rw [steps_grid low high.le, Nat.add_assoc, steps_grid hnext high]
  exact Nat.mul_lt_mul_of_pos_right (Nat.lt_succ_self _) (Nat.two_pow_pos _)

theorem steps_strictMono : StrictMono steps := strictMono_nat_of_lt_succ steps_lt_succ

theorem steps_le {a b : Nat} (h : a ≤ b) : (steps a : ℚ) ≤ steps b :=
  Nat.cast_le.mpr (steps_strictMono.monotone h)

theorem steps_lt {a b : Nat} (h : a < b) : (steps a : ℚ) < steps b :=
  Nat.cast_lt.mpr (steps_strictMono h)

theorem steps_injective {a b : Nat} (h : (steps a : ℚ) = steps b) : a = b :=
  steps_strictMono.injective (Nat.cast_injective h)

/-- Midway between a magnitude and the next one, in steps. -/
def midpoint (magnitude : Nat) : ℚ := (steps magnitude + steps (magnitude + 1)) / 2

theorem two_mul_midpoint (magnitude : Nat) :
    2 * midpoint magnitude = steps magnitude + steps (magnitude + 1) :=
  mul_div_cancel₀ _ two_ne_zero

theorem steps_lt_midpoint (magnitude : Nat) : steps magnitude < midpoint magnitude := by
  have hnext := steps_lt (Nat.lt_add_one magnitude)
  have hmid := two_mul_midpoint magnitude
  linarith

theorem midpoint_lt_steps (magnitude : Nat) : midpoint magnitude < steps (magnitude + 1) := by
  have hnext := steps_lt (Nat.lt_add_one magnitude)
  have hmid := two_mul_midpoint magnitude
  linarith

theorem midpoint_strictMono : StrictMono midpoint :=
  strictMono_nat_of_lt_succ fun magnitude =>
    (midpoint_lt_steps magnitude).trans (steps_lt_midpoint (magnitude + 1))

/-! ## Cells -/

theorem upper_nearer_iff {low high number : ℚ} (h : low < high) :
    |number - high| ≤ |number - low| ↔ low + high ≤ 2 * number := by
  rw [← sq_le_sq]
  constructor <;> intro hle <;> nlinarith

theorem lower_nearer_iff {low high number : ℚ} (h : low < high) :
    |number - low| ≤ |number - high| ↔ 2 * number ≤ low + high := by
  rw [← sq_le_sq]
  constructor <;> intro hle <;> nlinarith

/-- A number of steps rounds to the magnitude. -/
structure InCell (number : ℚ) (magnitude : Nat) : Prop where
  above : ∀ before, magnitude = before + 1 → midpoint before ≤ number
  below : number ≤ midpoint magnitude
  even : ∀ other, number = midpoint other → Even magnitude

namespace InCell

variable {number : ℚ} {magnitude other : Nat}

theorem midpoint_le_of_lt (cell : InCell number magnitude) (h : other < magnitude) :
    midpoint other ≤ number := by
  obtain ⟨before, rfl⟩ := Nat.exists_eq_succ_of_ne_zero (Nat.ne_zero_of_lt h)
  exact (midpoint_strictMono.monotone (Nat.lt_succ_iff.mp h)).trans (cell.above before rfl)

theorem le_midpoint_of_le (cell : InCell number magnitude) (h : magnitude ≤ other) :
    number ≤ midpoint other :=
  cell.below.trans (midpoint_strictMono.monotone h)

theorem eq_or_eq_of_midpoint (cell : InCell (midpoint other) magnitude) :
    magnitude = other ∨ magnitude = other + 1 := by
  have hbelow : other ≤ magnitude := midpoint_strictMono.le_iff_le.mp cell.below
  rcases Nat.lt_or_eq_of_le hbelow with hlt | heq
  · obtain ⟨before, rfl⟩ := Nat.exists_eq_succ_of_ne_zero (Nat.ne_zero_of_lt hlt)
    have habove : before ≤ other := midpoint_strictMono.le_iff_le.mp (cell.above before rfl)
    exact .inr (by omega)
  · exact .inl heq.symm

theorem lt_iff_of_odd (cell : InCell number magnitude) (odd : ¬ Even other) :
    other < magnitude ↔ midpoint other ≤ number := by
  refine ⟨cell.midpoint_le_of_lt, fun hle => ?_⟩
  rcases hle.lt_or_eq with hlt | rfl
  · by_contra hnot
    exact absurd (cell.le_midpoint_of_le (Nat.le_of_not_lt hnot)) (not_le.mpr hlt)
  · rcases cell.eq_or_eq_of_midpoint with rfl | rfl
    · exact absurd (cell.even _ rfl) odd
    · exact Nat.lt_succ_self _

theorem le_iff_of_even (cell : InCell number magnitude) (even : Even other) :
    magnitude ≤ other ↔ number ≤ midpoint other := by
  refine ⟨cell.le_midpoint_of_le, fun hle => ?_⟩
  rcases hle.lt_or_eq with hlt | rfl
  · by_contra hnot
    exact absurd (cell.midpoint_le_of_lt (Nat.lt_of_not_le hnot)) (not_le.mpr hlt)
  · rcases cell.eq_or_eq_of_midpoint with rfl | rfl
    · exact Nat.le.refl
    · exact absurd (cell.even _ rfl) (Nat.even_add_one.not.mpr (not_not.mpr even))

/-- The middle between the magnitude and a lesser one is reached, and only at the midpoint before
the magnitude is it met. -/
theorem of_lt (cell : InCell number magnitude) (h : other < magnitude) :
    steps other + steps magnitude ≤ 2 * number ∧
      (2 * number ≤ steps other + steps magnitude →
        magnitude = other + 1 ∧ number = midpoint other) := by
  obtain ⟨before, rfl⟩ := Nat.exists_eq_succ_of_ne_zero (Nat.ne_zero_of_lt h)
  have habove := cell.above before rfl
  have hmid := two_mul_midpoint before
  have hother := steps_le (Nat.lt_succ_iff.mp h)
  refine ⟨by linarith, fun hle => ?_⟩
  obtain rfl : other = before := steps_injective (by linarith)
  exact ⟨rfl, by linarith⟩

theorem of_gt (cell : InCell number magnitude) (h : magnitude < other) :
    2 * number ≤ steps magnitude + steps other ∧
      (steps magnitude + steps other ≤ 2 * number →
        other = magnitude + 1 ∧ number = midpoint magnitude) := by
  have hbelow := cell.below
  have hmid := two_mul_midpoint magnitude
  have hother := steps_le (Nat.succ_le_of_lt h)
  refine ⟨by linarith, fun hle => ?_⟩
  obtain rfl : other = magnitude + 1 := steps_injective (by linarith)
  exact ⟨rfl, by linarith⟩

theorem distance_le (cell : InCell number magnitude) (other : Nat) :
    |number - steps magnitude| ≤ |number - steps other| := by
  rcases Nat.lt_trichotomy other magnitude with hlt | rfl | hgt
  · exact (upper_nearer_iff (steps_lt hlt)).mpr (cell.of_lt hlt).1
  · exact le_rfl
  · exact (lower_nearer_iff (steps_lt hgt)).mpr (cell.of_gt hgt).1

/-- A magnitude as near as that of the cell is its neighbour beyond a midpoint, and odd. -/
theorem even_of_tie (cell : InCell number magnitude) (ne : other ≠ magnitude)
    (tie : |number - steps other| ≤ |number - steps magnitude|) :
    Even magnitude ∧ ¬ Even other := by
  rcases Nat.lt_or_gt_of_ne ne with hlt | hgt
  · obtain ⟨rfl, hmid⟩ := (cell.of_lt hlt).2 ((lower_nearer_iff (steps_lt hlt)).mp tie)
    have heven := cell.even other hmid
    exact ⟨heven, Nat.even_add_one.mp heven⟩
  · obtain ⟨rfl, hmid⟩ := (cell.of_gt hgt).2 ((upper_nearer_iff (steps_lt hgt)).mp tie)
    have heven := cell.even magnitude hmid
    exact ⟨heven, Nat.even_add_one.not.mpr (not_not.mpr heven)⟩

end InCell

/-! ## The cell that rounding finds -/

theorem inCell_of_lt {number : ℚ} {magnitude : Nat}
    (above : ∀ before, magnitude = before + 1 → midpoint before < number)
    (below : number < midpoint magnitude) : InCell number magnitude where
  above before h := (above before h).le
  below := below.le
  even other h := by
    subst h
    have hlt : other < magnitude := midpoint_strictMono.lt_iff_lt.mp below
    obtain ⟨before, rfl⟩ := Nat.exists_eq_succ_of_ne_zero (Nat.ne_zero_of_lt hlt)
    have hgt : before < other := midpoint_strictMono.lt_iff_lt.mp (above before rfl)
    omega

theorem inCell_midpoint {magnitude before : Nat} (even : Even magnitude)
    (next : magnitude = before ∨ magnitude = before + 1) :
    InCell (midpoint before) magnitude where
  above other h := midpoint_strictMono.monotone (by omega)
  below := midpoint_strictMono.monotone (by omega)
  even _ _ := even

theorem roundDiv_cases (numerator denominator : Nat) :
    (2 * numerator < (2 * (numerator / denominator) + 1) * denominator ∧
        roundDiv numerator denominator = numerator / denominator) ∨
      ((2 * (numerator / denominator) + 1) * denominator < 2 * numerator ∧
        roundDiv numerator denominator = numerator / denominator + 1) ∨
      (2 * numerator = (2 * (numerator / denominator) + 1) * denominator ∧
        roundDiv numerator denominator =
          numerator / denominator + numerator / denominator % 2) := by
  have hdiv := Nat.div_add_mod numerator denominator
  have hmid : (2 * (numerator / denominator) + 1) * denominator =
      2 * (denominator * (numerator / denominator)) + denominator := by
    rw [Nat.succ_mul, Nat.mul_assoc, Nat.mul_comm (numerator / denominator)]
  unfold roundDiv
  dsimp only
  split
  · exact .inl ⟨by omega, rfl⟩
  · split
    · exact .inr (.inl ⟨by omega, rfl⟩)
    · exact .inr (.inr ⟨by omega, rfl⟩)

/-- The shift leaves a quotient of at most 53 bits, and of 53 bits if it shifts at all. -/
theorem quotient_bounds (numerator denominator : Nat) :
    let shift := Nat.log2 (numerator / denominator) - 52
    (shift = 0 ∨ fractionSize ≤ numerator / (denominator * 2 ^ shift)) ∧
      numerator / (denominator * 2 ^ shift) < 2 * fractionSize := by
  intro shift
  rw [← Nat.div_div_eq_div_mul]
  constructor
  · rcases Nat.eq_zero_or_pos shift with hzero | hpos
    · exact .inl hzero
    · have hlog : Nat.log2 (numerator / denominator) = 52 + shift := by omega
      have hne : numerator / denominator ≠ 0 := by
        intro hzero
        rw [hzero] at hlog
        exact absurd hlog (by rw [Nat.log2_zero]; omega)
      have hself := Nat.log2_self_le hne
      rw [hlog, Nat.pow_add, ← fractionSize_eq] at hself
      exact .inr ((Nat.le_div_iff_mul_le (Nat.two_pow_pos shift)).mpr hself)
  · have htop : Nat.log2 (numerator / denominator) + 1 ≤ 53 + shift := by omega
    have hself : numerator / denominator < 2 ^ (53 + shift) :=
      Nat.lt_of_lt_of_le Nat.lt_log2_self (Nat.pow_le_pow_right (by decide) htop)
    have hsize : 2 * fractionSize = 2 ^ 53 := by decide
    rw [Nat.pow_add, ← hsize] at hself
    exact (Nat.div_lt_iff_lt_mul (Nat.two_pow_pos shift)).mpr hself

theorem steps_grid_half {shift quotient : Nat} (low : shift = 0 ∨ fractionSize ≤ quotient)
    (high : quotient ≤ 2 * fractionSize) :
    (steps (shift * fractionSize + quotient) : ℚ) = (2 * quotient : Nat) * 2 ^ shift / 2 := by
  rw [steps_grid low high]
  push_cast
  ring

theorem midpoint_grid {shift quotient : Nat} (low : shift = 0 ∨ fractionSize ≤ quotient)
    (high : quotient < 2 * fractionSize) :
    midpoint (shift * fractionSize + quotient) = (2 * quotient + 1 : Nat) * 2 ^ shift / 2 := by
  have hnext : shift = 0 ∨ fractionSize ≤ quotient + 1 := by omega
  rw [midpoint, Nat.add_assoc, steps_grid_half low high.le, steps_grid_half hnext high]
  push_cast
  ring

section

variable {numerator denominator : Nat} (pos : 0 < denominator) (half shift : Nat)
include pos

theorem div_lt_half_iff : (numerator / denominator : ℚ) < half * 2 ^ shift / 2 ↔
    2 * numerator < half * (denominator * 2 ^ shift) := by
  have hpos : (0 : ℚ) < denominator := Nat.cast_pos.mpr pos
  rw [div_lt_div_iff₀ hpos two_pos, ← Nat.cast_lt (α := ℚ)]
  push_cast
  constructor <;> intro hlt <;> linarith

theorem half_lt_div_iff : half * 2 ^ shift / 2 < (numerator / denominator : ℚ) ↔
    half * (denominator * 2 ^ shift) < 2 * numerator := by
  have hpos : (0 : ℚ) < denominator := Nat.cast_pos.mpr pos
  rw [div_lt_div_iff₀ two_pos hpos, ← Nat.cast_lt (α := ℚ)]
  push_cast
  constructor <;> intro hlt <;> linarith

end

/-- The magnitude that `nearest` finds, infinite or beyond as it may be, has the fraction in its
cell. -/
theorem inCell_roundDiv (numerator : Nat) {denominator : Nat} (pos : 0 < denominator) :
    InCell (numerator / denominator) ((Nat.log2 (numerator / denominator) - 52) * fractionSize +
      roundDiv numerator (denominator <<< (Nat.log2 (numerator / denominator) - 52))) := by
  obtain ⟨low, high⟩ := quotient_bounds numerator denominator
  generalize Nat.log2 (numerator / denominator) - 52 = shift at low high ⊢
  rw [Nat.shiftLeft_eq]
  have hcases := roundDiv_cases numerator (denominator * 2 ^ shift)
  have hfloor := Nat.div_mul_le_self numerator (denominator * 2 ^ shift)
  have hceil : numerator < _ := Nat.lt_div_mul_add (Nat.mul_pos pos (Nat.two_pow_pos shift))
  generalize numerator / (denominator * 2 ^ shift) = quotient at low high hcases hfloor hceil
  have hnext : shift = 0 ∨ fractionSize ≤ quotient + 1 := by omega
  have hmid := midpoint_grid low high
  have hlow : (steps (shift * fractionSize + quotient) : ℚ) ≤ numerator / denominator := by
    rw [steps_grid_half low high.le, ← not_lt, div_lt_half_iff pos]
    linarith
  have hhigh : (numerator / denominator : ℚ) < steps (shift * fractionSize + (quotient + 1)) := by
    rw [steps_grid_half hnext high, div_lt_half_iff pos]
    linarith
  rcases hcases with ⟨hlt, hround⟩ | ⟨hlt, hround⟩ | ⟨heq, hround⟩
  · rw [hround]
    refine inCell_of_lt (fun before hbefore => ?_) ?_
    · rw [hbefore] at hlow
      exact (midpoint_lt_steps before).trans_le hlow
    · rw [hmid]
      exact (div_lt_half_iff pos _ _).mpr hlt
  · rw [hround]
    refine inCell_of_lt (fun before hbefore => ?_) (hhigh.trans (steps_lt_midpoint _))
    obtain rfl : shift * fractionSize + quotient = before := by omega
    rw [hmid]
    exact (half_lt_div_iff pos _ _).mpr hlt
  · have hnumber : (numerator / denominator : ℚ) = midpoint (shift * fractionSize + quotient) := by
      rw [hmid]
      refine le_antisymm ?_ ?_
      · rw [← not_lt, half_lt_div_iff pos]
        exact heq.le.not_gt
      · rw [← not_lt, div_lt_half_iff pos]
        exact heq.ge.not_gt
    have hquotient : Even (quotient + quotient % 2) := by
      rw [Nat.even_iff]
      omega
    rw [hround, hnumber]
    exact inCell_midpoint ((even_fractionSize.mul_left shift).add hquotient) (by omega)

/-! ## Doubles as numbers -/

/-- Fraction bits, and in front of them the bit that all exponents but the smallest imply. -/
def significand (x : Binary64) : Nat :=
  (if x.magnitude / fractionSize = 0 then 0 else fractionSize) + x.magnitude % fractionSize

def exponent (x : Binary64) : ℤ := (max (x.magnitude / fractionSize) 1 : Nat) - 1075

def IsFinite (x : Binary64) : Prop := x.magnitude < infinite

/-- The number that a finite double stands for. -/
def toRat (x : Binary64) : ℚ := (if x.negative then -1 else 1) * (x.significand * 2 ^ x.exponent)

def step : ℚ := 2 ^ (-1074 : ℤ)

theorem step_pos : 0 < step := zpow_pos two_pos _

theorem step_eq : step = (2 ^ 1074)⁻¹ := by
  rw [step, zpow_neg, zpow_ofNat]

theorem two_zpow_shift (shift : Nat) : (2 : ℚ) ^ ((shift : ℤ) + -1074) = 2 ^ shift * step := by
  rw [zpow_add₀ two_ne_zero, zpow_natCast, step]

theorem significand_mul (x : Binary64) :
    x.significand * 2 ^ x.exponent = steps x.magnitude * step := by
  have hexponent : x.exponent = (x.magnitude / fractionSize - 1 : Nat) + (-1074) := by
    unfold exponent
    omega
  rw [hexponent, two_zpow_shift, ← mul_assoc]
  congr 1
  unfold significand steps
  dsimp only
  rcases Nat.eq_zero_or_pos (x.magnitude / fractionSize) with hzero | hpos
  · rw [if_pos hzero, if_pos hzero, hzero, Nat.zero_add, Nat.zero_sub, pow_zero, mul_one]
  · rw [if_neg hpos.ne', if_neg hpos.ne', Nat.shiftLeft_eq, Nat.cast_mul, Nat.cast_pow,
      Nat.cast_ofNat]

theorem toRat_of_not_negative {x : Binary64} (h : x.negative = false) :
    x.toRat = steps x.magnitude * step := by
  rw [toRat, h, significand_mul]
  simp

theorem even_significand_iff (x : Binary64) : Even x.significand ↔ Even x.magnitude := by
  have hsplit := Nat.div_add_mod x.magnitude fractionSize
  have hlead : Even (if x.magnitude / fractionSize = 0 then 0 else fractionSize) := by
    split
    · exact Even.zero
    · exact even_fractionSize
  rw [significand, Nat.even_add, iff_true_left hlead]
  nth_rewrite 2 [← hsplit]
  rw [Nat.even_add, iff_true_left (even_fractionSize.mul_right _)]

theorem eq_of_magnitude_eq {x y : Binary64} (hx : x.negative = false) (hy : y.negative = false)
    (h : x.magnitude = y.magnitude) : x = y := by
  cases x
  cases y
  simp_all

theorem bits_injective {x y : Binary64} (h : x.bits = y.bits) : x = y := by
  obtain ⟨negative, magnitude, hx⟩ := x
  obtain ⟨negative', magnitude', hy⟩ := y
  unfold bits at h
  cases negative <;> cases negative' <;> simp at h hx hy ⊢ <;> omega

theorem toRat_injective {x y : Binary64} (hx : x.negative = false) (hy : y.negative = false)
    (h : x.toRat = y.toRat) : x = y := by
  rw [toRat_of_not_negative hx, toRat_of_not_negative hy] at h
  have hsteps : (steps x.magnitude : ℚ) = steps y.magnitude := mul_right_cancel₀ step_pos.ne' h
  exact eq_of_magnitude_eq hx hy (steps_strictMono.injective (Nat.cast_injective hsteps))

theorem distance_magnitude_le {number : ℚ} (h : 0 ≤ number) (x : Binary64) :
    |number - steps x.magnitude * step| ≤ |number - x.toRat| := by
  have hsize : 0 ≤ steps x.magnitude * step := mul_nonneg (Nat.cast_nonneg _) step_pos.le
  rw [toRat, significand_mul]
  split
  · rw [abs_of_nonneg (by linarith : 0 ≤ number - -1 * (steps x.magnitude * step)), abs_le]
    constructor <;> linarith
  · rw [one_mul]

theorem isInfinite_iff (x : Binary64) : x.isInfinite ↔ x.magnitude = infinite := beq_iff_eq

theorem isFinite_of_ne {x : Binary64} (hnumber : x.isNaN = false)
    (h : x.magnitude ≠ infinite) : x.IsFinite := by
  unfold isNaN at hnumber
  exact Nat.lt_of_le_of_ne (Nat.le_of_not_lt (of_decide_eq_false hnumber)) h

/-! ## Rounding to a double -/

/-- What it is for a double to be the nearest to a number that is not negative. No finite double is
nearer; if another one is as near, the significand is even. From half a unit of the last place above
the largest finite double on, it is infinite. -/
structure RoundsTo (number : ℚ) (x : Binary64) : Prop where
  not_negative : x.negative = false
  not_nan : x.isNaN = false
  infinite_iff : x.isInfinite ↔ 2 ^ 1024 - 2 ^ 970 ≤ number
  nearest : x.IsFinite → ∀ y : Binary64, y.IsFinite → |number - x.toRat| ≤ |number - y.toRat|
  even : x.IsFinite → ∀ y : Binary64, y.IsFinite → y.toRat ≠ x.toRat →
    |number - y.toRat| = |number - x.toRat| → Even x.significand

theorem shiftLeft_div (numerator denominator places : Nat) :
    ((numerator <<< places : Nat) : ℚ) / denominator =
      numerator / denominator / (2 ^ places)⁻¹ := by
  rw [Nat.shiftLeft_eq, div_inv_eq_mul]
  push_cast
  exact mul_div_right_comm ..

/-- The magnitude in whose cell a fraction lies, before it is cut off at the infinite one. -/
theorem exists_inCell (numerator : Nat) {denominator : Nat} (pos : 0 < denominator) :
    ∃ magnitude, InCell (numerator / denominator / step) magnitude ∧
      (ofRatio numerator denominator).magnitude = min magnitude infinite := by
  have hcell := inCell_roundDiv (numerator <<< 1074) pos
  rw [shiftLeft_div, ← step_eq] at hcell
  exact ⟨_, hcell, rfl⟩

theorem midpoint_largest : midpoint (infinite - 1) * step = 2 ^ 1024 - 2 ^ 970 := by
  have hgrid : infinite - 1 = 2045 * fractionSize + (2 * fractionSize - 1) := by decide
  have hmid : midpoint (2045 * fractionSize + (2 * fractionSize - 1)) = _ :=
    midpoint_grid (.inr (by decide)) (by decide)
  have hodd : ((2 * (2 * fractionSize - 1) + 1 : Nat) : ℚ) = 2 ^ 54 - 1 := by
    norm_num [fractionSize]
  have hexponent : (2045 : ℤ) + -1074 = 971 := by decide
  have hstep : (2 : ℚ) ^ 2045 * step = 2 ^ 970 * 2 := by
    rw [← two_zpow_shift, Nat.cast_ofNat, hexponent, zpow_ofNat, ← pow_succ]
  have htop : (2 : ℚ) ^ 1024 = 2 ^ 970 * 2 ^ 54 := by
    rw [← pow_add]
  rw [hgrid, hmid, hodd, htop, div_mul_eq_mul_div, mul_assoc, hstep]
  generalize (2 : ℚ) ^ 970 = unit
  ring

theorem midpoint_zero : midpoint 0 * step = 2 ^ (-1075 : ℤ) := by
  have hzero : steps 0 = 0 := by decide
  have hone : steps 1 = 1 := by decide
  have hexponent : (-1075 : ℤ) = -1074 + -1 := by decide
  rw [midpoint, Nat.zero_add, hzero, hone, hexponent, zpow_add₀ two_ne_zero, ← step, zpow_neg_one,
    Nat.cast_zero, Nat.cast_one, zero_add, one_div, mul_comm]

section

variable {number : ℚ} {magnitude : Nat} (cell : InCell (number / step) magnitude)
include cell

theorem InCell.infinite_le_iff : infinite ≤ magnitude ↔ 2 ^ 1024 - 2 ^ 970 ≤ number := by
  have hodd : ¬ Even (infinite - 1) := by decide
  rw [← midpoint_largest, ← le_div_iff₀ step_pos]
  exact cell.lt_iff_of_odd hodd

theorem InCell.eq_zero_iff : magnitude = 0 ↔ number ≤ 2 ^ (-1075 : ℤ) := by
  rw [← midpoint_zero, ← div_le_iff₀ step_pos, ← Nat.le_zero]
  exact cell.le_iff_of_even Even.zero

end

theorem distance_steps (number : ℚ) (magnitude : Nat) :
    |number - steps magnitude * step| = |number / step - steps magnitude| * step := by
  have hscaled : number - steps magnitude * step = (number / step - steps magnitude) * step := by
    rw [sub_mul, div_mul_cancel₀ _ step_pos.ne']
  rw [hscaled, abs_mul, abs_of_pos step_pos]

theorem eq_zero_of_tie {number size : ℚ} (ne : size ≠ 0)
    (tie : |number - -1 * size| = |number - size|) : number = 0 := by
  have hsquares := (sq_eq_sq_iff_abs_eq_abs ..).mpr tie
  have hproduct : number * size = 0 := by linarith
  exact (mul_eq_zero.mp hproduct).resolve_right ne

section

variable {number : ℚ} {magnitude : Nat} {x : Binary64} (nonneg : 0 ≤ number)
  (cell : InCell (number / step) magnitude) (hsign : x.negative = false)
  (hmagnitude : x.magnitude = min magnitude infinite)
include nonneg cell hsign hmagnitude

/-- A double whose magnitude is that of the cell, cut off at the infinite one, is the nearest. -/
theorem roundsTo_of_inCell : RoundsTo number x := by
  have hvalue := toRat_of_not_negative hsign
  have hfinite : x.IsFinite → x.magnitude = magnitude := by
    unfold IsFinite
    omega
  refine ⟨hsign, ?_, ?_, ?_, ?_⟩
  · simp [isNaN, hmagnitude]
  · rw [← cell.infinite_le_iff, isInfinite_iff]
    omega
  · intro hx y _
    refine le_trans ?_ (distance_magnitude_le nonneg y)
    rw [hvalue, hfinite hx, distance_steps, distance_steps]
    exact mul_le_mul_of_nonneg_right (cell.distance_le _) step_pos.le
  · intro hx y _ hne htie
    rw [even_significand_iff, hfinite hx]
    rw [hvalue, hfinite hx] at hne htie
    by_cases hsame : y.magnitude = magnitude
    · rw [toRat, significand_mul, hsame] at hne htie
      split at htie
      · next hnegative =>
        have hsize : steps magnitude * step ≠ 0 := by
          intro hzero
          rw [hzero, mul_zero] at hne
          exact hne rfl
        have hzero := eq_zero_of_tie hsize htie
        rw [cell.eq_zero_iff.mpr (hzero.le.trans (zpow_pos two_pos _).le)]
        exact Even.zero
      · next hpositive =>
        rw [if_neg hpositive, one_mul] at hne
        exact absurd rfl hne
    · have hnear := (distance_magnitude_le nonneg y).trans htie.le
      rw [distance_steps, distance_steps] at hnear
      exact (cell.even_of_tie hsame (le_of_mul_le_mul_right hnear step_pos)).1

theorem eq_of_roundsTo {y : Binary64} (rounds : RoundsTo number y) : y = x := by
  have hx := roundsTo_of_inCell nonneg cell hsign hmagnitude
  have hinfinite : y.magnitude = infinite ↔ x.magnitude = infinite := by
    rw [← isInfinite_iff, ← isInfinite_iff, rounds.infinite_iff, hx.infinite_iff]
  by_cases htop : y.magnitude = infinite
  · exact eq_of_magnitude_eq rounds.not_negative hsign (htop.trans (hinfinite.mp htop).symm)
  · have hyfinite := isFinite_of_ne rounds.not_nan htop
    have hxfinite := isFinite_of_ne hx.not_nan (hinfinite.not.mp htop)
    by_contra hne
    -- Two doubles that are both the nearest tie, and neighbours are not both even.
    have hvalues : x.toRat ≠ y.toRat := fun hsame =>
      hne (toRat_injective hsign rounds.not_negative hsame).symm
    have htie : |number - x.toRat| = |number - y.toRat| :=
      le_antisymm (hx.nearest hxfinite y hyfinite) (rounds.nearest hyfinite x hxfinite)
    have heven := rounds.even hyfinite x hxfinite hvalues htie
    rw [even_significand_iff] at heven
    have hwhole : x.magnitude = magnitude := by
      unfold IsFinite at hxfinite
      omega
    have hother : y.magnitude ≠ magnitude := fun hsame =>
      hne (eq_of_magnitude_eq rounds.not_negative hsign (hsame.trans hwhole.symm))
    rw [toRat_of_not_negative hsign, toRat_of_not_negative rounds.not_negative, hwhole,
      distance_steps, distance_steps] at htie
    have hnear := le_of_mul_le_mul_right htie.ge step_pos
    exact (cell.even_of_tie hother hnear).2 heven

end

theorem roundsTo_iff (numerator : Nat) {denominator : Nat} (pos : 0 < denominator) (y : Binary64) :
    RoundsTo (numerator / denominator) y ↔ y = ofRatio numerator denominator := by
  have hnonneg : (0 : ℚ) ≤ numerator / denominator :=
    div_nonneg (Nat.cast_nonneg _) (Nat.cast_nonneg _)
  obtain ⟨magnitude, hcell, hmagnitude⟩ := exists_inCell numerator pos
  constructor
  · exact eq_of_roundsTo hnonneg hcell rfl hmagnitude
  · rintro rfl
    exact roundsTo_of_inCell hnonneg hcell rfl hmagnitude

theorem ofRatio_magnitude_eq_zero_iff (numerator : Nat) {denominator : Nat}
    (pos : 0 < denominator) :
    (ofRatio numerator denominator).magnitude = 0 ↔
      (numerator / denominator : ℚ) ≤ 2 ^ (-1075 : ℤ) := by
  obtain ⟨magnitude, hcell, hmagnitude⟩ := exists_inCell numerator pos
  have hpos : 0 < infinite := by decide
  rw [← hcell.eq_zero_iff, hmagnitude]
  omega

end Lexis.Binary64
