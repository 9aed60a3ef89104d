import Lexis.Number.Decimal
import Lexis.Proofs.Rounding

/-!
# The decimal with the fewest digits

The decimals that a rounding interval holds are those of the cell of its magnitude. The interval has
no gaps, so the search for the coarsest grid with a point in it can look at the two neighbours of
the value, and whatever lies on no coarser grid has the fewest digits.
-/

namespace Lexis

namespace Binary64

variable {number : ℚ} {magnitude other : Nat}

theorem InCell.magnitude_unique (a : InCell number magnitude) (b : InCell number other) :
    magnitude = other := by
  wlog hle : magnitude ≤ other generalizing magnitude other
  · exact (this b a (Nat.le_of_not_le hle)).symm
  · rcases Nat.lt_or_eq_of_le hle with hlt | heq
    · have hmid : number = midpoint magnitude := le_antisymm a.below (b.midpoint_le_of_lt hlt)
      have heven := a.even magnitude hmid
      exact absurd ((b.le_iff_of_even heven).mpr hmid.le) (Nat.not_le_of_lt hlt)
    · exact heq

theorem InCell.of_between {low high : ℚ} (a : InCell low magnitude) (b : InCell high magnitude)
    (hlow : low ≤ number) (hhigh : number ≤ high) : InCell number magnitude := by
  rcases hlow.eq_or_lt with rfl | hlt
  · exact a
  rcases hhigh.eq_or_lt with rfl | hgt
  · exact b
  · exact inCell_of_lt (fun before h => (a.above before h).trans_lt hlt) (hgt.trans_le b.below)

theorem inCell_iff : InCell number (magnitude + 1) ↔
    midpoint magnitude ≤ number ∧ number ≤ midpoint (magnitude + 1) ∧
      (Even (magnitude + 1) ∨ midpoint magnitude ≠ number ∧ midpoint (magnitude + 1) ≠ number) := by
  constructor
  · intro cell
    refine ⟨cell.above magnitude rfl, cell.below, ?_⟩
    by_cases heven : Even (magnitude + 1)
    · exact .inl heven
    · exact .inr ⟨fun h => heven (cell.even _ h.symm), fun h => heven (cell.even _ h.symm)⟩
  · rintro ⟨habove, hbelow, heven | ⟨hlow, hhigh⟩⟩
    · refine ⟨fun before h => ?_, hbelow, fun _ _ => heven⟩
      rwa [← Nat.succ.inj h]
    · refine inCell_of_lt (fun before h => ?_) (hbelow.lt_of_ne' hhigh)
      rw [← Nat.succ.inj h]
      exact habove.lt_of_ne hlow

theorem inCell_steps (magnitude : Nat) : InCell (steps magnitude) magnitude := by
  refine inCell_of_lt (fun before h => ?_) (steps_lt_midpoint magnitude)
  rw [h]
  exact midpoint_lt_steps before

theorem InCell.pos (cell : InCell number magnitude) (h : 0 < magnitude) : 0 < number := by
  have hzero : (0 : ℚ) ≤ steps 0 := Nat.cast_nonneg _
  exact hzero.trans_lt ((steps_lt_midpoint 0).trans_le (cell.midpoint_le_of_lt h))

theorem ofRatio_magnitude_eq_iff (numerator : Nat) {denominator : Nat} (pos : 0 < denominator)
    (finite : magnitude < infinite) :
    (ofRatio numerator denominator).magnitude = magnitude ↔
      InCell (numerator / denominator / step) magnitude := by
  obtain ⟨found, hfound, hmagnitude⟩ := exists_inCell numerator pos
  rw [hmagnitude]
  constructor
  · intro heq
    obtain rfl : found = magnitude := by omega
    exact hfound
  · intro hcell
    rw [hfound.magnitude_unique hcell]
    omega

section

variable {scale : Nat} (pos : 0 < scale) (magnitude x : Nat)
include pos

theorem midpoint_le_div_iff : midpoint magnitude ≤ x / (2 * scale) ↔
    (steps magnitude + steps (magnitude + 1)) * scale ≤ x := by
  have hpos : (0 : ℚ) < 2 * scale := by positivity
  rw [le_div_iff₀ hpos, ← mul_assoc, mul_comm (midpoint magnitude), two_mul_midpoint]
  norm_cast

theorem div_le_midpoint_iff : x / (2 * scale) ≤ midpoint magnitude ↔
    x ≤ (steps magnitude + steps (magnitude + 1)) * scale := by
  have hpos : (0 : ℚ) < 2 * scale := by positivity
  rw [div_le_iff₀ hpos, ← mul_assoc, mul_comm (midpoint magnitude), two_mul_midpoint]
  norm_cast

theorem midpoint_eq_div_iff : midpoint magnitude = x / (2 * scale) ↔
    (steps magnitude + steps (magnitude + 1)) * scale = x := by
  rw [le_antisymm_iff, midpoint_le_div_iff pos, div_le_midpoint_iff pos, Nat.le_antisymm_iff]

end

end Binary64

/-! ## Rounding intervals -/

namespace RoundingInterval

variable {interval : RoundingInterval}

theorem contains_iff {x : Nat} : interval.contains x ↔
    interval.low ≤ x ∧ x ≤ interval.high ∧
      (interval.closed ∨ interval.low ≠ x ∧ interval.high ≠ x) := by
  unfold contains
  cases interval.closed
  · simp only [Bool.false_eq_true, if_false, Bool.and_eq_true, decide_eq_true_eq, false_or]
    omega
  · simp

theorem contains_of_between {low x high : Nat} (a : interval.contains low)
    (b : interval.contains high) (hlow : low ≤ x) (hhigh : x ≤ high) : interval.contains x := by
  rw [contains_iff] at a b ⊢
  refine ⟨a.1.trans hlow, hhigh.trans b.2.1, ?_⟩
  rcases a.2.2 with hclosed | hopen
  · exact .inl hclosed
  · exact b.2.2.imp_right fun _ => by omega

/-- A point of the grid that is found is in the interval. If none is found, neither neighbour of the
value is. -/
theorem onGrid?_cases (interval : RoundingInterval) (exponent : Nat) :
    (∃ digits, interval.onGrid? exponent = some digits ∧
        interval.contains (digits * 10 ^ exponent)) ∨
      interval.onGrid? exponent = none ∧
        ¬ interval.contains (interval.value / 10 ^ exponent * 10 ^ exponent) ∧
        ¬ interval.contains ((interval.value / 10 ^ exponent + 1) * 10 ^ exponent) := by
  unfold onGrid?
  dsimp only
  split
  · next hbelow habove =>
    split
    · exact .inl ⟨_, rfl, hbelow⟩
    · exact .inl ⟨_, rfl, habove⟩
  · next hbelow _ => exact .inl ⟨_, rfl, hbelow⟩
  · next _ habove => exact .inl ⟨_, rfl, habove⟩
  · next hbelow habove =>
    exact .inr ⟨rfl, Bool.eq_false_iff.mp hbelow, Bool.eq_false_iff.mp habove⟩

theorem not_contains_of_neighbours {exponent : Nat} (hvalue : interval.contains interval.value)
    (hbelow : ¬ interval.contains (interval.value / 10 ^ exponent * 10 ^ exponent))
    (habove : ¬ interval.contains ((interval.value / 10 ^ exponent + 1) * 10 ^ exponent))
    (digits : Nat) : ¬ interval.contains (digits * 10 ^ exponent) := by
  intro hdigits
  rcases Nat.lt_or_ge (interval.value / 10 ^ exponent) digits with hlt | hge
  · have hle : interval.value ≤ (interval.value / 10 ^ exponent + 1) * 10 ^ exponent := by
      rw [Nat.succ_mul]
      exact (Nat.lt_div_mul_add (Nat.pow_pos (by decide))).le
    exact habove (contains_of_between hvalue hdigits hle (Nat.mul_le_mul_right _ hlt))
  · have hle : interval.value / 10 ^ exponent * 10 ^ exponent ≤ interval.value :=
      Nat.div_mul_le_self ..
    exact hbelow (contains_of_between hdigits hvalue (Nat.mul_le_mul_right _ hge) hle)

/-- The decimal is in the interval, and no point of a coarser grid is. -/
structure IsCoarsest (interval : RoundingInterval) (d : Decimal) : Prop where
  contains : interval.contains d.scaled
  coarser : ∀ exponent, d.exponent < exponent → ∀ digits,
    ¬ interval.contains (digits * 10 ^ exponent)

theorem isCoarsest_coarsest {top : Nat} (hvalue : interval.contains interval.value)
    (htop : ∀ exponent, top < exponent → ∀ digits, ¬ interval.contains (digits * 10 ^ exponent)) :
    interval.IsCoarsest (interval.coarsest top) := by
  induction top with
  | zero =>
      refine ⟨?_, htop⟩
      have hscaled : (⟨interval.value, 0⟩ : Decimal).scaled = interval.value := Nat.mul_one _
      rw [coarsest, hscaled]
      exact hvalue
  | succ top ih =>
      rw [coarsest]
      rcases interval.onGrid?_cases (top + 1) with ⟨digits, hsome, hin⟩ | ⟨hnone, hbelow, habove⟩
      · rw [hsome]
        exact ⟨hin, htop⟩
      · rw [hnone]
        refine ih fun exponent hlt => ?_
        rcases Nat.lt_or_eq_of_le (Nat.succ_le_of_lt hlt) with hgt | rfl
        · exact htop exponent hgt
        · exact not_contains_of_neighbours hvalue hbelow habove

theorem two_pow_lt_ten_pow (bits : Nat) : 2 ^ bits < 10 ^ (bits * 31 / 100 + 1) := by
  have hten : 2 ^ 100 ≤ 10 ^ 31 := by norm_num
  have hexponent : 31 * bits < (bits * 31 / 100 + 1) * 100 := by omega
  refine lt_of_pow_lt_pow_left₀ 100 (Nat.zero_le _) ?_
  calc (2 ^ bits) ^ 100 = (2 ^ 100) ^ bits := Nat.pow_right_comm ..
    _ ≤ (10 ^ 31) ^ bits := Nat.pow_le_pow_left hten bits
    _ = 10 ^ (31 * bits) := (Nat.pow_mul ..).symm
    _ < 10 ^ ((bits * 31 / 100 + 1) * 100) := Nat.pow_lt_pow_right (by decide) hexponent
    _ = (10 ^ (bits * 31 / 100 + 1)) ^ 100 := Nat.pow_mul ..

theorem isCoarsest_shortest (hvalue : interval.contains interval.value)
    (hzero : ¬ interval.contains 0) : interval.IsCoarsest interval.shortest := by
  refine isCoarsest_coarsest hvalue fun exponent hlt digits hdigits => ?_
  have hhigh : interval.high < 10 ^ exponent :=
    calc interval.high < 2 ^ (Nat.log2 interval.high + 1) := Nat.lt_log2_self
      _ < _ := two_pow_lt_ten_pow _
      _ ≤ 10 ^ exponent := Nat.pow_le_pow_right (by decide) hlt.le
  rcases Nat.eq_zero_or_pos digits with rfl | hpos
  · rw [Nat.zero_mul] at hdigits
    exact hzero hdigits
  · have hle : 10 ^ exponent ≤ digits * 10 ^ exponent := Nat.le_mul_of_pos_left _ hpos
    exact absurd (hle.trans (contains_iff.mp hdigits).2.1) (Nat.not_le_of_lt hhigh)

/-! ## The interval of a magnitude -/

open Binary64

/-- A number that is scaled down by tens and measured in steps loses only the fives and one two. -/
theorem div_ten_pow_steps (x : ℚ) (n : Nat) {places scale : Nat}
    (hscale : scale = Nat.pow 5 places) (h : places = n + 1) :
    x / 10 ^ places / (2 ^ n)⁻¹ = x / (2 * scale) := by
  have hten : (10 : ℚ) ^ places = 2 * scale * 2 ^ n := by
    have hsplit : (10 : ℚ) = 2 * 5 := by norm_num
    rw [hscale, h, Nat.pow_eq, hsplit, mul_pow, pow_succ (2 : ℚ)]
    push_cast
    ring
  have htwo : (2 : ℚ) ^ n ≠ 0 := pow_ne_zero _ two_ne_zero
  rw [hten, div_inv_eq_mul, div_mul_eq_mul_div, mul_div_mul_right _ _ htwo]

theorem exists_halfStep (magnitude : Nat) : ∃ halfStep : Nat, 0 < halfStep ∧
    (∀ x : ℚ, x / 10 ^ Decimal.places / step = x / (2 * halfStep)) ∧
    (ofMagnitude magnitude).low = (steps (magnitude - 1) + steps magnitude) * halfStep ∧
    (ofMagnitude magnitude).value = 2 * steps magnitude * halfStep ∧
    (ofMagnitude magnitude).high = (steps magnitude + steps (magnitude + 1)) * halfStep := by
  obtain ⟨halfStep, heq, hends⟩ : ∃ halfStep, halfStep = Nat.pow 5 1075 ∧
      (ofMagnitude magnitude).low = (steps (magnitude - 1) + steps magnitude) * halfStep ∧
      (ofMagnitude magnitude).value = 2 * steps magnitude * halfStep ∧
      (ofMagnitude magnitude).high = (steps magnitude + steps (magnitude + 1)) * halfStep :=
    ⟨_, rfl, rfl, rfl, rfl⟩
  have hpos (n : Nat) : 0 < Nat.pow 5 n := Nat.pow_pos (by decide)
  refine ⟨halfStep, Nat.lt_of_lt_of_eq (hpos _) heq.symm, fun x => ?_, hends⟩
  have hscaled := div_ten_pow_steps x 1074 heq rfl
  rw [Decimal.places, step_eq, hscaled]

section

variable {magnitude : Nat} (pos : 0 < magnitude)
include pos

theorem contains_ofMagnitude_iff (x : Nat) :
    (ofMagnitude magnitude).contains x ↔ InCell (x / 10 ^ Decimal.places / step) magnitude := by
  obtain ⟨halfStep, hhalf, hscaled, hlow, -, hhigh⟩ := exists_halfStep magnitude
  have hclosed : (ofMagnitude magnitude).closed ↔ Even magnitude := by
    rw [Nat.even_iff]
    exact beq_iff_eq
  cases magnitude with
  | zero => contradiction
  | succ before =>
      rw [contains_iff, hlow, hhigh, hclosed, hscaled, inCell_iff, midpoint_le_div_iff hhalf,
        div_le_midpoint_iff hhalf, Ne, Ne, Ne, Ne, midpoint_eq_div_iff hhalf,
        midpoint_eq_div_iff hhalf, Nat.add_sub_cancel]

theorem contains_value : (ofMagnitude magnitude).contains (ofMagnitude magnitude).value := by
  obtain ⟨halfStep, hhalf, hscaled, -, hvalue, -⟩ := exists_halfStep magnitude
  have hsteps : ((2 * steps magnitude * halfStep : Nat) : ℚ) / (2 * halfStep) =
      steps magnitude := by
    have hne : (2 * halfStep : ℚ) ≠ 0 := by positivity
    rw [div_eq_iff hne]
    push_cast
    ring
  rw [contains_ofMagnitude_iff pos, hscaled, hvalue, hsteps]
  exact inCell_steps magnitude

theorem not_contains_zero : ¬ (ofMagnitude magnitude).contains 0 := by
  rw [contains_ofMagnitude_iff pos, Nat.cast_zero, zero_div, zero_div]
  exact fun cell => (cell.pos pos).false

theorem isCoarsest_shortestDecimal :
    (ofMagnitude magnitude).IsCoarsest (shortestDecimal magnitude) :=
  isCoarsest_shortest (contains_value pos) (not_contains_zero pos)

end

end RoundingInterval

namespace Binary64

variable {magnitude : Nat} (pos : 0 < magnitude)
include pos

theorem shortestDecimal_digits_pos : 0 < (shortestDecimal magnitude).digits := by
  have hcontains := (RoundingInterval.isCoarsest_shortestDecimal pos).contains
  refine Nat.pos_of_ne_zero fun hzero => RoundingInterval.not_contains_zero pos ?_
  rwa [Decimal.scaled, hzero, Nat.zero_mul] at hcontains

theorem inCell_shortestDecimal :
    InCell ((shortestDecimal magnitude).scaled / 10 ^ Decimal.places / step) magnitude :=
  (RoundingInterval.contains_ofMagnitude_iff pos _).mp
    (RoundingInterval.isCoarsest_shortestDecimal pos).contains

/-- A decimal in the cell is on no coarser grid than the shortest one, unless it is not whole even
when it is scaled. With few digits it is bounded by a power of ten on a grid as coarse. -/
theorem le_ten_pow_of_inCell {digits zeros behind count : Nat} (few : digits < 10 ^ count)
    (cell : InCell ((digits * 10 ^ zeros : Nat) / 10 ^ behind / step) magnitude) :
    digits * 10 ^ zeros * 10 ^ Decimal.places ≤
      10 ^ (count + (shortestDecimal magnitude).exponent) * 10 ^ behind := by
  rw [Nat.mul_assoc, ← Nat.pow_add]
  rcases Nat.lt_or_ge (zeros + Decimal.places) behind with hlt | hge
  · have hdigits : digits ≤ 10 ^ (count + (shortestDecimal magnitude).exponent) :=
      few.le.trans (Nat.pow_le_pow_right (by decide) (Nat.le_add_right ..))
    exact Nat.mul_le_mul hdigits (Nat.pow_le_pow_right (by decide) hlt.le)
  · obtain ⟨grid, hgrid⟩ := Nat.exists_eq_add_of_le hge
    have hscaled : ((digits * 10 ^ zeros : Nat) / 10 ^ behind : ℚ) =
        (digits * 10 ^ grid : Nat) / 10 ^ Decimal.places := by
      rw [div_eq_div_iff (by positivity) (by positivity)]
      push_cast
      rw [mul_assoc, ← pow_add, hgrid, mul_assoc, ← pow_add, Nat.add_comm]
    rw [hscaled, ← RoundingInterval.contains_ofMagnitude_iff pos] at cell
    have hcoarser := (RoundingInterval.isCoarsest_shortestDecimal pos).coarser grid
    have hle : grid ≤ (shortestDecimal magnitude).exponent :=
      Nat.le_of_not_lt fun hlt => hcoarser hlt digits cell
    rw [hgrid, Nat.add_comm behind, Nat.pow_add, Nat.pow_add, ← Nat.mul_assoc]
    exact Nat.mul_le_mul_right _ (Nat.mul_le_mul few.le (Nat.pow_le_pow_right (by decide) hle))

theorem shortestDecimal_digits_lt {digits zeros behind count : Nat} (few : digits < 10 ^ count)
    (cell : InCell ((digits * 10 ^ zeros : Nat) / 10 ^ behind / step) magnitude) :
    (shortestDecimal magnitude).digits < 10 ^ count := by
  have hle := le_ten_pow_of_inCell pos few cell
  have hshortest := inCell_shortestDecimal pos
  have hcoarser := (RoundingInterval.isCoarsest_shortestDecimal pos).coarser
  generalize shortestDecimal magnitude = d at *
  by_contra hmany
  have hpower : InCell ((10 ^ (count + d.exponent) : Nat) / 10 ^ Decimal.places / step)
      magnitude := by
    refine cell.of_between hshortest ?_ ?_
    · refine div_le_div_of_nonneg_right ?_ step_pos.le
      rw [div_le_div_iff₀ (by positivity) (by positivity)]
      exact_mod_cast hle
    · refine div_le_div_of_nonneg_right (div_le_div_of_nonneg_right ?_ (by positivity)) step_pos.le
      rw [Nat.cast_le, Nat.pow_add]
      exact Nat.mul_le_mul_right _ (Nat.le_of_not_lt hmany)
  rw [← RoundingInterval.contains_ofMagnitude_iff pos] at hpower
  rcases Nat.eq_zero_or_pos count with rfl | hcount
  · obtain rfl : digits = 0 := by omega
    have hnumber := cell.pos pos
    rw [Nat.zero_mul, Nat.cast_zero, zero_div, zero_div] at hnumber
    exact hnumber.false
  · refine hcoarser (count + d.exponent) (by omega) 1 ?_
    rwa [Nat.one_mul]

end Binary64

end Lexis
