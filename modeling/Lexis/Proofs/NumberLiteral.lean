import Lexis.Proofs.Rounding
import Lexis.Proofs.Segmentation
import Mathlib.Tactic.FieldSimp
import Mathlib.Tactic.Positivity

/-!
# The values of number tokens

The lexeme of a number token is a numeral, and the literal is the double nearest to the number that
the numeral writes in base ten.
-/

namespace Lexis

/-- The number that a numeral writes: that of its whole digits, and that of the digits behind the
point, divided by ten once for each of them. -/
def Numeral.value (numeral : Numeral) : ℚ :=
  Nat.ofDigitChars 10 numeral.whole 0 +
    Nat.ofDigitChars 10 numeral.fraction 0 / 10 ^ numeral.fraction.length

theorem Numeral.digitsValue_div_scale (numeral : Numeral) :
    (numeral.digitsValue / numeral.scale : ℚ) = numeral.value := by
  have hscale : (numeral.scale : ℚ) = 10 ^ numeral.fraction.length := Nat.cast_pow ..
  have hdigits : numeral.digitsValue = 10 ^ numeral.fraction.length *
      Nat.ofDigitChars 10 numeral.whole 0 + Nat.ofDigitChars 10 numeral.fraction 0 := by
    rw [digitsValue, Nat.ofDigitChars_append, Nat.ofDigitChars_eq_ofDigitChars_zero]
  have hpos : (10 : ℚ) ^ numeral.fraction.length ≠ 0 := by positivity
  rw [value, hscale, hdigits]
  push_cast
  field_simp

theorem Segment.eq_number_of_token? {segment : Segment} {offset : Nat} {token : Token}
    (h : segment.token? offset = some token) (kind : token.kind = .number) :
    ∃ numeral, segment = .number numeral := by
  cases segment <;> simp only [token?, Option.some.injEq, reduceCtorEq] at h <;> subst h
  case number numeral => exact ⟨numeral, rfl⟩
  case word letters =>
    unfold Kind.ofWord at kind
    split at kind <;> contradiction
  all_goals contradiction

theorem Scan.exists_numeral {source : String} {token : Token}
    (mem : token ∈ (ofText source).tokens) (kind : token.kind = .number) :
    ∃ numeral : Numeral, numeral.WellFormed ∧ token.lexeme = String.ofList numeral.text ∧
      token.literal = some (.number (Binary64.ofRatio numeral.digitsValue numeral.scale)) := by
  rw [ofText_tokens, List.mem_append, List.mem_singleton] at mem
  rcases mem with hproper | rfl
  · obtain ⟨segment, offset, hform, hmade⟩ := exists_segment_of_mem_properTokens hproper
    obtain ⟨numeral, rfl⟩ := Segment.eq_number_of_token? hmade kind
    obtain rfl := Option.some.inj hmade
    exact ⟨numeral, hform, rfl, rfl⟩
  · contradiction

/-- The lexeme of a number token is a numeral, and the literal is a double without a sign that is
not a NaN. Its bits are those of the double nearest to the number that the numeral writes, and of no
other. It is infinite from the midpoint above the largest finite double on, and zero up to half the
smallest positive double. -/
theorem number_literal_is_nearest (source : String) (token : Token)
    (mem : token ∈ (Scan.ofText source).tokens) (kind : token.kind = .number) :
    ∃ numeral : Numeral, numeral.WellFormed ∧ token.lexeme = String.ofList numeral.text ∧
      ∃ x : Binary64, token.literal = some (.number x) ∧
        x.isNaN = false ∧
        x.negative = false ∧
        (∀ y : Binary64, Binary64.RoundsTo numeral.value y ↔ y.bits = x.bits) ∧
        (x.bits = Binary64.infinite ↔ 2 ^ 1024 - 2 ^ 970 ≤ numeral.value) ∧
        (x.bits = 0 ↔ numeral.value ≤ 2 ^ (-1075 : ℤ)) := by
  obtain ⟨numeral, hform, hlexeme, hliteral⟩ := Scan.exists_numeral mem kind
  have hvalue := numeral.digitsValue_div_scale
  have hrounds := Binary64.roundsTo_iff numeral.digitsValue numeral.scale_pos
  have hzero := Binary64.ofRatio_magnitude_eq_zero_iff numeral.digitsValue numeral.scale_pos
  rw [hvalue] at hrounds hzero
  generalize Binary64.ofRatio numeral.digitsValue numeral.scale = x at hliteral hrounds hzero
  have hx : Binary64.RoundsTo numeral.value x := (hrounds x).mpr rfl
  have hbits : x.bits = x.magnitude := by
    rw [Binary64.bits, hx.not_negative, if_neg Bool.false_ne_true, Nat.zero_add]
  refine ⟨numeral, hform, hlexeme, x, hliteral, hx.not_nan, hx.not_negative, ?_, ?_, ?_⟩
  · intro y
    rw [hrounds]
    exact ⟨congrArg Binary64.bits, Binary64.bits_injective⟩
  · rw [hbits, ← Binary64.isInfinite_iff]
    exact hx.infinite_iff
  · rw [hbits]
    exact hzero

/-- The numeral of 2 ^ 53 + 1 stands midway between two doubles and is read as the lesser one, whose
significand is even. -/
theorem number_literal_is_nearest_at_midpoint :
    let source := "-9007199254740993.0;"
    let x := Binary64.ofBits 0x4340000000000000
    let token : Token := ⟨.number, "9007199254740993.0", 1, some (.number x)⟩
    token ∈ (Scan.ofText source).tokens ∧ token.kind = .number ∧
      (∀ y : Binary64, Binary64.RoundsTo (2 ^ 53 + 1) y ↔ y.bits = x.bits) ∧
      x.toRat = 2 ^ 53 := by
  intro source x token
  have hmem : token ∈ (Scan.ofText source).tokens := by decide +kernel
  obtain ⟨numeral, hform, hlexeme, y, hliteral, -, -, hrounds, -, -⟩ :=
    number_literal_is_nearest source token hmem rfl
  have htext : "9007199254740993.0".toList = numeral.text :=
    (congrArg String.toList hlexeme).trans String.toList_ofList
  have hnumeral : numeral = ⟨"9007199254740993".toList, ['0']⟩ := by
    have hend : ∀ c ∈ ([] : List Char).head?, ¬ c.isDigit := by simp
    have hfront := Numeral.atFront_append hform hend fun _ => rfl
    rw [List.append_nil, ← htext] at hfront
    rw [← hfront]
    decide +kernel
  have hvalue : numeral.value = 2 ^ 53 + 1 := by
    have hwhole : Nat.ofDigitChars 10 "9007199254740993".toList 0 = 2 ^ 53 + 1 := by decide +kernel
    have hbehind : Nat.ofDigitChars 10 ['0'] 0 = 0 := by decide
    rw [hnumeral, Numeral.value, hwhole, hbehind]
    norm_num
  have hx : y = x := by
    simp only [token, Option.some.injEq, Literal.number.injEq] at hliteral
    exact hliteral.symm
  rw [hvalue, hx] at hrounds
  refine ⟨hmem, rfl, hrounds, ?_⟩
  have hsignificand : x.significand = 2 ^ 52 := by decide +kernel
  have hexponent : x.exponent = 1 := by decide +kernel
  have hsign : x.negative = false := by decide +kernel
  rw [Binary64.toRat, hsignificand, hexponent, hsign]
  norm_num

end Lexis
