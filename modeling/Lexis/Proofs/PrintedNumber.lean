import Lexis.Proofs.NumberLiteral
import Lexis.Proofs.Printing
import Lexis.Proofs.ShortestDecimal
import Mathlib.Data.List.DropRight

/-!
# Printed numbers

What is printed for a finite number that was scanned is a numeral of the source language. It reads
back as the same double, and no numeral that does has fewer significant digits.
-/

namespace Lexis

/-! ## Significant digits -/

def significant (digits : List Char) : List Char :=
  (digits.dropWhile (· == '0')).rdropWhile (· == '0')

/-- How many digits of a text are left without the zeros in front of them and behind them. -/
def significantDigits (text : String) : Nat :=
  (significant (text.toList.filter Char.isDigit)).length

example : significantDigits "0.01500" = 2 := by decide

theorem eq_replicate_zero {zeros : List Char} (h : ∀ c ∈ zeros, c == '0') :
    zeros = List.replicate zeros.length '0' :=
  List.eq_replicate_iff.mpr ⟨rfl, fun c hc => eq_of_beq (h c hc)⟩

theorem exists_zeros (digits : List Char) : ∃ front behind,
    digits = List.replicate front '0' ++ significant digits ++ List.replicate behind '0' := by
  let rest := digits.dropWhile (· == '0')
  have hfront : digits.takeWhile (· == '0') = List.replicate _ '0' :=
    eq_replicate_zero fun _ => List.mem_takeWhile_imp
  have hbehind : rest.rtakeWhile (· == '0') = List.replicate _ '0' :=
    eq_replicate_zero fun _ => List.mem_rtakeWhile_imp
  refine ⟨(digits.takeWhile (· == '0')).length, (rest.rtakeWhile (· == '0')).length, ?_⟩
  calc digits = digits.takeWhile (· == '0') ++ rest := List.takeWhile_append_dropWhile.symm
    _ = digits.takeWhile (· == '0') ++ (significant digits ++ rest.rtakeWhile (· == '0')) := by
      rw [significant, List.rdropWhile_append_rtakeWhile]
    _ = _ := by rw [← hfront, ← hbehind, List.append_assoc]

theorem length_significant_le (front : Nat) (core : List Char) (behind : Nat) :
    (significant (List.replicate front '0' ++ core ++ List.replicate behind '0')).length ≤
      core.length := by
  have hzeros (count : Nat) : ∀ c ∈ List.replicate count '0', c == '0' := fun c hc =>
    beq_of_eq (List.eq_of_mem_replicate hc)
  rw [significant, List.append_assoc, List.dropWhile_append_of_pos (hzeros front),
    List.dropWhile_append]
  split
  · rw [List.dropWhile_eq_nil_iff.mpr (hzeros behind)]
    exact Nat.zero_le _
  · rw [List.rdropWhile, List.reverse_append, List.reverse_replicate,
      List.dropWhile_append_of_pos (hzeros behind), List.length_reverse]
    refine (List.dropWhile_sublist _).length_le.trans ?_
    rw [List.length_reverse]
    exact (List.dropWhile_sublist _).length_le

theorem ofDigitChars_lt {digits : List Char} (all : ∀ c ∈ digits, c.isDigit) :
    Nat.ofDigitChars 10 digits 0 < 10 ^ digits.length := by
  induction digits with
  | nil => decide
  | cons c later ih =>
      rw [List.forall_mem_cons] at all
      have hlater := ih all.2
      have hdigit : c.toNat - '0'.toNat ≤ 9 :=
        Nat.sub_le_sub_right (Char.isDigit_iff_toNat.mp all.1).2 _
      have hmul := Nat.mul_le_mul_left (10 ^ later.length) hdigit
      rw [Nat.ofDigitChars_cons, Nat.ofDigitChars_eq_ofDigitChars_zero, Nat.mul_zero, Nat.zero_add,
        List.length_cons, Nat.pow_succ]
      omega

namespace Numeral

theorem filter_text {numeral : Numeral} (h : numeral.WellFormed) :
    numeral.text.filter Char.isDigit = numeral.whole ++ numeral.fraction := by
  have hwhole := List.filter_eq_self.mpr h.whole_digits
  have hfraction := List.filter_eq_self.mpr h.fraction_digits
  by_cases hnil : numeral.fraction = []
  · rw [text_of_fraction_eq_nil hnil, hnil, hwhole, List.append_nil]
  · rw [text_of_fraction_ne_nil hnil, List.filter_append, hwhole,
      List.filter_cons_of_neg (by decide), hfraction]

theorem digitsValue_of_zeros {numeral : Numeral} {front behind : Nat} {core : List Char}
    (h : numeral.whole ++ numeral.fraction =
      List.replicate front '0' ++ core ++ List.replicate behind '0') :
    numeral.digitsValue = Nat.ofDigitChars 10 core 0 * 10 ^ behind := by
  rw [digitsValue, h, Nat.ofDigitChars_append, Nat.ofDigitChars_append,
    Nat.ofDigitChars_replicate_zero, Nat.ofDigitChars_replicate_zero, Nat.mul_zero, Nat.mul_comm]

end Numeral

namespace Decimal

/-- The numeral of the printed text: the digits are whole, are parted by the point, or stand behind
it with zeros before them. -/
def numeral (d : Decimal) : Numeral :=
  let ds := Nat.toDigits 10 d.digits
  if places ≤ d.exponent then ⟨ds ++ List.replicate (d.exponent - places) '0', []⟩
  else
    let behind := places - d.exponent
    if behind < ds.length then ⟨ds.take (ds.length - behind), ds.drop (ds.length - behind)⟩
    else ⟨['0'], List.replicate (behind - ds.length) '0' ++ ds⟩

theorem numeral_text (d : Decimal) : d.numeral.text = d.text := by
  unfold text numeral
  dsimp only
  split
  · rfl
  · split
    · next hbehind =>
      refine Numeral.text_of_fraction_ne_nil fun hnil => ?_
      have hlength := List.drop_eq_nil_iff.mp hnil
      omega
    · have hdigits : Nat.toDigits 10 d.digits ≠ [] := Nat.toDigits_ne_nil
      exact Numeral.text_of_fraction_ne_nil (List.append_ne_nil_of_right_ne_nil _ hdigits)

/-- The digits of the numeral are those of the decimal between two runs of zeros, and the last of
them stands where the exponent says. -/
theorem numeral_digits (d : Decimal) : ∃ front behind,
    d.numeral.whole ++ d.numeral.fraction =
      List.replicate front '0' ++ Nat.toDigits 10 d.digits ++ List.replicate behind '0' ∧
    behind + places = d.exponent + d.numeral.fraction.length := by
  unfold numeral
  dsimp only
  split
  · next hwhole =>
    refine ⟨0, d.exponent - places, by simp, ?_⟩
    rw [List.length_nil]
    omega
  · split
    · next hbehind =>
      refine ⟨0, 0, by simp, ?_⟩
      rw [List.length_drop]
      omega
    · refine ⟨places - d.exponent - (Nat.toDigits 10 d.digits).length + 1, 0, ?_, ?_⟩
      · simp [List.replicate_succ]
      · rw [List.length_append, List.length_replicate]
        omega

theorem numeral_whole_ne_nil (d : Decimal) : d.numeral.whole ≠ [] := by
  have hdigits : Nat.toDigits 10 d.digits ≠ [] := Nat.toDigits_ne_nil
  unfold numeral
  dsimp only
  split
  · exact List.append_ne_nil_of_left_ne_nil hdigits _
  · split
    · next hbehind =>
      rw [← List.length_pos_iff, List.length_take]
      omega
    · exact List.cons_ne_nil _ _

theorem numeral_wellFormed (d : Decimal) : d.numeral.WellFormed := by
  obtain ⟨front, behind, hdigits, -⟩ := d.numeral_digits
  have hzeros (count : Nat) : ∀ c ∈ List.replicate count '0', c.isDigit := by
    intro c hc
    rw [List.eq_of_mem_replicate hc]
    decide
  have hall : ∀ c ∈ d.numeral.whole ++ d.numeral.fraction, c.isDigit := by
    rw [hdigits, List.forall_mem_append, List.forall_mem_append]
    exact ⟨⟨hzeros front, fun c => Nat.isDigit_of_mem_toDigits (by decide) (by decide)⟩,
      hzeros behind⟩
  rw [List.forall_mem_append] at hall
  exact ⟨d.numeral_whole_ne_nil, hall.1, hall.2⟩

end Decimal

/-! ## Reading back -/

namespace Numeral

variable {numeral : Numeral} {magnitude : Nat}

theorem ofRatio_magnitude_eq_iff_of_zeros {front behind : Nat} {core : List Char}
    (hsplit : numeral.whole ++ numeral.fraction =
      List.replicate front '0' ++ core ++ List.replicate behind '0')
    (finite : magnitude < Binary64.infinite) :
    (Binary64.ofRatio numeral.digitsValue numeral.scale).magnitude = magnitude ↔
      Binary64.InCell ((Nat.ofDigitChars 10 core 0 * 10 ^ behind : Nat) /
        10 ^ numeral.fraction.length / Binary64.step) magnitude := by
  have hscale : (numeral.scale : ℚ) = 10 ^ numeral.fraction.length := Nat.cast_pow ..
  rw [Binary64.ofRatio_magnitude_eq_iff _ numeral.scale_pos finite, digitsValue_of_zeros hsplit,
    hscale]

end Numeral

namespace Binary64

variable {magnitude : Nat} (pos : 0 < magnitude) (finite : magnitude < infinite)
include pos finite

theorem ofRatio_shortestDecimal :
    (ofRatio (shortestDecimal magnitude).numeral.digitsValue
      (shortestDecimal magnitude).numeral.scale).magnitude = magnitude := by
  obtain ⟨front, behind, hsplit, hplaces⟩ := (shortestDecimal magnitude).numeral_digits
  rw [Numeral.ofRatio_magnitude_eq_iff_of_zeros hsplit finite, Nat.ofDigitChars_ten_toDigits]
  have hcell := inCell_shortestDecimal pos
  generalize shortestDecimal magnitude = d at *
  have hsame : ((d.digits * 10 ^ behind : Nat) / 10 ^ d.numeral.fraction.length : ℚ) =
      d.scaled / 10 ^ Decimal.places := by
    have hscaled : (d.scaled : ℚ) = d.digits * 10 ^ d.exponent := by
      rw [Decimal.scaled, Nat.pow_eq]
      push_cast
      rfl
    rw [div_eq_div_iff (by positivity) (by positivity), hscaled]
    push_cast
    rw [mul_assoc, ← pow_add, hplaces, pow_add, mul_assoc]
  rwa [hsame]

theorem length_toDigits_shortestDecimal_le {numeral : Numeral} (form : numeral.WellFormed)
    (reads : (ofRatio numeral.digitsValue numeral.scale).magnitude = magnitude) :
    (Nat.toDigits 10 (shortestDecimal magnitude).digits).length ≤
      (significant (numeral.whole ++ numeral.fraction)).length := by
  obtain ⟨front, behind, hsplit⟩ := exists_zeros (numeral.whole ++ numeral.fraction)
  have hdigits : ∀ c ∈ significant (numeral.whole ++ numeral.fraction), c.isDigit := by
    intro c hc
    have hmem : c ∈ numeral.whole ++ numeral.fraction := by
      rw [hsplit]
      exact List.mem_append_left _ (List.mem_append_right _ hc)
    exact (List.mem_append.mp hmem).elim (form.whole_digits c) (form.fraction_digits c)
  rw [Numeral.ofRatio_magnitude_eq_iff_of_zeros hsplit finite] at reads
  have hlt := shortestDecimal_digits_lt pos (ofDigitChars_lt hdigits) reads
  have hpos := shortestDecimal_digits_pos pos
  have hsome : 0 < (significant (numeral.whole ++ numeral.fraction)).length := by
    refine Nat.pos_of_ne_zero fun hzero => ?_
    rw [hzero, Nat.pow_zero] at hlt
    omega
  exact (Nat.length_toDigits_le_iff (by decide) hsome).mpr hlt

end Binary64

/-! ## Printing -/

namespace Binary64

variable {x : Binary64} (finite : x.IsFinite)

def printed (magnitude : Nat) : Numeral :=
  if magnitude = 0 then ⟨['0'], []⟩ else (shortestDecimal magnitude).numeral

theorem printed_wellFormed (magnitude : Nat) : (printed magnitude).WellFormed := by
  unfold printed
  split
  · exact ⟨List.cons_ne_nil _ _, List.forall_mem_singleton.mpr rfl, List.forall_mem_nil _⟩
  · exact Decimal.numeral_wellFormed _

include finite

theorem display_eq_printed (hsign : x.negative = false) :
    x.display = String.ofList (printed x.magnitude).text := by
  have hnumber : x.isNaN = false := decide_eq_false (Nat.not_lt_of_le (Nat.le_of_lt finite))
  have hlimit : x.magnitude ≠ infinite := Nat.ne_of_lt finite
  have hmagnitude : magnitudeText x.magnitude = (printed x.magnitude).text := by
    rw [magnitudeText, printed, if_neg hlimit]
    split
    · rfl
    · exact (Decimal.numeral_text _).symm
  rw [display, hnumber, hsign, hmagnitude]
  rfl

theorem ofRatio_printed (hsign : x.negative = false) :
    ofRatio (printed x.magnitude).digitsValue (printed x.magnitude).scale = x := by
  refine eq_of_magnitude_eq rfl hsign ?_
  unfold printed
  split
  · next hzero =>
    rw [hzero]
    decide +kernel
  · next hpos => exact ofRatio_shortestDecimal (Nat.pos_of_ne_zero hpos) finite

theorem significantDigits_printed_le {numeral : Numeral} (form : numeral.WellFormed)
    (reads : ofRatio numeral.digitsValue numeral.scale = x) :
    significantDigits (String.ofList (printed x.magnitude).text) ≤
      significantDigits (String.ofList numeral.text) := by
  rw [significantDigits, significantDigits, String.toList_ofList, String.toList_ofList,
    Numeral.filter_text form, Numeral.filter_text (printed_wellFormed _)]
  unfold printed
  split
  · exact Nat.zero_le _
  · next hpos =>
    obtain ⟨front, behind, hdigits, -⟩ := (shortestDecimal x.magnitude).numeral_digits
    rw [hdigits]
    exact (length_significant_le front _ behind).trans
      (length_toDigits_shortestDecimal_le (Nat.pos_of_ne_zero hpos) finite form
        (congrArg magnitude reads))

end Binary64

theorem Scan.ofText_numeral {numeral : Numeral} (form : numeral.WellFormed) :
    let text := String.ofList numeral.text
    let value := Binary64.ofRatio numeral.digitsValue numeral.scale
    ofText text = ⟨[⟨.number, text, 0, some (.number value)⟩, Token.endOfFile text.utf8ByteSize],
      []⟩ := by
  intro text value
  have hform : (Segment.number numeral).WellFormed := form
  obtain ⟨hdiagnostics, htokens⟩ := tokensOf_eq_ok_iff.mp (tokensOf_lexeme hform rfl rfl)
  rw [← Text.utf8ByteSize_ofList] at htokens
  calc ofText text = ⟨(ofText text).tokens, (ofText text).diagnostics⟩ := rfl
    _ = _ := congrArg₂ Scan.mk htokens hdiagnostics

/-- What is printed for the number of a token is a numeral. All that is scanned in it is one token
with the same number, for which the same is printed again. No lexeme with this number has fewer
significant digits. -/
theorem printed_number_scans_back (source : String) (token : Token) (x : Binary64)
    (mem : token ∈ (Scan.ofText source).tokens) (kind : token.kind = .number)
    (literal : token.literal = some (.number x)) (finite : x.IsFinite) :
    let text := (Literal.number x).display
    (∃ numeral : Numeral, numeral.WellFormed ∧ text = String.ofList numeral.text) ∧
      Scan.ofText text =
        ⟨[⟨.number, text, 0, some (.number x)⟩, Token.endOfFile text.utf8ByteSize], []⟩ ∧
      (∀ again ∈ (Scan.ofText text).tokens, ∀ value, again.literal = some value →
        value.display = text) ∧
      ∀ (source' : String) (other : Token), other ∈ (Scan.ofText source').tokens →
        other.kind = .number → other.literal = some (.number x) →
        significantDigits text ≤ significantDigits other.lexeme := by
  intro text
  have hread {source : String} {token : Token} (mem : token ∈ (Scan.ofText source).tokens)
      (kind : token.kind = .number) (literal : token.literal = some (.number x)) :
      ∃ numeral : Numeral, numeral.WellFormed ∧ token.lexeme = String.ofList numeral.text ∧
        Binary64.ofRatio numeral.digitsValue numeral.scale = x := by
    obtain ⟨numeral, hform, hlexeme, hliteral⟩ := Scan.exists_numeral mem kind
    rw [literal, Option.some.injEq, Literal.number.injEq] at hliteral
    exact ⟨numeral, hform, hlexeme, hliteral.symm⟩
  have hsign : x.negative = false := by
    obtain ⟨numeral, -, -, hvalue⟩ := hread mem kind literal
    rw [← hvalue]
    rfl
  have htext : text = String.ofList (Binary64.printed x.magnitude).text :=
    Binary64.display_eq_printed finite hsign
  have hform := Binary64.printed_wellFormed x.magnitude
  have hscan : Scan.ofText text =
      ⟨[⟨.number, text, 0, some (.number x)⟩, Token.endOfFile text.utf8ByteSize], []⟩ := by
    have halone := Scan.ofText_numeral hform
    rwa [Binary64.ofRatio_printed finite hsign, ← htext] at halone
  refine ⟨⟨_, hform, htext⟩, hscan, ?_, ?_⟩
  · intro again hagain value hvalue
    rw [hscan, List.mem_pair] at hagain
    rcases hagain with rfl | rfl
    · rw [← Option.some.inj hvalue]
    · contradiction
  · intro source' other hother hkind hliteral
    obtain ⟨numeral, hnumeral, hlexeme, hreads⟩ := hread hother hkind hliteral
    rw [htext, hlexeme]
    exact Binary64.significantDigits_printed_le finite hnumeral hreads

/-- Ten to the 23 stands midway between two doubles. It is read as the even one, and is printed for
it with a single significant digit. -/
theorem printed_number_scans_back_at_midpoint :
    let x := Binary64.ofBits 0x44B52D02C7E14AF6
    let token : Token := ⟨.number, "99999999999999991611392.0", 4, some (.number x)⟩
    let text := "100000000000000000000000"
    token ∈ (Scan.ofText "x = 99999999999999991611392.0;").tokens ∧
      (Literal.number x).display = text ∧
      Scan.ofText text = ⟨[⟨.number, text, 0, some (.number x)⟩, Token.endOfFile 24], []⟩ ∧
      ∀ (source : String) (other : Token), other ∈ (Scan.ofText source).tokens →
        other.kind = .number → other.literal = some (.number x) →
        1 ≤ significantDigits other.lexeme := by
  intro x token text
  have hmem : token ∈ (Scan.ofText "x = 99999999999999991611392.0;").tokens := by decide +kernel
  have hfinite : x.magnitude < Binary64.infinite := by decide +kernel
  have htext : (Literal.number x).display = text := by decide +kernel
  have hsize : text.utf8ByteSize = 24 := by decide +kernel
  have hdigits : significantDigits text = 1 := by decide +kernel
  obtain ⟨-, hscan, -, hfewest⟩ := printed_number_scans_back _ token x hmem rfl rfl hfinite
  rw [htext, hsize] at hscan
  rw [htext, hdigits] at hfewest
  exact ⟨hmem, htext, hscan, hfewest⟩

end Lexis
