import Lexis.Proofs.Boundaries

/-!
# How far a scan looks ahead

Where a segment ends is settled by what stands behind it, and one character does that unless it is
a point. So a scan of the first part of a text finds what a scan of the whole text begins with, all
but what stands too close to the end of the part.
-/

namespace Lexis

namespace Segment

/-- The text is enough to tell whether a segment before it is at its end: only a point alone leaves
open whether a fraction comes. -/
def Settles (rest : List Char) : Prop := rest ≠ [] ∧ rest ≠ ['.']

theorem Settles.fractionAt_append {rest : List Char} (settles : Settles rest) (more : List Char)
    (h : Numeral.fractionAt rest = []) : Numeral.fractionAt (rest ++ more) = [] := by
  obtain ⟨c, later, rfl⟩ := List.exists_cons_of_ne_nil settles.1
  by_cases hpoint : c = '.'
  · subst hpoint
    have hlater : later ≠ [] := fun hnil => settles.2 (by rw [hnil])
    obtain ⟨d, digits, rfl⟩ := List.exists_cons_of_ne_nil hlater
    have hd : ¬ d.isDigit := by
      intro hd
      simp [Numeral.fractionAt, hd] at h
    simp [Numeral.fractionAt, hd]
  · apply Numeral.fractionAt_eq_nil_of_head?
    intro hhead
    exact hpoint (Option.some.inj hhead)

theorem EndsBefore.append {segment : Segment} {rest : List Char} (ends : segment.EndsBefore rest)
    (settles : Settles rest) (more : List Char) : segment.EndsBefore (rest ++ more) := by
  have hhead : (rest ++ more).head? = rest.head? := List.head?_append_of_ne_nil rest settles.1
  cases segment with
  | comment body =>
      rw [EndsBefore, hhead]
      exact ends
  | operator op =>
      rw [EndsBefore, hhead]
      exact ends
  | number numeral =>
      rw [EndsBefore, hhead]
      exact ⟨ends.1, fun hwhole => settles.fractionAt_append more (ends.2 hwhole)⟩
  | word letters =>
      rw [EndsBefore, hhead]
      exact ends
  | openString contents => exact absurd ends settles.1
  | _ => trivial

theorem settles_of_size {rest : List Char} (h : 2 ≤ Text.byteLength rest) : Settles rest := by
  have hpoint : Text.byteLength ['.'] = 1 := by decide
  constructor
  · rintro rfl
    contradiction
  · rintro rfl
    omega

theorem settles_of_fault {segments : List Segment} {offset : Nat} {error : Nat × Fault}
    (cut : IsCut segments) (h : error ∈ Scan.faultsFrom offset segments) :
    Settles (textOf segments) := by
  have hnone {other : List Segment} (hother : IsCut other) (htext : textOf segments = textOf other)
      (faultless : Scan.faultsFrom offset other = []) : False := by
    have hsame : segments = other := by
      rw [← cutOf_eq_iff.mpr ⟨cut, rfl⟩, ← cutOf_eq_iff.mpr ⟨hother, rfl⟩, htext]
    rw [hsame, faultless] at h
    contradiction
  have hpoint : IsCut [.operator .dot] := ⟨trivial, by simp [EndsBefore], trivial⟩
  have hempty : IsCut [] := trivial
  exact ⟨fun hnil => hnone hempty hnil rfl, fun hdot => hnone hpoint hdot rfl⟩

theorem cutOf_cons_append {segment : Segment} {later : List Segment} {more : List Char}
    (form : segment.WellFormed) (ends : segment.EndsBefore (textOf later ++ more)) :
    cutOf (textOf (segment :: later) ++ more) = segment :: cutOf (textOf later ++ more) := by
  rw [cutOf_eq_iff]
  constructor
  · refine ⟨form, ?_, isCut_cutOf _⟩
    rwa [textOf_cutOf]
  · rw [textOf_cons, textOf_cutOf, textOf_cons, List.append_assoc]

end Segment

namespace Scan

open Segment

theorem endOffset_of_token? {segment : Segment} {offset : Nat} {token : Token}
    (h : segment.token? offset = some token) :
    token.endOffset = offset + Text.byteLength segment.text := by
  obtain ⟨hlexeme, hoffset⟩ := token?_text h
  rw [Token.endOffset, hlexeme, hoffset, Text.utf8ByteSize_ofList]

theorem le_endOffset_of_mem_tokensFrom {offset : Nat} {segments : List Segment} {token : Token}
    (h : token ∈ tokensFrom offset segments) : offset ≤ token.endOffset := by
  obtain ⟨placed, hplaced, hmade⟩ := List.mem_filterMap.mp h
  have hspan := (Placed.span_of_mem_line hplaced).1
  rw [endOffset_of_token? hmade]
  omega

/-- Two bytes behind a token settle it. -/
theorem filter_tokensFrom_isPrefix (offset : Nat) {segments : List Segment} (more : List Char)
    (cut : IsCut segments) :
    (tokensFrom offset segments).filter
        (·.endOffset + 2 ≤ offset + Text.byteLength (textOf segments)) <+:
      tokensFrom offset (cutOf (textOf segments ++ more)) := by
  induction segments generalizing offset with
  | nil => exact List.nil_prefix
  | cons segment later ih =>
      obtain ⟨form, ends, cut⟩ := cut
      rw [tokensFrom_cons, textOf_cons, Text.byteLength_append, ← Nat.add_assoc]
      by_cases room : 2 ≤ Text.byteLength (textOf later)
      · have hhere : (segment.token? offset).toList.filter
            (·.endOffset + 2 ≤ offset + Text.byteLength segment.text +
              Text.byteLength (textOf later)) = (segment.token? offset).toList := by
          rw [List.filter_eq_self]
          intro token htoken
          rw [endOffset_of_token? (Option.mem_toList.mp htoken), decide_eq_true_eq]
          omega
        rw [← textOf_cons, cutOf_cons_append form (ends.append (settles_of_size room) more),
          tokensFrom_cons, List.filter_append, hhere, List.prefix_append_right_inj]
        exact ih _ cut
      · have hnone : ((segment.token? offset).toList ++
            tokensFrom (offset + Text.byteLength segment.text) later).filter
              (·.endOffset + 2 ≤ offset + Text.byteLength segment.text +
                Text.byteLength (textOf later)) = [] := by
          rw [List.filter_eq_nil_iff]
          intro token htoken
          have hend : offset + Text.byteLength segment.text ≤ token.endOffset := by
            rcases List.mem_append.mp htoken with hhere | hlater
            · exact (endOffset_of_token? (Option.mem_toList.mp hhere)).ge
            · exact le_endOffset_of_mem_tokensFrom hlater
          rw [decide_eq_true_eq]
          omega
        rw [hnone]
        exact List.nil_prefix

/-- A stray character settles itself and all that stands before it. -/
theorem filter_faultsFrom_isPrefix (offset : Nat) {segments : List Segment} (more : List Char)
    (cut : IsCut segments) :
    (faultsFrom offset segments).filter (·.2 = .unexpectedCharacter) <+:
      faultsFrom offset (cutOf (textOf segments ++ more)) := by
  induction segments generalizing offset with
  | nil => exact List.nil_prefix
  | cons segment later ih =>
      obtain ⟨form, ends, cut⟩ := cut
      rw [faultsFrom_cons, List.filter_append]
      by_cases hlater : ∃ error ∈ faultsFrom (offset + Text.byteLength segment.text) later,
          error.2 = .unexpectedCharacter
      · obtain ⟨error, hmem, -⟩ := hlater
        have hhere : (Placed.fault? ⟨offset, segment⟩).toList.filter
            (·.2 = .unexpectedCharacter) = (Placed.fault? ⟨offset, segment⟩).toList := by
          cases segment with
          | openString contents => exact absurd ends (settles_of_fault cut hmem).1
          | _ => rfl
        rw [cutOf_cons_append form (ends.append (settles_of_fault cut hmem) more),
          faultsFrom_cons, hhere, List.prefix_append_right_inj]
        exact ih _ cut
      · have hnone : (faultsFrom (offset + Text.byteLength segment.text) later).filter
            (·.2 = .unexpectedCharacter) = [] := by
          rw [List.filter_eq_nil_iff]
          intro error hmem hstray
          exact hlater ⟨error, hmem, of_decide_eq_true hstray⟩
        rw [hnone, List.append_nil]
        cases segment with
        | stray c =>
            rw [cutOf_cons_append form trivial, faultsFrom_cons]
            exact List.prefix_append _ _
        | _ => exact List.nil_prefix

end Scan

/-! ## Records when more text follows -/

/-- The location on the same line of a longer text: the last line of the text goes on with what is
added, up to its first line feed. -/
def Location.followedBy (location : Location) (source more : List Char) : Location :=
  if location.position.line = 1 + source.count '\n' then
    { location with lineText := location.lineText ++ more.takeWhile (· != '\n') }
  else location

theorem Location.ofOffset_append {source : List Char} {offset : Nat} (more : List Char)
    (h : offset ≤ Text.byteLength source) :
    ofOffset (source ++ more) offset = (ofOffset source offset).followedBy source more := by
  obtain ⟨before, line, after, within, rfl, starts, whole, ends, rfl, hwithin⟩ := exists_line h
  rw [ofOffset_of_line starts whole ends hwithin, followedBy]
  have hline : line.count '\n' = 0 := List.count_eq_zero.mpr whole
  rcases ends with rfl | ends
  · obtain ⟨there, behind, rfl, hthere, stops⟩ := exists_line_end more
    have hrun : (there ++ behind).takeWhile (· != '\n') = there := by
      apply takeWhile_append_of_stop (forall_bne_of_not_mem hthere)
      rcases stops with rfl | stops
      · simp
      · simp [stops]
    have hlonger : '\n' ∉ line ++ there := by
      rw [List.mem_append, not_or]
      exact ⟨whole, hthere⟩
    have hroom : within ≤ Text.byteLength (line ++ there) := by
      rw [Text.byteLength_append]
      omega
    have hlast : before.count '\n' + 1 = 1 + (before ++ line ++ []).count '\n' := by
      rw [List.append_nil, List.count_append, hline]
      omega
    have hlocation := ofOffset_of_line starts hlonger stops hroom
    rw [if_pos hlast, hrun, ← hlocation]
    simp only [List.append_assoc, List.nil_append]
  · obtain ⟨later, rfl⟩ := List.head?_eq_some_iff.mp ends
    have hnotLast : before.count '\n' + 1 ≠ 1 + (before ++ line ++ '\n' :: later).count '\n' := by
      rw [List.count_append, List.count_append, List.count_cons_self]
      omega
    rw [if_neg hnotLast, List.append_assoc (before ++ line), List.cons_append]
    exact ofOffset_of_line starts whole (.inr rfl) hwithin

def Diagnostic.followedBy (record : Diagnostic) (source more : List Char) : Diagnostic :=
  if record.position.line = 1 + source.count '\n' then
    { record with
      context := record.context.map (· ++ String.ofList (more.takeWhile (· != '\n'))) }
  else record

theorem Diagnostic.ofFault_append {source : List Char} {offset : Nat} (more : List Char)
    (fault : Fault) (h : offset ≤ Text.byteLength source) :
    ofFault (source ++ more) offset fault =
      (ofFault source offset fault).followedBy source more := by
  have hposition : (ofFault source offset fault).position =
      (Location.ofOffset source offset).position := rfl
  rw [ofFault, Location.ofOffset_append more h, Location.followedBy, followedBy, hposition]
  by_cases hlast : (Location.ofOffset source offset).position.line = 1 + source.count '\n'
  · rw [if_pos hlast, if_pos hlast, ofFault]
    simp
  · rw [if_neg hlast, if_neg hlast, ofFault]

/-- The tokens of a text with two more bytes of it behind them are the first of any longer text. So
are the records of its stray characters, where they are and in their order; only a record on the
last line has more of its line. -/
theorem scan_of_longer_text (s t : String) :
    (Scan.ofText s).tokens.dropLast.filter (·.endOffset + 2 ≤ s.utf8ByteSize) <+:
        (Scan.ofText (s ++ t)).tokens ∧
      ((Scan.ofText s).diagnostics.filter
          (·.message = Fault.unexpectedCharacter.message)).map
            (·.followedBy s.toList t.toList) <+:
        (Scan.ofText (s ++ t)).diagnostics := by
  have hcut := Segment.isCut_cutOf s.toList
  constructor
  · have htokens := Scan.filter_tokensFrom_isPrefix 0 t.toList hcut
    rw [Segment.textOf_cutOf, ← Scan.properTokens_eq, ← Scan.properTokens_eq, Nat.zero_add,
      Text.byteLength_toList] at htokens
    rw [Scan.ofText_tokens, List.dropLast_concat, Scan.ofText_tokens, String.toList_append]
    exact htokens.trans (List.prefix_append _ _)
  · have hfaults := Scan.filter_faultsFrom_isPrefix 0 t.toList hcut
    rw [Segment.textOf_cutOf, ← Scan.faults_eq, ← Scan.faults_eq] at hfaults
    have hrecords : ((Scan.ofText s).diagnostics.filter
        (·.message = Fault.unexpectedCharacter.message)).map (·.followedBy s.toList t.toList) =
          ((Scan.faults s.toList).filter (·.2 = .unexpectedCharacter)).map fun error =>
            Diagnostic.ofFault (s.toList ++ t.toList) error.1 error.2 := by
      rw [Scan.filter_diagnostics, List.map_map]
      apply List.map_congr_left
      intro error herror
      have hbound := Scan.le_of_mem_faults (List.mem_of_mem_filter herror)
      exact (Diagnostic.ofFault_append t.toList error.2 hbound).symm
    rw [hrecords, Scan.ofText_diagnostics, String.toList_append]
    exact hfaults.map _

/-- One byte is not enough: behind the point of this number a digit may follow. -/
example : (Scan.ofText "1.").tokens.head? ≠ (Scan.ofText ("1." ++ "5")).tokens.head? := by
  decide +kernel

end Lexis
