import Lexis.Proofs.Front
import Lexis.ErrorLog

/-!
# Which segmentations are cuts

A list of segments is the cut of its text exactly if each of them is well formed and ends before
the text of those behind it. What a scan finds in a text can then be read off any such list.
-/

namespace Lexis

namespace Segment

def textOf (segments : List Segment) : List Char := segments.flatMap text

@[simp] theorem textOf_nil : textOf [] = [] := rfl

@[simp] theorem textOf_cons (segment : Segment) (later : List Segment) :
    textOf (segment :: later) = segment.text ++ textOf later := rfl

@[simp] theorem textOf_append (a b : List Segment) : textOf (a ++ b) = textOf a ++ textOf b := by
  simp [textOf]

/-- No segment is wrong in itself, and none could go on into those behind it. -/
def IsCut : List Segment → Prop
  | [] => True
  | segment :: later => segment.WellFormed ∧ segment.EndsBefore (textOf later) ∧ IsCut later

theorem text_ne_nil_of_wellFormed {segment : Segment} (h : segment.WellFormed) :
    segment.text ≠ [] := by
  cases segment with
  | operator op => exact spelling_ne_nil op
  | number numeral => exact Numeral.text_ne_nil h
  | word letters =>
      obtain ⟨c, rest, rfl, -⟩ := h
      simp [text]
  | _ => simp [text]

theorem IsCut.wellFormed {segments : List Segment} (h : IsCut segments) :
    ∀ segment ∈ segments, segment.WellFormed := by
  induction segments with
  | nil => simp
  | cons segment later ih =>
      obtain ⟨form, -, cut⟩ := h
      intro other member
      rcases List.mem_cons.mp member with rfl | member
      · exact form
      · exact ih cut other member

theorem IsCut.of_append {a b : List Segment} (h : IsCut (a ++ b)) : IsCut b := by
  induction a with
  | nil => exact h
  | cons segment a ih => exact ih h.2.2

/-- Only the last segment of a text can be a string that is still open. -/
theorem IsCut.eq_nil_of_openString {contents : List Char} {later : List Segment}
    (h : IsCut (.openString contents :: later)) : later = [] := by
  obtain ⟨-, ends, cut⟩ := h
  cases later with
  | nil => rfl
  | cons segment later =>
      have filled := text_ne_nil_of_wellFormed (cut.wellFormed segment (by simp))
      have empty : segment.text ++ textOf later = [] := ends
      exact absurd (List.append_eq_nil_iff.mp empty).1 filled

end Segment

namespace Placed

open Segment

/-- Puts segments one behind the other, the first of them at byte `offset`. -/
def line (offset : Nat) : List Segment → List Placed
  | [] => []
  | segment :: later =>
      ⟨offset, segment⟩ :: line (offset + Text.byteLength segment.text) later

theorem line_append (offset : Nat) (a b : List Segment) :
    line offset (a ++ b) = line offset a ++ line (offset + Text.byteLength (textOf a)) b := by
  induction a generalizing offset with
  | nil => simp [line]
  | cons segment a ih => simp [line, ih, Nat.add_assoc]

theorem line_add (offset distance : Nat) (segments : List Segment) :
    line (offset + distance) segments =
      (line offset segments).map fun placed => ⟨placed.offset + distance, placed.segment⟩ := by
  induction segments generalizing offset with
  | nil => rfl
  | cons segment later ih => rw [line, Nat.add_right_comm, ih, line, List.map_cons]

theorem line_map_segment (offset : Nat) (segments : List Segment) :
    (line offset segments).map (·.segment) = segments := by
  induction segments generalizing offset with
  | nil => rfl
  | cons segment later ih => simp [line, ih]

theorem cut_textOf {segments : List Segment} (offset : Nat) (h : IsCut segments) :
    cut offset (textOf segments) = line offset segments := by
  induction segments generalizing offset with
  | nil => simp [line]
  | cons segment later ih =>
      obtain ⟨form, ends, cut⟩ := h
      obtain ⟨c, rest, split⟩ := List.exists_cons_of_ne_nil
        (List.append_ne_nil_of_left_ne_nil (text_ne_nil_of_wellFormed form) (textOf later))
      have front : first c rest = segment := first_of_endsBefore form ends split
      rw [textOf_cons, split, cut_cons, front, ← split, List.drop_left, ih _ cut, line]

theorem mem_line {offset : Nat} {segments : List Segment} {placed : Placed}
    (h : placed ∈ line offset segments) :
    ∃ before after, segments = before ++ placed.segment :: after ∧
      placed.offset = offset + Text.byteLength (textOf before) := by
  induction segments generalizing offset with
  | nil => simp [line] at h
  | cons segment later ih =>
      rw [line, List.mem_cons] at h
      rcases h with rfl | h
      · exact ⟨[], later, rfl, rfl⟩
      · obtain ⟨before, after, hlater, hoffset⟩ := ih h
        refine ⟨segment :: before, after, by rw [hlater]; rfl, ?_⟩
        rw [hoffset, textOf_cons, Text.byteLength_append]
        omega

theorem segment_mem_of_mem_line {offset : Nat} {segments : List Segment} {placed : Placed}
    (h : placed ∈ line offset segments) : placed.segment ∈ segments := by
  rw [← line_map_segment offset segments]
  exact List.mem_map_of_mem h

theorem filterMap_line_cons {α : Type} (f : Placed → Option α) (offset : Nat) (segment : Segment)
    (later : List Segment) :
    (line offset (segment :: later)).filterMap f = (f ⟨offset, segment⟩).toList ++
      (line (offset + Text.byteLength segment.text) later).filterMap f := by
  rw [line, List.filterMap_cons]
  cases f ⟨offset, segment⟩ with
  | none => rfl
  | some value => rfl

theorem pairwise_line (offset : Nat) {segments : List Segment}
    (form : ∀ segment ∈ segments, segment.WellFormed) :
    (line offset segments).Pairwise (·.offset < ·.offset) := by
  induction segments generalizing offset with
  | nil => exact .nil
  | cons segment later ih =>
      have hfilled := Text.byteLength_pos
        (text_ne_nil_of_wellFormed (form segment List.mem_cons_self))
      refine .cons ?_ (ih _ fun other hother => form other (List.mem_cons_of_mem segment hother))
      intro placed hplaced
      obtain ⟨before, after, -, hoffset⟩ := mem_line hplaced
      rw [hoffset]
      show offset < _
      omega

end Placed

namespace Segment

def cutOf (source : List Char) : List Segment := (Placed.cut 0 source).map (·.segment)

@[simp] theorem textOf_cutOf (source : List Char) : textOf (cutOf source) = source := by
  rw [cutOf, textOf, List.flatMap_map]
  exact Placed.cut_flatMap_text 0 source

theorem isCut_map_cut (offset : Nat) (source : List Char) :
    IsCut ((Placed.cut offset source).map (·.segment)) := by
  match source with
  | [] => simp [IsCut]
  | c :: later =>
      have split := List.prefix_iff_eq_append.mp (first_text_isPrefix c later)
      rw [Placed.cut_cons, List.map_cons]
      refine ⟨first_wellFormed c later, ?_, isCut_map_cut _ _⟩
      rw [textOf, List.flatMap_map, Placed.cut_flatMap_text]
      exact first_endsBefore split
termination_by source.length
decreasing_by exact length_drop_first_lt c later

theorem isCut_cutOf (source : List Char) : IsCut (cutOf source) := isCut_map_cut 0 source

theorem cut_eq_line (offset : Nat) (source : List Char) :
    Placed.cut offset source = Placed.line offset (cutOf source) := by
  have := Placed.cut_textOf offset (isCut_cutOf source)
  rwa [textOf_cutOf] at this

theorem cutOf_eq_iff {source : List Char} {segments : List Segment} :
    cutOf source = segments ↔ IsCut segments ∧ textOf segments = source := by
  constructor
  · rintro rfl
    exact ⟨isCut_cutOf source, textOf_cutOf source⟩
  · rintro ⟨cut, rfl⟩
    rw [cutOf, Placed.cut_textOf 0 cut, Placed.line_map_segment]

end Segment

namespace Scan

open Segment

theorem ofText_diagnostics (source : String) :
    (ofText source).diagnostics = (faults source.toList).map
      fun error => Diagnostic.ofFault source.toList error.1 error.2 := rfl

/-! ## Scans of cuts -/

def tokensFrom (offset : Nat) (segments : List Segment) : List Token :=
  (Placed.line offset segments).filterMap Placed.token?

def faultsFrom (offset : Nat) (segments : List Segment) : List (Nat × Fault) :=
  (Placed.line offset segments).filterMap Placed.fault?

theorem properTokens_eq (source : List Char) :
    properTokens source = tokensFrom 0 (cutOf source) := by
  rw [properTokens, cut_eq_line, tokensFrom]

theorem faults_eq (source : List Char) : faults source = faultsFrom 0 (cutOf source) := by
  rw [faults, cut_eq_line, faultsFrom]

theorem tokensFrom_cons (offset : Nat) (segment : Segment) (later : List Segment) :
    tokensFrom offset (segment :: later) = (segment.token? offset).toList ++
      tokensFrom (offset + Text.byteLength segment.text) later := by
  rw [tokensFrom, Placed.filterMap_line_cons, tokensFrom]
  rfl

theorem faultsFrom_cons (offset : Nat) (segment : Segment) (later : List Segment) :
    faultsFrom offset (segment :: later) = (Placed.fault? ⟨offset, segment⟩).toList ++
      faultsFrom (offset + Text.byteLength segment.text) later := by
  rw [faultsFrom, Placed.filterMap_line_cons, faultsFrom]

theorem tokensFrom_eq_nil {segments : List Segment} (offset : Nat)
    (h : ∀ segment ∈ segments, ∀ offset, segment.token? offset = none) :
    tokensFrom offset segments = [] := by
  apply List.filterMap_eq_nil_iff.mpr
  intro placed hplaced
  exact h placed.segment (Placed.segment_mem_of_mem_line hplaced) placed.offset

theorem faultsFrom_eq_nil {segments : List Segment} (offset : Nat)
    (h : ∀ segment ∈ segments, segment.fault? = none) : faultsFrom offset segments = [] := by
  apply List.filterMap_eq_nil_iff.mpr
  intro placed hplaced
  rw [Placed.fault?, h placed.segment (Placed.segment_mem_of_mem_line hplaced), Option.map_none]

theorem tokensFrom_append (offset : Nat) (a b : List Segment) :
    tokensFrom offset (a ++ b) =
      tokensFrom offset a ++ tokensFrom (offset + Text.byteLength (textOf a)) b := by
  rw [tokensFrom, Placed.line_append, List.filterMap_append, tokensFrom, tokensFrom]

theorem faultsFrom_append (offset : Nat) (a b : List Segment) :
    faultsFrom offset (a ++ b) =
      faultsFrom offset a ++ faultsFrom (offset + Text.byteLength (textOf a)) b := by
  rw [faultsFrom, Placed.line_append, List.filterMap_append, faultsFrom, faultsFrom]

/-- What is scanned in a text is read off any list of segments that is a cut of it. -/
theorem properTokens_textOf {segments : List Segment} (cut : IsCut segments) :
    properTokens (textOf segments) = tokensFrom 0 segments := by
  have hcut : cutOf (textOf segments) = segments := cutOf_eq_iff.mpr ⟨cut, rfl⟩
  rw [properTokens_eq, hcut]

theorem faults_textOf {segments : List Segment} (cut : IsCut segments) :
    faults (textOf segments) = faultsFrom 0 segments := by
  have hcut : cutOf (textOf segments) = segments := cutOf_eq_iff.mpr ⟨cut, rfl⟩
  rw [faults_eq, hcut]

theorem exists_segment_of_mem_properTokens {source : List Char} {token : Token}
    (h : token ∈ properTokens source) :
    ∃ segment offset, segment.WellFormed ∧ Segment.token? segment offset = some token := by
  obtain ⟨placed, hplaced, hmade⟩ := List.mem_filterMap.mp h
  have hform : placed.segment.WellFormed :=
    (Segment.isCut_cutOf source).wellFormed _ (List.mem_map_of_mem hplaced)
  exact ⟨placed.segment, placed.offset, hform, hmade⟩

theorem tokensOf_textOf {segments : List Segment} (cut : IsCut segments)
    (faultless : faultsFrom 0 segments = []) :
    tokensOf (String.ofList (textOf segments)) =
      .ok (tokensFrom 0 segments ++ [Token.endOfFile (Text.byteLength (textOf segments))]) := by
  rw [tokensOf_eq_ok_iff]
  constructor
  · rw [ofText, String.toList_ofList, faults_textOf cut, faultless]
    rfl
  · rw [ofText_tokens, String.toList_ofList, properTokens_textOf cut, Text.utf8ByteSize_ofList]

theorem tokensFrom_add (offset distance : Nat) (segments : List Segment) :
    tokensFrom (offset + distance) segments =
      (tokensFrom offset segments).map (·.shift distance) := by
  rw [tokensFrom, tokensFrom, Placed.line_add, List.filterMap_map, List.map_filterMap]
  congr 1
  funext placed
  exact token?_shift placed.segment placed.offset distance

theorem faultsFrom_add (offset distance : Nat) (segments : List Segment) :
    faultsFrom (offset + distance) segments =
      (faultsFrom offset segments).map fun error => (error.1 + distance, error.2) := by
  rw [faultsFrom, faultsFrom, Placed.line_add, List.filterMap_map, List.map_filterMap]
  congr 1
  funext placed
  simp [Placed.fault?, Function.comp_def]

theorem mem_faults {source : List Char} {error : Nat × Fault} (h : error ∈ faults source) :
    ∃ front rest, source = front ++ rest ∧ error.1 = Text.byteLength front := by
  rw [faults_eq, faultsFrom, List.mem_filterMap] at h
  obtain ⟨placed, hplaced, hfault⟩ := h
  obtain ⟨before, after, hsegments, hoffset⟩ := Placed.mem_line hplaced
  refine ⟨Segment.textOf before, Segment.textOf (placed.segment :: after), ?_, ?_⟩
  · rw [← Segment.textOf_append, ← hsegments, Segment.textOf_cutOf]
  · obtain ⟨fault, -, herror⟩ := Option.map_eq_some_iff.mp hfault
    rw [← herror, hoffset, Nat.zero_add]

theorem le_of_mem_faults {source : List Char} {error : Nat × Fault} (h : error ∈ faults source) :
    error.1 ≤ Text.byteLength source := by
  obtain ⟨front, rest, hsource, hoffset⟩ := mem_faults h
  rw [hoffset, hsource, Text.byteLength_append]
  omega

theorem pairwise_faults (source : List Char) : (faults source).Pairwise (·.1 < ·.1) := by
  rw [faults_eq, faultsFrom, List.pairwise_filterMap]
  have hform := (Segment.isCut_cutOf source).wellFormed
  refine (Placed.pairwise_line 0 hform).imp ?_
  intro a b hlt error herror other hother
  obtain ⟨fault, -, rfl⟩ := Option.map_eq_some_iff.mp herror
  obtain ⟨fault', -, rfl⟩ := Option.map_eq_some_iff.mp hother
  exact hlt

end Scan

end Lexis
