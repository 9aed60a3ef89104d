import Lexis.Proofs.ErrorAutomaton
import Lexis.Proofs.Offsets

/-!
# Boundaries between segments

Nothing but the place is carried over from one segment to the next. Where a boundary lies in a text,
the segments behind it are those of the rest alone, whatever stands in front. So two scans that both
have a token where a common rest starts find the same behind it.
-/

namespace Lexis

theorem Text.append_inj_of_byteLength {a b c d : List Char} (h : a ++ b = c ++ d)
    (size : byteLength a = byteLength c) : a = c ∧ b = d := by
  have hnil (text : List Char) (hzero : byteLength text = 0) : text = [] := by
    by_contra hne
    have hpos := byteLength_pos hne
    omega
  rcases List.append_eq_append_iff.mp h with ⟨middle, rfl, rfl⟩ | ⟨middle, rfl, rfl⟩
  · obtain rfl := hnil middle (by rw [byteLength_append] at size; omega)
    simp
  · obtain rfl := hnil middle (by rw [byteLength_append] at size; omega)
    simp

/-! ## Where segments lie -/

namespace Placed

open Segment

theorem span_of_mem_line {offset : Nat} {segments : List Segment} {placed : Placed}
    (h : placed ∈ line offset segments) :
    offset ≤ placed.offset ∧ placed.offset + Text.byteLength placed.segment.text ≤
      offset + Text.byteLength (textOf segments) := by
  obtain ⟨before, after, hsegments, hoffset⟩ := mem_line h
  rw [hsegments, hoffset, textOf_append, textOf_cons, Text.byteLength_append,
    Text.byteLength_append]
  omega

/-- What is read off the segments of a cut, and has their offsets, is behind a boundary what is read
off the segments behind it. -/
theorem filter_filterMap_line {α : Type} {f : Placed → Option α} {offsetOf : α → Nat}
    (keeps : ∀ placed value, f placed = some value → offsetOf value = placed.offset)
    {a b : List Segment} (cut : IsCut (a ++ b)) :
    ((line 0 (a ++ b)).filterMap f).filter (Text.byteLength (textOf a) ≤ offsetOf ·) =
      (line (Text.byteLength (textOf a)) b).filterMap f := by
  have hfront : ((line 0 a).filterMap f).filter (Text.byteLength (textOf a) ≤ offsetOf ·) = [] := by
    rw [List.filter_eq_nil_iff]
    intro value hvalue
    obtain ⟨placed, hplaced, hf⟩ := List.mem_filterMap.mp hvalue
    have hspan := (span_of_mem_line hplaced).2
    have hform := cut.wellFormed _ (List.mem_append_left b (segment_mem_of_mem_line hplaced))
    have hfilled := Text.byteLength_pos (text_ne_nil_of_wellFormed hform)
    simp only [keeps placed value hf, decide_eq_true_eq]
    omega
  have hback : ((line (Text.byteLength (textOf a)) b).filterMap f).filter
      (Text.byteLength (textOf a) ≤ offsetOf ·) =
        (line (Text.byteLength (textOf a)) b).filterMap f := by
    rw [List.filter_eq_self]
    intro value hvalue
    obtain ⟨placed, hplaced, hf⟩ := List.mem_filterMap.mp hvalue
    have hspan := (span_of_mem_line hplaced).1
    simp only [keeps placed value hf, decide_eq_true_eq]
    exact hspan
  rw [line_append, List.filterMap_append, List.filter_append, hfront, Nat.zero_add, hback,
    List.nil_append]

end Placed

namespace Segment

theorem eq_cutOf_of_boundary {x w : List Char} {a b : List Segment}
    (h : cutOf (x ++ w) = a ++ b) (size : Text.byteLength (textOf a) = Text.byteLength x) :
    textOf a = x ∧ b = cutOf w := by
  obtain ⟨hcut, htext⟩ := cutOf_eq_iff.mp h
  rw [textOf_append] at htext
  obtain ⟨hfront, hrest⟩ := Text.append_inj_of_byteLength htext size
  exact ⟨hfront, (cutOf_eq_iff.mpr ⟨hcut.of_append, hrest⟩).symm⟩

end Segment

namespace Scan

open Segment

/-- The errors that a scan records: the byte that each stands at, and its message. -/
def errorsOf (source : String) : List (Nat × String) :=
  (ofText source).diagnostics.map fun record =>
    (Location.offsetOf (Location.linesOf source.toList) record.position, record.message)

theorem errorsOf_eq (source : String) :
    errorsOf source = (faults source.toList).map fun error => (error.1, error.2.message) := by
  rw [errorsOf, ofText_diagnostics, List.map_map]
  apply List.map_congr_left
  intro error herror
  have hback := (Location.invOn_offsetOf source.toList).1 (le_of_mem_faults herror)
  exact congrArg (·, error.2.message) hback

theorem filter_diagnostics (source : String) (fault : Fault) :
    (ofText source).diagnostics.filter (·.message = fault.message) =
      ((faults source.toList).filter (·.2 = fault)).map fun error =>
        Diagnostic.ofFault source.toList error.1 error.2 := by
  rw [ofText_diagnostics, List.filter_map]
  congr 1
  apply List.filter_congr
  intro error herror
  have hmessage : error.2.message = fault.message ↔ error.2 = fault :=
    ⟨Fault.message_injective, congrArg Fault.message⟩
  exact decide_eq_decide.mpr hmessage

theorem offset_of_token? {placed : Placed} {token : Token} (h : placed.token? = some token) :
    token.offset = placed.offset := (token?_text h).2

theorem offset_of_fault? {placed : Placed} {error : Nat × Fault} (h : placed.fault? = some error) :
    error.1 = placed.offset := by
  obtain ⟨fault, -, rfl⟩ := Option.map_eq_some_iff.mp h
  rfl

/-! ## A token at the end of a text makes a boundary there -/

theorem exists_boundary {x w : String}
    (h : ∃ token ∈ (ofText (x ++ w)).tokens, token.offset = x.utf8ByteSize) :
    ∃ front, cutOf (x.toList ++ w.toList) = front ++ cutOf w.toList ∧ textOf front = x.toList := by
  obtain ⟨token, htoken, hoffset⟩ := h
  rw [ofText_tokens, String.toList_append, List.mem_append, List.mem_singleton] at htoken
  rw [← Text.byteLength_toList] at hoffset
  rcases htoken with hproper | rfl
  · rw [properTokens, cut_eq_line] at hproper
    obtain ⟨placed, hplaced, hmade⟩ := List.mem_filterMap.mp hproper
    obtain ⟨before, after, hsegments, hplace⟩ := Placed.mem_line hplaced
    have hsize : Text.byteLength (textOf before) = Text.byteLength x.toList := by
      rw [← hoffset, offset_of_token? hmade, hplace, Nat.zero_add]
    obtain ⟨hfront, hrest⟩ := eq_cutOf_of_boundary hsegments hsize
    exact ⟨before, by rw [hsegments, hrest], hfront⟩
  · have hsize : Text.byteLength (textOf (cutOf (x.toList ++ w.toList))) =
        Text.byteLength x.toList := by
      rw [textOf_cutOf, ← hoffset, ← String.toList_append, Text.byteLength_toList]
      rfl
    obtain ⟨hfront, hrest⟩ := eq_cutOf_of_boundary (List.append_nil _).symm hsize
    exact ⟨_, by rw [← hrest, List.append_nil], hfront⟩

section

variable {x w : String} (h : ∃ token ∈ (ofText (x ++ w)).tokens, token.offset = x.utf8ByteSize)
include h

theorem filter_filterMap_cut {α : Type} {f : Placed → Option α} {offsetOf : α → Nat}
    (keeps : ∀ placed value, f placed = some value → offsetOf value = placed.offset) :
    ((Placed.cut 0 (x ++ w).toList).filterMap f).filter (x.utf8ByteSize ≤ offsetOf ·) =
      (Placed.line (0 + x.utf8ByteSize) (cutOf w.toList)).filterMap f := by
  obtain ⟨front, hcut, hfront⟩ := exists_boundary h
  have hwhole := isCut_cutOf (x.toList ++ w.toList)
  rw [hcut] at hwhole
  have hbehind := Placed.filter_filterMap_line keeps hwhole
  rw [hfront, Text.byteLength_toList] at hbehind
  rw [String.toList_append, cut_eq_line, hcut, hbehind, Nat.zero_add]

theorem tokens_behind :
    (ofText (x ++ w)).tokens.filter (x.utf8ByteSize ≤ ·.offset) =
      (ofText w).tokens.map (·.shift x.utf8ByteSize) := by
  have hproper := filter_filterMap_cut h fun _ _ => offset_of_token?
  have hend : Token.endOfFile (x ++ w).utf8ByteSize =
      (Token.endOfFile w.utf8ByteSize).shift x.utf8ByteSize := by
    rw [String.utf8ByteSize_append, Nat.add_comm]
    rfl
  have hlast : x.utf8ByteSize ≤ ((Token.endOfFile w.utf8ByteSize).shift x.utf8ByteSize).offset :=
    Nat.le_add_left ..
  rw [← tokensFrom, tokensFrom_add, ← properTokens_eq] at hproper
  rw [ofText_tokens, ofText_tokens, List.filter_append, properTokens, hproper, hend,
    List.map_append, List.map_singleton, List.filter_singleton, decide_eq_true hlast]
  rfl

theorem faults_behind :
    (faults (x ++ w).toList).filter (x.utf8ByteSize ≤ ·.1) =
      (faults w.toList).map fun error => (error.1 + x.utf8ByteSize, error.2) := by
  have hfaults := filter_filterMap_cut h fun _ _ => offset_of_fault?
  rwa [← faultsFrom, faultsFrom_add, ← faults_eq] at hfaults

theorem errors_behind :
    ((errorsOf (x ++ w)).filter (x.utf8ByteSize ≤ ·.1)).map
        (fun error => (error.1 - x.utf8ByteSize, error.2)) = errorsOf w := by
  have hfaults := congrArg (List.map fun error : Nat × Fault =>
    (error.1 - x.utf8ByteSize, error.2.message)) (faults_behind h)
  rw [errorsOf_eq, errorsOf_eq, List.filter_map, List.map_map]
  rw [List.map_map] at hfaults
  simpa [Function.comp_def] using hfaults

end

end Scan

/-- Two texts with the same rest, in both of which a token starts where the rest does: from there on
the tokens of the one are those of the other, moved by the distance between the two places, and the
errors stand at the same bytes of the rest with the same messages. -/
theorem scan_resynchronises (x y w : String)
    (hx : ∃ token ∈ (Scan.ofText (x ++ w)).tokens, token.offset = x.utf8ByteSize)
    (hy : ∃ token ∈ (Scan.ofText (y ++ w)).tokens, token.offset = y.utf8ByteSize) :
    (Scan.ofText (y ++ w)).tokens.filter (y.utf8ByteSize ≤ ·.offset) =
        ((Scan.ofText (x ++ w)).tokens.filter (x.utf8ByteSize ≤ ·.offset)).map
          (fun token => { token with
            offset := token.offset + y.utf8ByteSize - x.utf8ByteSize }) ∧
      ((Scan.errorsOf (y ++ w)).filter (y.utf8ByteSize ≤ ·.1)).map
          (fun error => (error.1 - y.utf8ByteSize, error.2)) =
        ((Scan.errorsOf (x ++ w)).filter (x.utf8ByteSize ≤ ·.1)).map
          (fun error => (error.1 - x.utf8ByteSize, error.2)) := by
  constructor
  · rw [Scan.tokens_behind hx, Scan.tokens_behind hy, List.map_map]
    apply List.map_congr_left
    intro token htoken
    have hmoved : token.offset + x.utf8ByteSize + y.utf8ByteSize - x.utf8ByteSize =
        token.offset + y.utf8ByteSize := by omega
    rw [Function.comp_apply, Token.shift, Token.shift, hmoved]
  · rw [Scan.errors_behind hx, Scan.errors_behind hy]

/-- A comment with a quote behind a wide character, and a number whose point belongs to no
fraction, before a rest that starts with a point and leaves a string open. -/
theorem scan_resynchronises_at_point :
    let x := "é // \"\n"
    let y := "1."
    let w := ".5 @\n\"é"
    (∃ token ∈ (Scan.ofText (x ++ w)).tokens, token.offset = x.utf8ByteSize) ∧
      (∃ token ∈ (Scan.ofText (y ++ w)).tokens, token.offset = y.utf8ByteSize) ∧
      (Scan.ofText (y ++ w)).tokens.filter (2 ≤ ·.offset) =
        ((Scan.ofText (x ++ w)).tokens.filter (8 ≤ ·.offset)).map
          (fun token => { token with offset := token.offset + 2 - 8 }) ∧
      ((Scan.errorsOf (y ++ w)).filter (2 ≤ ·.1)).map (fun error => (error.1 - 2, error.2)) =
        [(3, "Unexpected character."), (5, "Unterminated string.")] := by
  intro x y w
  have hx : ∃ token ∈ (Scan.ofText (x ++ w)).tokens, token.offset = x.utf8ByteSize := by
    decide +kernel
  have hy : ∃ token ∈ (Scan.ofText (y ++ w)).tokens, token.offset = y.utf8ByteSize := by
    decide +kernel
  have hsizes : x.utf8ByteSize = 8 ∧ y.utf8ByteSize = 2 := by decide
  obtain ⟨htokens, herrors⟩ := scan_resynchronises x y w hx hy
  rw [hsizes.1, hsizes.2] at htokens herrors
  refine ⟨hx, hy, htokens, herrors.trans ?_⟩
  decide +kernel

end Lexis
