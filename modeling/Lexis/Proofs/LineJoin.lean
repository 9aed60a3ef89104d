import Lexis.Proofs.Lines
import Lexis.Proofs.Segmentation

/-!
# Scanning texts joined by a line feed

A line feed between two texts keeps their segments apart, as long as the first text leaves no
string open. So the scan of the joined text is the scan of the first, followed by the scan of the
second as far further on and down as the first reaches.
-/

namespace Lexis

def Diagnostic.below (record : Diagnostic) (lines : Nat) : Diagnostic :=
  { record with position := record.position.below lines }

namespace Segment

theorem textOf_joined (a b : List Segment) :
    textOf (a ++ .blank '\n' :: b) = textOf a ++ '\n' :: textOf b := by
  rw [textOf_append, textOf_cons]
  rfl

/-- Segments before a line feed are cut as if nothing came behind them. -/
theorem IsCut.append_lineFeed {a b : List Segment} (ha : IsCut a) (hb : IsCut b)
    (closed : ∀ contents, .openString contents ∉ a) : IsCut (a ++ .blank '\n' :: b) := by
  induction a with
  | nil =>
      have hfeed : '\n'.isWhitespace := by decide
      exact ⟨hfeed, trivial, hb⟩
  | cons segment later ih =>
      obtain ⟨form, ends, cut⟩ := ha
      have hclosed : ∀ contents, segment ≠ .openString contents := by
        intro contents hsegment
        apply closed contents
        rw [hsegment]
        exact List.mem_cons_self
      have hlater : ∀ contents, .openString contents ∉ later := by
        intro contents hmem
        exact closed contents (List.mem_cons_of_mem segment hmem)
      refine ⟨form, ?_, ih cut hlater⟩
      show segment.EndsBefore (textOf (later ++ .blank '\n' :: b))
      rw [textOf_joined]
      exact ends.append_blank _ (by decide) (fun _ _ => rfl) hclosed

end Segment

namespace Scan

open Segment

theorem openString_not_mem_cutOf {source : List Char}
    (closed : ∀ error ∈ faults source, error.2 ≠ .unterminatedString) (contents : List Char) :
    .openString contents ∉ cutOf source := by
  intro hmem
  obtain ⟨placed, hplaced, hsegment⟩ := List.mem_map.mp hmem
  have hfault : placed.fault? = some (placed.offset, .unterminatedString) := by
    rw [Placed.fault?, hsegment]
    rfl
  exact closed _ (List.mem_filterMap.mpr ⟨placed, hplaced, hfault⟩) rfl

theorem cutOf_joined {a : List Char} (b : List Char)
    (closed : ∀ error ∈ faults a, error.2 ≠ .unterminatedString) :
    cutOf (a ++ '\n' :: b) = cutOf a ++ .blank '\n' :: cutOf b := by
  rw [cutOf_eq_iff]
  constructor
  · exact (isCut_cutOf a).append_lineFeed (isCut_cutOf b) (openString_not_mem_cutOf closed)
  · rw [textOf_joined, textOf_cutOf, textOf_cutOf]

theorem properTokens_joined {a : List Char} (b : List Char)
    (closed : ∀ error ∈ faults a, error.2 ≠ .unterminatedString) :
    properTokens (a ++ '\n' :: b) =
      properTokens a ++ (properTokens b).map (·.shift (Text.byteLength a + 1)) := by
  have hblank (offset : Nat) (later : List Segment) :
      tokensFrom offset (.blank '\n' :: later) = tokensFrom (offset + 1) later := rfl
  rw [properTokens_eq, cutOf_joined b closed, tokensFrom_append, textOf_cutOf, hblank,
    Nat.add_assoc, tokensFrom_add, ← properTokens_eq, ← properTokens_eq]

theorem faults_joined {a : List Char} (b : List Char)
    (closed : ∀ error ∈ faults a, error.2 ≠ .unterminatedString) :
    faults (a ++ '\n' :: b) =
      faults a ++ (faults b).map fun error => (error.1 + (Text.byteLength a + 1), error.2) := by
  have hblank (offset : Nat) (later : List Segment) :
      faultsFrom offset (.blank '\n' :: later) = faultsFrom (offset + 1) later := rfl
  rw [faults_eq, cutOf_joined b closed, faultsFrom_append, textOf_cutOf, hblank,
    Nat.add_assoc, faultsFrom_add, ← faults_eq, ← faults_eq]

theorem ofFault_joined_left {a : List Char} (b : List Char) {error : Nat × Fault}
    (h : error ∈ faults a) :
    Diagnostic.ofFault (a ++ '\n' :: b) error.1 error.2 =
      Diagnostic.ofFault a error.1 error.2 := by
  rw [Diagnostic.ofFault, Location.ofOffset_append_left b (le_of_mem_faults h), Diagnostic.ofFault]

theorem ofFault_joined_right (a b : List Char) (error : Nat × Fault) :
    Diagnostic.ofFault (a ++ '\n' :: b) (error.1 + (Text.byteLength a + 1)) error.2 =
      (Diagnostic.ofFault b error.1 error.2).below (1 + a.count '\n') := by
  rw [Diagnostic.ofFault, Nat.add_comm error.1, Location.ofOffset_append_right, Nat.add_comm 1]
  rfl

end Scan

/-- The scan of two texts joined by a line feed, the first of which leaves no string open, is the
scan of the first without its closing token, and behind it the scan of the second, further on by
the bytes and further down by the lines that stand before it. -/
theorem scan_append_lineFeed (a b : String)
    (closed : ∀ record ∈ (Scan.ofText a).diagnostics,
      record.message ≠ Fault.unterminatedString.message) :
    (Scan.ofText (a ++ "\n" ++ b)).tokens =
        (Scan.ofText a).tokens.dropLast ++
          (Scan.ofText b).tokens.map (·.shift (a.utf8ByteSize + 1)) ∧
      (Scan.ofText (a ++ "\n" ++ b)).diagnostics =
        (Scan.ofText a).diagnostics ++
          (Scan.ofText b).diagnostics.map (·.below (1 + a.toList.count '\n')) := by
  have hsource : (a ++ "\n" ++ b).toList = a.toList ++ '\n' :: b.toList := by
    simp
  have hsize : (a ++ "\n" ++ b).utf8ByteSize = b.utf8ByteSize + (a.utf8ByteSize + 1) := by
    have hfeed : "\n".utf8ByteSize = 1 := by decide
    rw [String.utf8ByteSize_append, String.utf8ByteSize_append, hfeed]
    omega
  have hclosed : ∀ error ∈ Scan.faults a.toList, error.2 ≠ .unterminatedString := by
    intro error herror hfault
    apply closed _ (List.mem_map_of_mem herror)
    rw [← hfault]
    rfl
  constructor
  · have hlast : (Token.endOfFile b.utf8ByteSize).shift (a.utf8ByteSize + 1) =
        Token.endOfFile (b.utf8ByteSize + (a.utf8ByteSize + 1)) := rfl
    rw [Scan.ofText_tokens, Scan.ofText_tokens, Scan.ofText_tokens, hsource, hsize,
      Scan.properTokens_joined _ hclosed, List.dropLast_concat, List.map_append,
      List.map_singleton, hlast, List.append_assoc, Text.byteLength_toList]
  · rw [Scan.ofText_diagnostics, Scan.ofText_diagnostics, Scan.ofText_diagnostics, hsource,
      Scan.faults_joined _ hclosed, List.map_append, List.map_map, List.map_map]
    congr 1
    · apply List.map_congr_left
      intro error herror
      exact Scan.ofFault_joined_left _ herror
    · apply List.map_congr_left
      intro error herror
      exact Scan.ofFault_joined_right _ _ error

/-- A string over two lines, a stray character and a point behind a number, before a string that
stays open. -/
theorem scan_append_lineFeed_behind_point :
    (∀ record ∈ (Scan.ofText "\"1\n2\" @ 1.").diagnostics,
      record.message ≠ Fault.unterminatedString.message) ∧
    (Scan.ofText ("\"1\n2\" @ 1." ++ "\n" ++ "5 \"é")).tokens =
        (Scan.ofText "\"1\n2\" @ 1.").tokens.dropLast ++
          (Scan.ofText "5 \"é").tokens.map (·.shift 11) ∧
      (Scan.ofText ("\"1\n2\" @ 1." ++ "\n" ++ "5 \"é")).diagnostics =
        (Scan.ofText "\"1\n2\" @ 1.").diagnostics ++
          (Scan.ofText "5 \"é").diagnostics.map (·.below 2) := by
  have closed : ∀ record ∈ (Scan.ofText "\"1\n2\" @ 1.").diagnostics,
      record.message ≠ Fault.unterminatedString.message := by
    decide +kernel
  exact ⟨closed, scan_append_lineFeed "\"1\n2\" @ 1." "5 \"é" closed⟩

end Lexis
