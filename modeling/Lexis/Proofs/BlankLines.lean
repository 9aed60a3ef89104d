import Lexis.Proofs.ErrorAutomaton
import Lexis.Proofs.Session
import Mathlib.Data.List.TakeWhile

/-!
# Lines that the prompt passes over

The prompt passes over a line of white space and reports the faults of every other line that it
reads. White space is more than the blanks of the source language: a line of it can have faults,
one for each character that is not such a blank, and none of them is reported.
-/

namespace Lexis

namespace Text

theorem trim_eq_nil_iff {text : List Char} : trim text = [] ↔ ∀ c ∈ text, isWhiteSpace c := by
  rw [trim, List.reverse_eq_nil_iff, trimStart, List.dropWhile_eq_nil_iff]
  constructor
  · intro h c hc
    rw [← List.takeWhile_append_dropWhile (p := isWhiteSpace) (l := text), List.mem_append] at hc
    rcases hc with front | rest
    · exact forall_takeWhile isWhiteSpace text c front
    · exact h c (List.mem_reverse.mpr rest)
  · intro h c hc
    exact h c ((List.dropWhile_sublist _).subset (List.mem_reverse.mp hc))

theorem not_isWhiteSpace_of_isAlphanum {c : Char} (h : c.isAlphanum) : ¬ isWhiteSpace c := by
  have hrange : ('A'.val ≤ c.val ∧ c.val ≤ 'Z'.val) ∨ ('a'.val ≤ c.val ∧ c.val ≤ 'z'.val) ∨
      ('0'.val ≤ c.val ∧ c.val ≤ '9'.val) := by
    rcases Bool.or_eq_true_iff.mp h with alpha | digit
    · rcases Bool.or_eq_true_iff.mp alpha with upper | lower
      · exact .inl (of_decide_eq_true upper)
      · exact .inr (.inl (by simpa only [decide_eq_true_eq] using Bool.and_eq_true_iff.mp lower))
    · exact .inr (.inr (by simpa only [decide_eq_true_eq] using Bool.and_eq_true_iff.mp digit))
  intro hwhite
  simp only [isWhiteSpace, Bool.or_eq_true, Bool.and_eq_true, decide_eq_true_eq, beq_iff_eq,
    UInt32.le_iff_toNat_le, ← UInt32.toNat_inj, UInt32.reduceToNat] at hwhite
  simp only [UInt32.le_iff_toNat_le, Char.reduceVal, UInt32.reduceToNat] at hrange
  omega

end Text

namespace Mode

theorem accepts_iff_of_isWhiteSpace {c : Char} (h : Text.isWhiteSpace c) :
    accepts c ↔ c.isWhitespace := by
  constructor
  · intro haccepts
    have hblanks : [' ', '\t', '\r', '\n'].all (·.isWhitespace) := by decide
    have hoperators : ['(', ')', '\x7b', '\x7d', ',', '.', '-', '+', ';', '*', '!', '=', '<', '>',
        '/'].all (!Text.isWhiteSpace ·) := by decide
    simp only [accepts, Bool.or_eq_true, List.contains_eq_mem, decide_eq_true_eq] at haccepts
    rcases haccepts with ((blank | alpha) | digit) | operator
    · exact List.all_eq_true.mp hblanks c blank
    · exact absurd h (Text.not_isWhiteSpace_of_isAlphanum (isAlphanum_of_isAlpha alpha))
    · exact absurd h (Text.not_isWhiteSpace_of_isAlphanum (isAlphanum_of_isDigit digit))
    · simpa [h] using List.all_eq_true.mp hoperators c operator
  · intro hblank
    exact (isPlain_of_isWhitespace hblank).accepted

theorem length_errors_of_isWhiteSpace (offset : Nat) {text : List Char}
    (h : ∀ c ∈ text, Text.isWhiteSpace c) :
    (code.errors offset text).length = text.countP (!·.isWhitespace) := by
  induction text generalizing offset with
  | nil => rfl
  | cons c later ih =>
      obtain ⟨hc, hlater⟩ := List.forall_mem_cons.mp h
      have hquote : c ≠ '"' := by
        rintro rfl
        contradiction
      have hslash : ¬ (c = '/' ∧ later.head? = some '/') := by
        rintro ⟨rfl, -⟩
        contradiction
      rw [errors_cons, step, if_neg hquote, if_neg hslash, List.countP_cons]
      by_cases hblank : c.isWhitespace
      · rw [if_pos ((accepts_iff_of_isWhiteSpace hc).mpr hblank), hblank]
        exact ih _ hlater
      · rw [if_neg (mt (accepts_iff_of_isWhiteSpace hc).mp hblank)]
        simp [ih _ hlater, hblank]

end Mode

/-! ## What was written before plays no part -/

theorem Sink.writeAll_of_held (held : ByteArray) (pieces : List Piece) :
    (⟨none, held⟩ : Sink).writeAll pieces =
      (⟨none, held ++ (unlimited.writeAll pieces).1.held⟩, (unlimited.writeAll pieces).2) := by
  induction pieces generalizing held with
  | nil => rw [writeAll_nil, writeAll_nil, unlimited, empty, ByteArray.append_empty]
  | cons piece later ih =>
      cases piece with
      | error cause => rw [writeAll, writeAll, unlimited, empty, ByteArray.append_empty]
      | ok text =>
          have hstep (held : ByteArray) : (⟨none, held⟩ : Sink).writeAll (.ok text :: later) =
              (⟨none, held ++ text.toUTF8⟩ : Sink).writeAll later := by
            rw [writeAll, write_of_no_limit text rfl]
          have hfirst : unlimited.writeAll (.ok text :: later) =
              (⟨none, text.toUTF8 ++ (unlimited.writeAll later).1.held⟩,
                (unlimited.writeAll later).2) := by
            rw [unlimited, empty, hstep, ByteArray.empty_append]
            exact ih text.toUTF8
          rw [hstep, ih, hfirst, ByteArray.append_assoc]

namespace Prompt

theorem showText_of_held (line : String) (held : ByteArray) :
    showText line ⟨none, held⟩ =
      (⟨none, held ++ (showText line Sink.unlimited).1.held⟩,
        (showText line Sink.unlimited).2) := by
  have hshow (held : ByteArray) : showText line ⟨none, held⟩ =
      ((ErrorLog.empty none).append (Scan.ofText line).diagnostics).writeReport
        ⟨none, held ++ (Listing.ofText line).toUTF8⟩ := by
    rw [showText, ErrorLog.list_of_no_limit]
  rw [Sink.unlimited, Sink.empty, hshow, hshow, ErrorLog.writeReport, Sink.writeAll_of_held,
    ErrorLog.writeReport, Sink.writeAll_of_held (.empty ++ _), ByteArray.empty_append,
    ByteArray.append_assoc]

def output (line : Except LineError String) : ByteArray := (answer line Sink.unlimited).1.held

def ending? (line : Except LineError String) : Option Ending := (answer line Sink.unlimited).2

theorem answer_eq (line : Except LineError String) (held : ByteArray) :
    answer line ⟨none, held⟩ = (⟨none, held ++ output line⟩, ending? line) := by
  rw [output, ending?]
  cases line with
  | error cause => rw [answer, answer, Sink.unlimited, Sink.empty, ByteArray.append_empty]
  | ok line =>
      rw [answer, answer]
      by_cases hleave : isFarewell line
      · rw [if_pos hleave, if_pos hleave, Sink.write_of_no_limit _ rfl,
          Sink.write_of_no_limit _ rfl, Sink.unlimited, Sink.empty, ByteArray.empty_append]
      · rw [if_neg hleave, if_neg hleave]
        by_cases hblank : isBlank line
        · rw [if_pos hblank, if_pos hblank, Sink.unlimited, Sink.empty, ByteArray.append_empty]
        · rw [if_neg hblank, if_neg hblank, showText_of_held]
          rcases showText line Sink.unlimited with ⟨sink, _ | cause⟩ <;> rfl

theorem converse_cons (held : ByteArray) (line : Except LineError String)
    (later : List (Except LineError String)) :
    converse ⟨none, held⟩ (line :: later) =
      match ending? line with
      | none => converse ⟨none, held ++ output line⟩ later
      | some ending => (⟨none, held ++ output line⟩, ending) := by
  rw [converse, answer_eq]
  cases ending? line <;> rfl

theorem converse_of_held (held : ByteArray) (lines : List (Except LineError String)) :
    converse ⟨none, held⟩ lines =
      (⟨none, held ++ (converse Sink.unlimited lines).1.held⟩,
        (converse Sink.unlimited lines).2) := by
  induction lines generalizing held with
  | nil =>
      rw [converse, converse, Sink.write_of_no_limit _ rfl, Sink.write_of_no_limit _ rfl,
        Sink.unlimited, Sink.empty, ByteArray.empty_append]
  | cons line later ih =>
      rw [Sink.unlimited, Sink.empty, converse_cons, converse_cons, ByteArray.empty_append]
      cases ending? line with
      | none => simp only [ih (held ++ output line), ih (output line), ByteArray.append_assoc]
      | some ending => rfl

/-! ## Lines that are read -/

/-- The prompt reads the line: no line before it ends the session. -/
structure Reads (edit : Editor) (input : ByteArray) (before : List (Except LineError String))
    (line : String) (later : List (Except LineError String)) : Prop where
  lines_eq : linesOf edit input = before ++ .ok line :: later
  goes_on : ∀ earlier ∈ before, ending? earlier = none

theorem converse_append_of_goes_on (held : ByteArray) {before : List (Except LineError String)}
    (rest : List (Except LineError String)) (h : ∀ earlier ∈ before, ending? earlier = none) :
    converse ⟨none, held⟩ (before ++ rest) =
      converse ⟨none, held ++ joined (before.map output)⟩ rest := by
  have answers : ∀ earlier ∈ before, ∀ held : ByteArray,
      answer (id earlier) ⟨none, held⟩ = (⟨none, held ++ output earlier⟩, none) := by
    intro earlier hearlier held
    rw [id, answer_eq, h earlier hearlier]
  have hconverse := converse_append_of_answers held rest answers
  rwa [List.map_id] at hconverse

theorem answer_of_trim_eq_nil {line : String} (h : Text.trim line.toList = []) :
    output (.ok line) = .empty ∧ ending? (.ok line) = none := by
  have hstays : ¬ isFarewell line := by
    rw [isFarewell_iff, AsksToLeave, h]
    decide
  rw [output, ending?, answer, if_neg hstays, if_pos (isBlank_iff.mpr h)]
  exact ⟨rfl, rfl⟩

theorem answer_of_trim_ne_nil {line : String} (stays : ¬ AsksToLeave line)
    (columns : Scan.ColumnsInRange line) (h : Text.trim line.toList ≠ []) :
    output (.ok line) = (Outcome.printed none line).toUTF8 ∧ ending? (.ok line) = none := by
  rw [← isFarewell_iff] at stays
  rw [output, ending?, answer, if_neg stays, if_neg (isBlank_iff.not.mpr h), Sink.unlimited,
    Sink.empty, showText_of_no_limit _ columns]
  exact ⟨ByteArray.empty_append, rfl⟩

end Prompt

namespace Outcome

theorem stdout_ofSession (platform : Platform) (sink : Sink) (ending : Prompt.Ending) :
    (ofSession platform (sink, ending)).stdout = sink.held := by
  cases ending with
  | unreadable cause => cases cause <;> rfl
  | broken cause => cases cause <;> rfl
  | _ => rfl

theorem stdout_of_reads {platform : Platform} (read : FileReader) {input : ByteArray}
    {line : String} {before later : List (Except Prompt.LineError String)}
    (reads : Prompt.Reads platform.edit input before line later)
    (goesOn : Prompt.ending? (.ok line) = none) :
    (ofInvocationOn platform [] read input).stdout =
      bannerText.toUTF8 ++ Prompt.joined (before.map Prompt.output) ++ Prompt.output (.ok line) ++
        (Prompt.converse Sink.unlimited later).1.held := by
  rw [ofInvocationOn_nil, reads.lines_eq, Prompt.converse_append_of_goes_on _ _ reads.goes_on,
    Prompt.converse_cons, goesOn]
  simp only
  rw [Prompt.converse_of_held, stdout_ofSession]

end Outcome

/-- Of a line that the prompt reads, does not leave at, and whose carets can all be set, the listing
and the report are written in the line's place, unless the line is white space. Then nothing is
written, whatever faults the line has, and it has one for each character that is not a blank of the
source language. -/
theorem prompt_reports_all_but_white_space (platform : Platform) (read : FileReader)
    {input : ByteArray} {line : String} {before later : List (Except Prompt.LineError String)}
    (reads : Prompt.Reads platform.edit input before line later) (stays : ¬ Prompt.AsksToLeave line)
    (columns : Scan.ColumnsInRange line) :
    ((∃ c ∈ line.toList, ¬ Text.isWhiteSpace c) →
      (Outcome.ofInvocationOn platform [] read input).stdout =
        bannerText.toUTF8 ++ Prompt.joined (before.map Prompt.output) ++
          (Listing.ofText line ++
            (⟨none, (Scan.ofText line).diagnostics⟩ : ErrorLog).reportText).toUTF8 ++
          (Prompt.converse Sink.unlimited later).1.held) ∧
    ((∀ c ∈ line.toList, Text.isWhiteSpace c) →
      (Outcome.ofInvocationOn platform [] read input).stdout =
        bannerText.toUTF8 ++ Prompt.joined (before.map Prompt.output) ++
          (Prompt.converse Sink.unlimited later).1.held ∧
      (Scan.ofText line).diagnostics.length = line.toList.countP (!·.isWhitespace)) := by
  constructor
  · rintro ⟨c, hc, hwhite⟩
    have hshown : Text.trim line.toList ≠ [] := by
      intro hblank
      exact hwhite (Text.trim_eq_nil_iff.mp hblank c hc)
    obtain ⟨houtput, hgoesOn⟩ := Prompt.answer_of_trim_ne_nil stays columns hshown
    rw [Outcome.stdout_of_reads read reads hgoesOn, houtput, Outcome.printed]
  · intro hwhite
    obtain ⟨houtput, hgoesOn⟩ := Prompt.answer_of_trim_eq_nil (Text.trim_eq_nil_iff.mpr hwhite)
    constructor
    · rw [Outcome.stdout_of_reads read reads hgoesOn, houtput, ByteArray.append_empty]
    · rw [Scan.ofText_diagnostics_length, ← Mode.errors_eq_faults,
        Mode.length_errors_of_isWhiteSpace 0 hwhite]

theorem prompt_reports_all_but_white_space_around_no_break_space :
    let read : FileReader := fun _ => .error .notFound
    let input := "1\n\u00A0@\n\u00A0\n".toUTF8
    ((Outcome.ofInvocation [] read input).stdout =
      bannerText.toUTF8 ++ Prompt.joined ([.ok "1"].map Prompt.output) ++
        (Listing.ofText "\u00A0@" ++
          (⟨none, (Scan.ofText "\u00A0@").diagnostics⟩ : ErrorLog).reportText).toUTF8 ++
        (Prompt.converse Sink.unlimited [.ok "\u00A0"]).1.held) ∧
    (Outcome.ofInvocation [] read input).stdout =
      bannerText.toUTF8 ++ Prompt.joined ([.ok "1", .ok "\u00A0@"].map Prompt.output) ++
        (Prompt.converse Sink.unlimited []).1.held ∧
    (Scan.ofText "\u00A0").diagnostics.length = 1 := by
  intro read input
  have hlines : Prompt.linesOf Platform.standard.edit input =
      [.ok "1", .ok "\u00A0@", .ok "\u00A0"] := by decide +kernel
  have reads : Prompt.Reads Platform.standard.edit input [.ok "1"] "\u00A0@" [.ok "\u00A0"] :=
    ⟨hlines, by decide +kernel⟩
  have readsBlank :
      Prompt.Reads Platform.standard.edit input [.ok "1", .ok "\u00A0@"] "\u00A0" [] :=
    ⟨hlines, by decide +kernel⟩
  have reported := (prompt_reports_all_but_white_space .standard read reads (by decide +kernel)
    (by decide +kernel)).1 ⟨'@', by decide, by decide⟩
  have silent := (prompt_reports_all_but_white_space .standard read readsBlank (by decide +kernel)
    (by decide +kernel)).2 (List.all_eq_true.mp (by decide +kernel))
  exact ⟨reported, silent.1, silent.2⟩

/-- A line of one no-break space has a fault, and no part of the output is its report. -/
theorem fault_of_blank_line_is_not_reported :
    let input := "\u00A0\n".toUTF8
    Prompt.Reads Platform.standard.edit input [] "\u00A0" [] ∧ ¬ Prompt.AsksToLeave "\u00A0" ∧
    Scan.ColumnsInRange "\u00A0" ∧ (Scan.ofText "\u00A0").diagnostics ≠ [] ∧
    ∀ before after : ByteArray,
      (Outcome.ofInvocation [] (fun _ => .error .notFound) input).stdout ≠
        before ++ (⟨none, (Scan.ofText "\u00A0").diagnostics⟩ : ErrorLog).reportText.toUTF8 ++
          after := by
  intro input
  refine ⟨⟨by decide +kernel, by decide⟩, by decide +kernel, by decide +kernel,
    by decide +kernel, ?_⟩
  intro before after hstdout
  have hcaret : ('^'.toUInt8) ∈
      (⟨none, (Scan.ofText "\u00A0").diagnostics⟩ : ErrorLog).reportText.toUTF8.data := by
    decide +kernel
  have hnone : ('^'.toUInt8) ∉
      (Outcome.ofInvocation [] (fun _ => .error .notFound) input).stdout.data := by
    decide +kernel
  rw [hstdout] at hnone
  simp only [ByteArray.data_append, Array.mem_append, not_or] at hnone
  exact hnone.1.2 hcaret

end Lexis
