import Lexis.Proofs.ErrorAutomaton
import Lexis.Proofs.Writing

/-!
# Carets out of range

A sink that takes everything still does not get every report: a caret can be set no further right
than the last caret column, and a record of a scan may lie beyond it. Its header and its line are
written, and there the report breaks off.
-/

namespace Lexis

namespace Sink

theorem unlimited_writeAll_error (texts : List String) (cause : WriteError) (later : List Piece) :
    unlimited.writeAll (texts.map .ok ++ .error cause :: later) =
      (⟨none, (String.join texts).toUTF8⟩, some cause) := by
  rw [writeAll_append, unlimited, empty, writeAll_of_no_limit, ByteArray.empty_append]
  rfl

theorem error_not_mem_of_writeAll {sink : Sink} {pieces : List Piece}
    (h : (sink.writeAll pieces).2 = none) (cause : WriteError) : .error cause ∉ pieces := by
  induction pieces generalizing sink with
  | nil => exact List.not_mem_nil
  | cons piece later ih =>
      cases piece with
      | error other => simp [writeAll] at h
      | ok text =>
          rw [writeAll] at h
          rcases hwrite : sink.write text with ⟨next, taken⟩
          rw [hwrite] at h
          cases taken with
          | false => simp at h
          | true =>
              rw [List.mem_cons, not_or]
              exact ⟨by simp, ih h⟩

end Sink

namespace ErrorLog

variable {log : ErrorLog}

theorem pieces_of_lt_column {record : Diagnostic} {context : String} (filename : Option String)
    (hcontext : record.context = some context)
    (hcolumn : Diagnostic.lastCaretColumn < record.position.column) :
    record.pieces filename =
      (record.headerTexts filename ++ [Diagnostic.contextLine context]).map .ok ++
        [.error .caretOutOfRange] := by
  rw [Diagnostic.pieces_eq_append, hcontext, List.map_append, List.append_assoc,
    Diagnostic.caretPiece, if_neg (Nat.not_le.mpr hcolumn)]
  rfl

/-- A report breaks off behind the line of the first record whose caret is out of range. -/
theorem writeReport_of_first_out_of_range {before after : List Diagnostic} {record : Diagnostic}
    {context : String} (hrecords : log.records = before ++ record :: after)
    (hbefore : ∀ other ∈ before, other.CaretInRange) (hcontext : record.context = some context)
    (hcolumn : Diagnostic.lastCaretColumn < record.position.column) :
    log.writeReport Sink.unlimited =
      (⟨none, (String.join (before.map (Diagnostic.block log.filename)) ++
          record.headerLine log.filename ++ Diagnostic.contextLine context).toUTF8⟩,
        some .caretOutOfRange) := by
  have hcarets : (⟨log.filename, before⟩ : ErrorLog).CaretsInRange := hbefore
  have hfront : before.flatMap (Diagnostic.pieces log.filename) =
      (before.flatMap (Diagnostic.texts log.filename)).map .ok :=
    reportPieces_of_caretsInRange hcarets
  have hpieces : log.reportPieces =
      (before.flatMap (Diagnostic.texts log.filename) ++ (record.headerTexts log.filename ++
        [Diagnostic.contextLine context])).map .ok ++
        .error .caretOutOfRange :: after.flatMap (Diagnostic.pieces log.filename) := by
    rw [reportPieces, hrecords, List.flatMap_append, List.flatMap_cons, hfront,
      pieces_of_lt_column log.filename hcontext hcolumn]
    simp only [List.map_append, List.append_assoc, List.singleton_append]
  rw [writeReport, hpieces, Sink.unlimited_writeAll_error, String.join_append, String.join_append,
    join_flatMap_texts, Diagnostic.join_headerTexts, String.append_assoc]
  simp

theorem exists_renders_iff : (∃ text, log.Renders text) ↔ log.CaretsInRange := by
  constructor
  · rintro ⟨text, hrenders⟩ record hrecord hcontext
    have hdone : (log.writeReport Sink.unlimited).2 = none := congrArg Prod.snd hrenders
    obtain ⟨context, hcontext⟩ := Option.isSome_iff_exists.mp hcontext
    by_contra hcolumn
    apply Sink.error_not_mem_of_writeAll hdone .caretOutOfRange
    apply List.mem_flatMap.mpr
    refine ⟨record, hrecord, ?_⟩
    rw [pieces_of_lt_column log.filename hcontext (Nat.lt_of_not_le hcolumn)]
    exact List.mem_append_right _ (List.mem_singleton_self _)
  · intro hcarets
    exact ⟨_, renders_of_caretsInRange hcarets⟩

def ofScan (filename : Option String) (source : String) : ErrorLog :=
  ((empty filename).scanText source).1

theorem ofScan_records (filename : Option String) (source : String) :
    (ofScan filename source).records = (Scan.ofText source).diagnostics := rfl

end ErrorLog

namespace Scan

theorem exists_context {source : String} {record : Diagnostic}
    (h : record ∈ (ofText source).diagnostics) : ∃ context, record.context = some context := by
  rw [ofText_diagnostics, List.mem_map] at h
  obtain ⟨error, -, rfl⟩ := h
  exact ⟨_, rfl⟩

theorem caretsInRange_iff (filename : Option String) (source : String) :
    (ErrorLog.ofScan filename source).CaretsInRange ↔
      ∀ record ∈ (ErrorLog.ofScan filename source).records,
        record.position.column ≤ Diagnostic.lastCaretColumn := by
  constructor
  · intro hcarets record hrecord
    obtain ⟨context, hcontext⟩ := exists_context hrecord
    exact hcarets record hrecord (by rw [hcontext]; rfl)
  · intro hcolumns record hrecord _
    exact hcolumns record hrecord

/-! ## One line with a stray character at its end -/

/-- A line of blanks with a character behind them that starts no token. -/
def strayBehind (blanks : Nat) : String := String.ofList (List.replicate blanks ' ' ++ ['@'])

theorem byteLength_replicate_blank (count : Nat) :
    Text.byteLength (List.replicate count ' ') = count := by
  induction count with
  | zero => rfl
  | succ count ih =>
      have hblank : ' '.utf8Size = 1 := by decide
      rw [List.replicate_succ, Text.byteLength_cons, ih, hblank, Nat.add_comm]

theorem faults_blanks_stray (count : Nat) :
    faults (List.replicate count ' ' ++ ['@']) = [(count, .unexpectedCharacter)] := by
  have hplain : ∀ c ∈ List.replicate count ' ', Mode.IsPlain c := by
    intro c hc
    rw [List.eq_of_mem_replicate hc]
    exact Mode.isPlain_of_isWhitespace (by decide)
  rw [← Mode.errors_eq_faults, Mode.errors_code_append 0 _ hplain, byteLength_replicate_blank,
    Nat.zero_add]
  rfl

theorem records_strayBehind (filename : Option String) (blanks : Nat) :
    (ErrorLog.ofScan filename (strayBehind blanks)).records =
      [⟨⟨1, blanks + 1⟩, "Unexpected character.", some (strayBehind blanks)⟩] := by
  have hline : '\n' ∉ List.replicate blanks ' ' ++ ['@'] := by
    rw [List.mem_append, not_or]
    exact ⟨fun h => absurd (List.eq_of_mem_replicate h) (by decide), by decide⟩
  have hblanks : blanks ≤ Text.byteLength (List.replicate blanks ' ' ++ ['@']) := by
    rw [Text.byteLength_append, byteLength_replicate_blank]
    exact Nat.le_add_right _ _
  have hlocation : Location.ofOffset (List.replicate blanks ' ' ++ ['@']) blanks =
      ⟨⟨1, blanks + 1⟩, List.replicate blanks ' ' ++ ['@']⟩ := by
    rw [Location.ofOffset, Nat.min_eq_left hblanks, Location.linesOf_of_not_mem hline,
      Location.find_here hblanks]
  rw [ErrorLog.ofScan_records, strayBehind, ofText_diagnostics, String.toList_ofList,
    faults_blanks_stray, List.map_singleton, Diagnostic.ofFault, hlocation]
  rfl

end Scan

/-- The report of a scan is written to its end, a block for every record, exactly if no record has
a column beyond 65535. Otherwise it breaks off at the first that has, behind the line of the text
and before the caret. -/
theorem scan_report_completes_iff (filename : Option String) (source : String) :
    ((ErrorLog.ofScan filename source).Renders
          (String.join ((ErrorLog.ofScan filename source).records.map
            (Diagnostic.block filename))) ↔
        ∀ record ∈ (ErrorLog.ofScan filename source).records, record.position.column ≤ 65535) ∧
      ((∃ text, (ErrorLog.ofScan filename source).Renders text) ↔
        ∀ record ∈ (ErrorLog.ofScan filename source).records, record.position.column ≤ 65535) ∧
      (∀ before record after,
        (ErrorLog.ofScan filename source).records = before ++ record :: after →
        (∀ other ∈ before, other.position.column ≤ 65535) → 65535 < record.position.column →
        ∃ line, record.context = some line ∧
          (ErrorLog.ofScan filename source).writeReport Sink.unlimited =
            (⟨none, (String.join (before.map (Diagnostic.block filename)) ++
                record.headerLine filename ++ Diagnostic.contextLine line).toUTF8⟩,
              some .caretOutOfRange)) := by
  have hcolumns := Scan.caretsInRange_iff filename source
  refine ⟨?_, ErrorLog.exists_renders_iff.trans hcolumns, ?_⟩
  · constructor
    · intro hrenders
      exact hcolumns.mp (ErrorLog.exists_renders_iff.mp ⟨_, hrenders⟩)
    · intro hall
      exact ErrorLog.renders_of_caretsInRange (hcolumns.mpr hall)
  · intro before record after hrecords hbefore hcolumn
    have hmem : record ∈ (ErrorLog.ofScan filename source).records := by
      rw [hrecords]
      exact List.mem_append_right _ List.mem_cons_self
    obtain ⟨line, hcontext⟩ := Scan.exists_context hmem
    exact ⟨line, hcontext, ErrorLog.writeReport_of_first_out_of_range hrecords
      (fun other hother _ => hbefore other hother) hcontext hcolumn⟩

theorem Diagnostic.headerLine_column_65536 (context : Option String) :
    headerLine none ⟨⟨1, 65536⟩, "Unexpected character.", context⟩ =
      "1:65536 error: Unexpected character.\n" := by
  have hposition : Position.display ⟨1, 65536⟩ = "1:65536" := by decide +kernel
  simp only [headerLine, display, hposition]
  decide

/-- Of a stray character behind 65535 blanks the header and the line are written, but no caret. -/
theorem scan_report_completes_iff_column_65536 :
    (ErrorLog.ofScan none (Scan.strayBehind 65535)).records =
        [⟨⟨1, 65536⟩, "Unexpected character.", some (Scan.strayBehind 65535)⟩] ∧
      (ErrorLog.ofScan none (Scan.strayBehind 65535)).writeReport Sink.unlimited =
        (⟨none, ("1:65536 error: Unexpected character.\n" ++
            ("    " ++ Scan.strayBehind 65535 ++ "\n")).toUTF8⟩,
          some .caretOutOfRange) := by
  have hrecords := Scan.records_strayBehind none 65535
  obtain ⟨-, -, hbreaks⟩ := scan_report_completes_iff none (Scan.strayBehind 65535)
  obtain ⟨line, hline, hwrite⟩ := hbreaks [] _ [] hrecords (List.forall_mem_nil _) (by decide)
  refine ⟨hrecords, ?_⟩
  rw [hwrite, Diagnostic.headerLine_column_65536, ← Option.some.inj hline, List.map_nil,
    String.join_nil, String.empty_append, Diagnostic.contextLine]

theorem report_of_long_line_is_not_written :
    ¬ ∃ text, (ErrorLog.ofScan none (Scan.strayBehind 65535)).Renders text := by
  intro hrenders
  have hcolumns := (Scan.caretsInRange_iff none _).mp (ErrorLog.exists_renders_iff.mp hrenders)
  rw [Scan.records_strayBehind] at hcolumns
  exact absurd (hcolumns _ (List.mem_singleton_self _)) (by decide)

end Lexis
