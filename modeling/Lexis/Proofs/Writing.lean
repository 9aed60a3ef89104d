import Lexis.Listing
import Mathlib.Data.List.Basic

/-!
# What a sink keeps of a listing and of a report

Listings and reports reach a sink in many small pieces. What the sink holds in the end depends on
the text that the pieces make together and on the limit, never on where one piece ends and the next
begins. A sink that is full changes neither the tokens nor the log.
-/

namespace Lexis

/-! ## Texts in pieces -/

namespace Sink

/-- What an empty sink keeps of a text: as many of its first bytes as the limit allows. -/
def kept (limit : Option Nat) (text : String) : ByteArray :=
  match limit with
  | none => text.toUTF8
  | some count => text.toUTF8.extract 0 (min count text.utf8ByteSize)

/-- The limit, if there is one, leaves room for the whole text. -/
def Fits (limit : Option Nat) (text : String) : Prop := ∀ count ∈ limit, text.utf8ByteSize ≤ count

instance (limit : Option Nat) (text : String) : Decidable (Fits limit text) :=
  inferInstanceAs (Decidable (∀ count ∈ limit, text.utf8ByteSize ≤ count))

theorem fits_none (text : String) : Fits none text := by
  intro count hcount
  contradiction

theorem fits_some {count : Nat} {text : String} :
    Fits (some count) text ↔ text.utf8ByteSize ≤ count := by
  simp [Fits]

theorem extract_min_size (bytes : ByteArray) (count : Nat) :
    bytes.extract 0 (min count bytes.size) = bytes.extract 0 count := by
  by_cases h : count ≤ bytes.size
  · rw [Nat.min_eq_left h]
  · have hsize : bytes.data.size ≤ count := Nat.le_of_not_le h
    have hwhole := Array.extract_eq_self_of_le hsize
    rw [Nat.min_eq_right (Nat.le_of_not_le h)]
    ext1
    rw [ByteArray.data_extract, ByteArray.data_extract, hwhole]
    exact Array.extract_size

theorem writeAll_texts (limit : Option Nat) (texts : List String) :
    (empty limit).writeAll (texts.map .ok) =
      (⟨limit, kept limit (String.join texts)⟩,
        if Fits limit (String.join texts) then none else some .sinkFull) := by
  cases limit with
  | none =>
      rw [empty, writeAll_of_no_limit, if_pos (fits_none _), ByteArray.empty_append]
      rfl
  | some count =>
      have hroom : ByteArray.empty.size ≤ count := Nat.zero_le count
      have hkept : kept (some count) (String.join texts) =
          (String.join texts).toUTF8.extract 0 count := extract_min_size _ count
      rw [empty, writeAll_of_limit texts hroom, hkept, ByteArray.empty_append]
      simp [fits_some]

end Sink

/-! ## The text of a report -/

namespace Diagnostic

/-- A caret can be set under the column, or there is no line to set it under. -/
def CaretInRange (record : Diagnostic) : Prop :=
  record.context.isSome → record.position.column ≤ lastCaretColumn

def headerLine (filename : Option String) (record : Diagnostic) : String :=
  (match filename with
    | some name => name ++ ":"
    | none => "") ++
  record.display ++ "\n"

def contextLine (context : String) : String := "    " ++ context ++ "\n"

def caretLine (column : Nat) : String :=
  "    " ++ String.ofList (List.replicate (column - 1) ' ') ++ "^\n"

/-- What a report shows of one diagnostic: its header and, if its line is known, the line and a
caret under the column. -/
def block (filename : Option String) (record : Diagnostic) : String :=
  record.headerLine filename ++
  match record.context with
  | some context => contextLine context ++ caretLine record.position.column
  | none => ""

def headerTexts (filename : Option String) (record : Diagnostic) : List String :=
  (match filename with
    | some name => [name ++ ":"]
    | none => []) ++
  [record.display ++ "\n"]

theorem join_headerTexts (filename : Option String) (record : Diagnostic) :
    String.join (record.headerTexts filename) = record.headerLine filename := by
  cases filename <;> simp [headerTexts, headerLine, String.append_assoc]

def texts (filename : Option String) (record : Diagnostic) : List String :=
  record.headerTexts filename ++
  match record.context with
  | some context => [contextLine context, caretLine record.position.column]
  | none => []

theorem join_texts (filename : Option String) (record : Diagnostic) :
    String.join (record.texts filename) = record.block filename := by
  rw [texts, String.join_append, join_headerTexts, block]
  cases record.context <;> simp

theorem pieces_eq_append (filename : Option String) (record : Diagnostic) :
    record.pieces filename = (record.headerTexts filename).map .ok ++
      match record.context with
      | some context => [.ok (contextLine context), caretPiece record.position.column]
      | none => [] := by
  unfold pieces headerTexts
  cases filename <;> rfl

theorem pieces_of_caretInRange {record : Diagnostic} (filename : Option String)
    (h : record.CaretInRange) : record.pieces filename = (record.texts filename).map .ok := by
  rw [pieces_eq_append, texts, List.map_append]
  congr 1
  cases hcontext : record.context with
  | none => rfl
  | some context =>
      have hcolumn : record.position.column ≤ lastCaretColumn := h (by rw [hcontext]; rfl)
      simp only [caretPiece, if_pos hcolumn]
      rfl

end Diagnostic

namespace ErrorLog

def CaretsInRange (log : ErrorLog) : Prop := ∀ record ∈ log.records, record.CaretInRange

def reportText (log : ErrorLog) : String :=
  String.join (log.records.map (Diagnostic.block log.filename))

/-- The report, written where nothing stops it, is the text. -/
def Renders (log : ErrorLog) (text : String) : Prop :=
  log.writeReport Sink.unlimited = (⟨none, text.toUTF8⟩, none)

theorem reportPieces_of_caretsInRange {log : ErrorLog} (h : log.CaretsInRange) :
    log.reportPieces = (log.records.flatMap (Diagnostic.texts log.filename)).map .ok := by
  rw [reportPieces, List.map_flatMap]
  apply List.flatMap_congr
  intro record hrecord
  exact Diagnostic.pieces_of_caretInRange log.filename (h record hrecord)

theorem join_flatMap_texts (filename : Option String) (records : List Diagnostic) :
    String.join (records.flatMap (Diagnostic.texts filename)) =
      String.join (records.map (Diagnostic.block filename)) := by
  induction records with
  | nil => rfl
  | cons record later ih =>
      rw [List.flatMap_cons, String.join_append, ih, Diagnostic.join_texts, List.map_cons,
        String.join_cons]

/-- A report is kept like any other text, as long as every caret can be set. -/
theorem writeReport_of_caretsInRange {log : ErrorLog} (limit : Option Nat)
    (h : log.CaretsInRange) :
    log.writeReport (Sink.empty limit) =
      (⟨limit, Sink.kept limit log.reportText⟩,
        if Sink.Fits limit log.reportText then none else some .sinkFull) := by
  rw [writeReport, reportPieces_of_caretsInRange h, Sink.writeAll_texts, join_flatMap_texts]
  rfl

theorem writeReport_of_no_limit {log : ErrorLog} (held : ByteArray) (h : log.CaretsInRange) :
    log.writeReport ⟨none, held⟩ = (⟨none, held ++ log.reportText.toUTF8⟩, none) := by
  rw [writeReport, reportPieces_of_caretsInRange h, Sink.writeAll_of_no_limit,
    join_flatMap_texts]
  rfl

theorem renders_of_caretsInRange {log : ErrorLog} (h : log.CaretsInRange) :
    log.Renders log.reportText := by
  rw [Renders, Sink.unlimited, Sink.empty, writeReport_of_no_limit _ h, ByteArray.empty_append]

end ErrorLog

/-! ## Listings -/

namespace Listing

def ofText (source : String) : String :=
  String.join ((Scan.ofText source).tokens.map fun token => "Token: " ++ token.display ++ "\n")

theorem join_linePieces (token : Token) :
    String.join (linePieces token) = "Token: " ++ token.display ++ "\n" := by
  simp [linePieces, Token.display, String.append_assoc]

theorem text_eq_join_lines (tokens : List Token) :
    text tokens = String.join (tokens.map fun token => "Token: " ++ token.display ++ "\n") := by
  induction tokens with
  | nil => rfl
  | cons token later ih =>
      rw [← List.singleton_append, text_append, ih, List.map_append, String.join_append]
      congr 1
      rw [text, textPieces, List.flatMap_singleton, join_linePieces]
      simp

theorem join_textPieces (source : String) :
    String.join (textPieces (Scan.ofText source).tokens) = ofText source :=
  text_eq_join_lines _

end Listing

theorem ErrorLog.list_empty_sink (log : ErrorLog) (source : String) (limit : Option Nat) :
    log.list source (Sink.empty limit) =
      (⟨log.filename, log.records ++ (Scan.ofText source).diagnostics⟩,
        ⟨limit, Sink.kept limit (Listing.ofText source)⟩,
        if Sink.Fits limit (Listing.ofText source) then .ok (Scan.ofText source).tokens
        else .error .sinkFull) := by
  have hwrite := Sink.writeAll_texts limit (Listing.textPieces (Scan.ofText source).tokens)
  rw [Listing.join_textPieces] at hwrite
  simp only [list, scanText, Listing.pieces, hwrite]
  by_cases hfits : Sink.Fits limit (Listing.ofText source)
  · simp only [if_pos hfits, append]
  · simp only [if_neg hfits, append]

theorem ErrorLog.list_of_no_limit (log : ErrorLog) (source : String) (held : ByteArray) :
    log.list source ⟨none, held⟩ =
      (log.append (Scan.ofText source).diagnostics,
        ⟨none, held ++ (Listing.ofText source).toUTF8⟩, .ok (Scan.ofText source).tokens) := by
  have hwrite := Sink.writeAll_of_no_limit held (Listing.textPieces (Scan.ofText source).tokens)
  rw [Listing.join_textPieces] at hwrite
  simp only [list, scanText, Listing.pieces, hwrite]

theorem listNamed_of_written (filename : Option String) {source : String} {sink next : Sink}
    (h : sink.writeAll (Listing.pieces (Scan.ofText source).tokens) = (next, none)) :
    listNamed filename source sink =
      (next, if (Scan.ofText source).diagnostics = [] then .ok (Scan.ofText source).tokens
        else .error (.lexical ⟨filename, (Scan.ofText source).diagnostics⟩)) := by
  simp only [listNamed, ErrorLog.list, ErrorLog.scanText, h, ErrorLog.isEmpty, ErrorLog.empty,
    ErrorLog.append, List.nil_append, List.isEmpty_iff]

theorem listNamed_of_broken (filename : Option String) {source : String} {sink next : Sink}
    {cause : WriteError}
    (h : sink.writeAll (Listing.pieces (Scan.ofText source).tokens) = (next, some cause)) :
    listNamed filename source sink = (next, .error (.output cause)) := by
  simp only [listNamed, ErrorLog.list, ErrorLog.scanText, h]

theorem listNamed_empty_sink (filename : Option String) (source : String) (limit : Option Nat) :
    listNamed filename source (Sink.empty limit) =
      (⟨limit, Sink.kept limit (Listing.ofText source)⟩,
        if Sink.Fits limit (Listing.ofText source) then
          if (Scan.ofText source).diagnostics = [] then .ok (Scan.ofText source).tokens
          else .error (.lexical ⟨filename, (Scan.ofText source).diagnostics⟩)
        else .error (.output .sinkFull)) := by
  rw [listNamed, ErrorLog.list_empty_sink]
  by_cases hfits : Sink.Fits limit (Listing.ofText source)
  · simp only [if_pos hfits, ErrorLog.isEmpty, ErrorLog.empty, List.nil_append,
      List.isEmpty_iff]
  · simp only [if_neg hfits]

theorem Failure.message_lexical_unnamed (records : List Diagnostic) :
    (Failure.lexical ⟨none, records⟩).message =
      toString records.length ++ " lexical error(s) in <input>" := by
  have hinput : " lexical error(s) in " ++ "<input>" = " lexical error(s) in <input>" := by decide
  have hmessage : (Failure.lexical ⟨none, records⟩).message =
      toString records.length ++ " lexical error(s) in " ++ "<input>" := by
    unfold message
    simp only [Option.getD_none, ErrorLog.count]
  rw [hmessage, String.append_assoc, hinput]

/-- A limit cuts the listing of a text off at its byte, and with it the list of tokens that is
handed back; the log has all records of the text all the same. Listed with a log of its own, a text
that does not fit is an output failure whether or not it has faults. A report whose carets can all
be set is cut off in the same way. -/
theorem limit_cuts_only_output (log : ErrorLog) (source : String) (limit : Option Nat) :
    (ErrorLog.empty none).scanText source =
        (⟨none, (Scan.ofText source).diagnostics⟩, (Scan.ofText source).tokens) ∧
      log.list source (Sink.empty limit) =
        (⟨log.filename, log.records ++ (Scan.ofText source).diagnostics⟩,
          ⟨limit, Sink.kept limit (Listing.ofText source)⟩,
          if Sink.Fits limit (Listing.ofText source) then .ok (Scan.ofText source).tokens
          else .error .sinkFull) ∧
      listText source (Sink.empty limit) =
        (⟨limit, Sink.kept limit (Listing.ofText source)⟩,
          if Sink.Fits limit (Listing.ofText source) then
            if (Scan.ofText source).diagnostics = [] then .ok (Scan.ofText source).tokens
            else .error (.lexical ⟨none, (Scan.ofText source).diagnostics⟩)
          else .error (.output .sinkFull)) ∧
      (Failure.lexical ⟨none, (Scan.ofText source).diagnostics⟩).message =
        toString (Scan.ofText source).diagnostics.length ++ " lexical error(s) in <input>" ∧
      (log.CaretsInRange →
        log.writeReport (Sink.empty limit) =
          (⟨limit, Sink.kept limit log.reportText⟩,
            if Sink.Fits limit log.reportText then none else some .sinkFull)) :=
  ⟨rfl, log.list_empty_sink source limit, listNamed_empty_sink none source limit,
    Failure.message_lexical_unnamed _, ErrorLog.writeReport_of_caretsInRange limit⟩

/-- A listing and a report that are cut off inside a character. -/
theorem limit_cuts_only_output_inside_character :
    (⟨some "é", [⟨⟨1, 1⟩, "m", some "@"⟩]⟩ : ErrorLog).CaretsInRange ∧
      (ErrorLog.list ⟨some "é", []⟩ "\"é\" @" (Sink.empty (some 16))).1.count = 1 ∧
      (ErrorLog.list ⟨some "é", []⟩ "\"é\" @" (Sink.empty (some 16))).2.1.held =
        "Token: STRING \"".toUTF8.push 0xC3 ∧
      (listText "\"é\" @" (Sink.empty (some 16))).2 = .error (.output .sinkFull) ∧
      ErrorLog.writeReport ⟨some "é", [⟨⟨1, 1⟩, "m", some "@"⟩]⟩ (Sink.empty (some 1)) =
        (⟨some 1, ByteArray.empty.push 0xC3⟩, some .sinkFull) := by
  have hcarets : (⟨some "é", [⟨⟨1, 1⟩, "m", some "@"⟩]⟩ : ErrorLog).CaretsInRange := by
    intro record hrecord
    rw [List.mem_singleton.mp hrecord]
    exact fun _ => by decide
  obtain ⟨-, hlist, htext, -, -⟩ := limit_cuts_only_output ⟨some "é", []⟩ "\"é\" @" (some 16)
  obtain ⟨-, -, -, -, hreport⟩ := limit_cuts_only_output
    ⟨some "é", [⟨⟨1, 1⟩, "m", some "@"⟩]⟩ "" (some 1)
  refine ⟨hcarets, ?_, ?_, ?_, ?_⟩
  · rw [hlist]
    decide +kernel
  · rw [hlist]
    decide +kernel
  · rw [htext]
    decide +kernel
  · have hkept : Sink.kept (some 1) (ErrorLog.reportText
        ⟨some "é", [⟨⟨1, 1⟩, "m", some "@"⟩]⟩) = ByteArray.empty.push 0xC3 := by
      decide +kernel
    rw [hreport hcarets, if_neg (by decide +kernel), hkept]

end Lexis
