import Lexis.Proofs.Writing

/-!
# Listing a file

A file is listed as its text is. The same bytes reach the sink and the outcome is the same, but that
the records of the text come in a log named by the path. The name stands in front of the header of
each block of the report and nowhere else. A file that gives no text leaves the sink as it was.
-/

namespace Lexis

/-! ## Reading -/

namespace FileReader

variable {read : FileReader} {path : String}

theorem readText_of_error {cause : ReadError} (h : read path = .error cause) :
    read.readText path = .error cause := by
  simp only [readText, h]

theorem readText_of_not_utf8 {bytes : ByteArray} (h : read path = .ok bytes)
    (broken : ∀ text : String, text.toUTF8 ≠ bytes) : read.readText path = .error .notUtf8 := by
  have hnone : String.fromUTF8? bytes = none := by
    cases hbytes : String.fromUTF8? bytes with
    | none => rfl
    | some text => exact absurd (Text.toUTF8_of_fromUTF8? hbytes) (broken text)
  simp only [readText, h, hnone]

theorem readText_of_no_text (h : ∀ text : String, read path ≠ .ok text.toUTF8) :
    ∃ cause, read.readText path = .error cause := by
  cases hread : read path with
  | error cause => exact ⟨cause, readText_of_error hread⟩
  | ok bytes =>
      have hbroken : ∀ text : String, text.toUTF8 ≠ bytes := by
        rintro text rfl
        exact h text hread
      exact ⟨.notUtf8, readText_of_not_utf8 hread hbroken⟩

end FileReader

theorem listFile_of_error {read : FileReader} {path : String} {cause : ReadError}
    (h : read.readText path = .error cause) (sink : Sink) :
    listFile read path sink = (sink, .error (.unreadable path cause)) := by
  simp only [listFile, h]

theorem listFile_of_toUTF8 {read : FileReader} {path source : String}
    (h : read path = .ok source.toUTF8) (sink : Sink) :
    listFile read path sink = listNamed (some path) source sink := by
  rw [listFile, FileReader.readText_of_toUTF8 h]

/-! ## The name of a log -/

theorem listText_cases (source : String) (sink : Sink) :
    (∃ tokens, (listText source sink).2 = .ok tokens) ∨
      (∃ cause, (listText source sink).2 = .error (.output cause)) ∨
      (listText source sink).2 = .error (.lexical ⟨none, (Scan.ofText source).diagnostics⟩) := by
  rcases hwrite : sink.writeAll (Listing.pieces (Scan.ofText source).tokens) with ⟨next, _ | cause⟩
  · rw [listText, listNamed_of_written none hwrite]
    by_cases hclean : (Scan.ofText source).diagnostics = []
    · exact .inl ⟨_, if_pos hclean⟩
    · exact .inr (.inr (if_neg hclean))
  · rw [listText, listNamed_of_broken none hwrite]
    exact .inr (.inl ⟨cause, rfl⟩)

def Failure.named (name : String) : Failure → Failure
  | .lexical log => .lexical ⟨some name, log.records⟩
  | failure => failure

/-- The name of a text changes nothing but the name of its log. -/
theorem listNamed_some (name source : String) (sink : Sink) :
    listNamed (some name) source sink =
      ((listText source sink).1, (listText source sink).2.mapError (Failure.named name)) := by
  rcases hwrite : sink.writeAll (Listing.pieces (Scan.ofText source).tokens) with ⟨next, _ | cause⟩
  · rw [listText, listNamed_of_written _ hwrite, listNamed_of_written none hwrite]
    by_cases hclean : (Scan.ofText source).diagnostics = []
    · rw [if_pos hclean, if_pos hclean]
      rfl
    · rw [if_neg hclean, if_neg hclean]
      rfl
  · rw [listText, listNamed_of_broken _ hwrite, listNamed_of_broken none hwrite]
    rfl

namespace Failure

variable {name : String} {result : Except Failure (List Token)}

theorem mapError_named_eq_ok {tokens : List Token} :
    result.mapError (named name) = .ok tokens ↔ result = .ok tokens := by
  cases result <;> simp [Except.mapError]

theorem mapError_named_eq_output {cause : WriteError} :
    result.mapError (named name) = .error (.output cause) ↔ result = .error (.output cause) := by
  cases result with
  | ok tokens => simp [Except.mapError]
  | error failure => cases failure <;> simp [Except.mapError, named]

theorem mapError_named_eq_lexical {log : ErrorLog} :
    result.mapError (named name) = .error (.lexical log) ↔
      log.filename = some name ∧
        ∃ filename, result = .error (.lexical ⟨filename, log.records⟩) := by
  cases log with
  | mk filename records =>
      cases result with
      | ok tokens => simp [Except.mapError]
      | error failure =>
          cases failure with
          | lexical other =>
              cases other
              simp [Except.mapError, named, eq_comm]
          | _ => simp [Except.mapError, named]

end Failure

/-! ## The name in a report -/

namespace Diagnostic

/-- The line that a fault is on and the caret under it, if the line is known. -/
def excerpt (record : Diagnostic) : String :=
  match record.context with
  | some context => contextLine context ++ caretLine record.position.column
  | none => ""

theorem block_none (record : Diagnostic) :
    record.block none = record.display ++ "\n" ++ record.excerpt := by
  cases hcontext : record.context <;> simp [block, headerLine, excerpt, hcontext]

theorem block_some (name : String) (record : Diagnostic) :
    record.block (some name) = name ++ ":" ++ record.display ++ "\n" ++ record.excerpt := by
  cases hcontext : record.context <;> simp [block, headerLine, excerpt, hcontext]

end Diagnostic

namespace ErrorLog

variable {records : List Diagnostic}

theorem renders_unnamed (h : ∀ record ∈ records, record.position.column ≤ 65535) :
    (⟨none, records⟩ : ErrorLog).Renders (String.join (records.map fun record =>
      record.display ++ "\n" ++ record.excerpt)) := by
  have hcarets : (⟨none, records⟩ : ErrorLog).CaretsInRange := fun record hrecord _ =>
    h record hrecord
  have hblock := funext Diagnostic.block_none
  rw [← hblock]
  exact renders_of_caretsInRange hcarets

theorem renders_named (name : String) (h : ∀ record ∈ records, record.position.column ≤ 65535) :
    (⟨some name, records⟩ : ErrorLog).Renders (String.join (records.map fun record =>
      name ++ ":" ++ record.display ++ "\n" ++ record.excerpt)) := by
  have hcarets : (⟨some name, records⟩ : ErrorLog).CaretsInRange := fun record hrecord _ =>
    h record hrecord
  have hblock := funext (Diagnostic.block_some name)
  rw [← hblock]
  exact renders_of_caretsInRange hcarets

end ErrorLog

theorem filename_of_listText {source : String} {sink : Sink} {log : ErrorLog}
    (h : (listText source sink).2 = .error (.lexical log)) : log.filename = none := by
  rcases listText_cases source sink with ⟨tokens, hresult⟩ | ⟨cause, hresult⟩ | hresult
  · simp [hresult] at h
  · simp [hresult] at h
  · rw [hresult] at h
    cases h
    rfl

/-- A file that holds the encoding of a text puts into the sink what the text puts there, and comes
to the same end: the sink fails, the tokens are handed back, or there are faults. Then the records
are the same, and the report differs in the path before each header. A file that cannot be read, or
that is not the encoding of any text, fails as unreadable, and the sink is untouched. -/
theorem listFile_agrees_with_listText (read : FileReader) (path : String) (sink : Sink) :
    (∀ text, read path = .ok text.toUTF8 →
      (listFile read path sink).1 = (listText text sink).1 ∧
      (∀ cause, (listFile read path sink).2 = .error (.output cause) ↔
        (listText text sink).2 = .error (.output cause)) ∧
      (∀ tokens, (listFile read path sink).2 = .ok tokens ↔
        (listText text sink).2 = .ok tokens) ∧
      (∀ log, (listFile read path sink).2 = .error (.lexical log) ↔
        log.filename = some path ∧
          (listText text sink).2 = .error (.lexical ⟨none, log.records⟩)) ∧
      (∀ log, (listText text sink).2 = .error (.lexical log) →
        log.filename = none ∧
        (listFile read path sink).2 = .error (.lexical ⟨some path, log.records⟩) ∧
        ((∀ record ∈ log.records, record.position.column ≤ 65535) →
          log.Renders (String.join (log.records.map fun record =>
            record.display ++ "\n" ++ record.excerpt)) ∧
          (⟨some path, log.records⟩ : ErrorLog).Renders (String.join (log.records.map fun record =>
            path ++ ":" ++ record.display ++ "\n" ++ record.excerpt))))) ∧
    (∀ cause, read path = .error cause →
      listFile read path sink = (sink, .error (.unreadable path cause))) ∧
    (∀ bytes, read path = .ok bytes → (∀ text : String, text.toUTF8 ≠ bytes) →
      listFile read path sink = (sink, .error (.unreadable path .notUtf8))) := by
  refine ⟨?_, ?_, ?_⟩
  · intro text htext
    rw [listFile_of_toUTF8 htext, listNamed_some]
    refine ⟨rfl, fun _ => Failure.mapError_named_eq_output,
      fun _ => Failure.mapError_named_eq_ok, ?_, ?_⟩
    · intro log
      rw [Failure.mapError_named_eq_lexical]
      apply and_congr_right
      intro _
      constructor
      · rintro ⟨filename, hresult⟩
        obtain rfl : filename = none := filename_of_listText hresult
        exact hresult
      · intro hresult
        exact ⟨none, hresult⟩
    · rintro ⟨filename, records⟩ hresult
      obtain rfl : filename = none := filename_of_listText hresult
      refine ⟨rfl, Failure.mapError_named_eq_lexical.mpr ⟨rfl, none, hresult⟩, ?_⟩
      intro hcolumns
      exact ⟨ErrorLog.renders_unnamed hcolumns, ErrorLog.renders_named path hcolumns⟩
  · intro cause hcause
    exact listFile_of_error (FileReader.readText_of_error hcause) sink
  · intro bytes hbytes hbroken
    exact listFile_of_error (FileReader.readText_of_not_utf8 hbytes hbroken) sink

/-- A file whose path looks like a header, one that is not there and one that ends inside a
character; the sink has room for the listing of the first and for nothing more. -/
theorem listFile_agrees_with_listText_header_as_path :
    let files := (FileTree.empty.addFile "1:1 error: m" "@\n é".toUTF8).addFile
      "d/cut" ⟨#[0x3B, 0xC3]⟩
    let sink := Sink.empty (some 20)
    let records := (Scan.ofText "@\n é").diagnostics
    files.read "1:1 error: m" = .ok "@\n é".toUTF8 ∧
      (listText "@\n é" sink).2 = .error (.lexical ⟨none, records⟩) ∧
      (∀ record ∈ records, record.position.column ≤ 65535) ∧
      (listFile files.read "1:1 error: m" sink).1 = (listText "@\n é" sink).1 ∧
      (listFile files.read "1:1 error: m" sink).2 =
        .error (.lexical ⟨some "1:1 error: m", records⟩) ∧
      (⟨some "1:1 error: m", records⟩ : ErrorLog).Renders
        ("1:1 error: m:1:1 error: Unexpected character.\n    @\n    ^\n" ++
          "1:1 error: m:2:2 error: Unexpected character.\n     é\n     ^\n") ∧
      files.read "d" = .error .isADirectory ∧
      listFile files.read "d" sink = (sink, .error (.unreadable "d" .isADirectory)) ∧
      files.read "d/cut" = .ok ⟨#[0x3B, 0xC3]⟩ ∧
      (∀ text : String, text.toUTF8 ≠ ⟨#[0x3B, 0xC3]⟩) ∧
      listFile files.read "d/cut" sink = (sink, .error (.unreadable "d/cut" .notUtf8)) := by
  intro files sink records
  have hread : files.read "1:1 error: m" = .ok "@\n é".toUTF8 := by decide +kernel
  have hlisted : (listText "@\n é" sink).2 = .error (.lexical ⟨none, records⟩) := by
    decide +kernel
  have hcolumns : ∀ record ∈ records, record.position.column ≤ 65535 := by decide +kernel
  have hdirectory : files.read "d" = .error .isADirectory := by decide +kernel
  have hcut : files.read "d/cut" = .ok ⟨#[0x3B, 0xC3]⟩ := by decide +kernel
  have hbroken : ∀ text : String, text.toUTF8 ≠ ⟨#[0x3B, 0xC3]⟩ := by
    intro text htext
    have hdecoded := Text.fromUTF8?_toUTF8 text
    rw [htext] at hdecoded
    have hnone : String.fromUTF8? ⟨#[0x3B, 0xC3]⟩ = none := by decide +kernel
    rw [hnone] at hdecoded
    contradiction
  obtain ⟨htext, -, -⟩ := listFile_agrees_with_listText files.read "1:1 error: m" sink
  obtain ⟨hsink, -, -, -, hfaults⟩ := htext _ hread
  obtain ⟨-, hresult, hreport⟩ := hfaults _ hlisted
  obtain ⟨-, herror, -⟩ := listFile_agrees_with_listText files.read "d" sink
  obtain ⟨-, -, hunreadable⟩ := listFile_agrees_with_listText files.read "d/cut" sink
  refine ⟨hread, hlisted, hcolumns, hsink, hresult, ?_, hdirectory, herror _ hdirectory, hcut,
    hbroken, hunreadable _ hcut hbroken⟩
  have hshown : String.join (records.map fun record =>
      "1:1 error: m" ++ ":" ++ record.display ++ "\n" ++ record.excerpt) =
        "1:1 error: m:1:1 error: Unexpected character.\n    @\n    ^\n" ++
          "1:1 error: m:2:2 error: Unexpected character.\n     é\n     ^\n" := by
    decide +kernel
  rw [← hshown]
  exact (hreport hcolumns).2

end Lexis
