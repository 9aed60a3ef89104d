import Lexis.Proofs.FileListing
import Lexis.Proofs.Session

/-!
# What the exit status tells

Each exit status other than success stands for one thing that has happened: arguments that make no
request, a text with faults, something that could not be read, a line that the editor breaks down
on. What the two output streams hold goes with it, but for the last, whose error stream is open.
-/

namespace Lexis

theorem ExitStatus.code_injective {a b : ExitStatus} (h : a.code = b.code) : a = b := by
  cases a <;> cases b <;> first | rfl | exact absurd h (by decide)

/-! ## What can happen -/

/-- The text that a request has scanned, and the name of its log. -/
inductive Request.Gives (read : FileReader) : Request → Option String → String → Prop
  | code (code : String) : Gives read (.evaluate code) none code
  | file {path text : String} (h : read path = .ok text.toUTF8) :
      Gives read (.file path) (some path) text

/-- The text is scanned for a request: the text that it gives, or a line of a session. -/
inductive Request.Scans (platform : Platform) (read : FileReader) (input : ByteArray) :
    Request → String → Prop
  | text {request : Request} {filename : Option String} {source : String}
      (h : request.Gives read filename source) : Scans platform read input request source
  | line {line : String} (h : Prompt.Scans platform.edit input line) :
      Scans platform read input .prompt line

def Prompt.LineError.exitStatus : LineError → ExitStatus
  | .notUtf8 => .failure
  | .notEdited => .aborted

namespace Invocation

variable (platform : Platform) (arguments : List String) (read : FileReader) (input : ByteArray)

/-- No record of a text that is scanned lies beyond the last caret column. -/
def ColumnsInRange : Prop :=
  ∀ request source, Request.ofArguments arguments = .ok request →
    request.Scans platform read input source → Scan.ColumnsInRange source

def IsRejected : Prop := ∃ error, Request.ofArguments arguments = .error error

/-- Code or a file was to be listed, its text is there, and it has faults. -/
def IsFaulty : Prop :=
  ∃ request filename source, Request.ofArguments arguments = .ok request ∧
    request.Gives read filename source ∧ (Scan.ofText source).diagnostics ≠ []

/-- A file was to be listed that is not there as the encoding of a text. -/
def IsUnreadableFile : Prop :=
  ∃ path, Request.ofArguments arguments = .ok (.file path) ∧
    ∀ text : String, read path ≠ .ok text.toUTF8

def Reaches (cause : Prompt.LineError) : Prop :=
  Request.ofArguments arguments = .ok .prompt ∧ Prompt.Reaches platform.edit input cause

def Reason : ExitStatus → Prop
  | .success => False
  | .usage => IsRejected arguments
  | .dataError => IsFaulty arguments read
  | .failure => IsUnreadableFile arguments read ∨ Reaches platform arguments input .notUtf8
  | .aborted => Reaches platform arguments input .notEdited

end Invocation

namespace Outcome

variable {platform : Platform} {arguments : List String} {read : FileReader} {input : ByteArray}
  {request : Request}

/-! ## What comes of it -/

theorem ofInvocationOn_of_request (h : Request.ofArguments arguments = .ok request) :
    ofInvocationOn platform arguments read input = ofRequest platform read input request := by
  simp only [ofInvocationOn, h]

theorem ofRequest_of_gives {filename : Option String} {source : String}
    (gives : request.Gives read filename source) (columns : Scan.ColumnsInRange source) :
    ofRequest platform read input request =
      ⟨if (Scan.ofText source).diagnostics = [] then .success else .dataError,
        (printed filename source).toUTF8, ""⟩ := by
  cases gives with
  | code code => exact ofListing_listNamed none columns
  | file hread =>
      rw [ofRequest, listFile_of_toUTF8 hread]
      exact ofListing_listNamed _ columns

theorem message_unreadable (path : String) (cause : ReadError) :
    (Failure.unreadable path cause).message =
      "failed to read " ++ path ++ ": " ++ cause.message := by
  unfold Failure.message
  dsimp only

theorem errorLine_unreadable (path : String) (cause : ReadError) :
    errorLine (Failure.unreadable path cause).message =
      "Error: failed to read " ++ path ++ ": " ++ cause.message ++ "\n" := by
  have hfront : "Error: " ++ "failed to read " = "Error: failed to read " := by decide
  rw [errorLine, message_unreadable, ← hfront]
  simp only [String.append_assoc]

theorem ofRequest_file_of_error {path : String} {cause : ReadError}
    (h : read.readText path = .error cause) :
    ofRequest platform read input (.file path) =
      ⟨.failure, .empty, "Error: failed to read " ++ path ++ ": " ++ cause.message ++ "\n"⟩ := by
  rw [ofRequest, listFile_of_error h, ← errorLine_unreadable]
  rfl

theorem ofRequest_prompt_of_answered {answered : List String}
    {rest : List (Except Prompt.LineError String)}
    (hlines : Prompt.linesOf platform.edit input = answered.map .ok ++ rest)
    (stays : ∀ line ∈ answered, ¬ Prompt.AsksToLeave line)
    (columns : ∀ line, Prompt.Scans platform.edit input line → Scan.ColumnsInRange line) :
    ofRequest platform read input .prompt =
      ofSession platform (Prompt.converse ⟨none, bannerText.toUTF8 ++
        Prompt.joined (answered.map (Prompt.contribution platform read .empty))⟩ rest) := by
  rw [← ofInvocationOn_of_request Request.ofArguments_nil]
  exact ofInvocationOn_nil_of_answered read read .empty hlines stays columns

theorem exit_of_reaches {cause : Prompt.LineError}
    (reaches : Prompt.Reaches platform.edit input cause)
    (columns : ∀ line, Prompt.Scans platform.edit input line → Scan.ColumnsInRange line) :
    (ofRequest platform read input .prompt).exit = cause.exitStatus := by
  obtain ⟨answered, later, hlines, hstays⟩ := reaches
  rw [ofRequest_prompt_of_answered hlines hstays columns]
  cases cause <;> rfl

theorem exit_session_cases
    (columns : ∀ line, Prompt.Scans platform.edit input line → Scan.ColumnsInRange line) :
    ((ofRequest platform read input .prompt).exit = .success ∧
        (ofRequest platform read input .prompt).stderr = "") ∨
      ∃ cause, Prompt.Reaches platform.edit input cause := by
  obtain ⟨answered, rest, hlines, hstays, hlast⟩ :=
    Prompt.exists_answered (Prompt.linesOf platform.edit input)
  by_cases hedits : rest.head? = some (.error .notEdited)
  · obtain ⟨later, rfl⟩ := List.head?_eq_some_iff.mp hedits
    exact .inr ⟨.notEdited, answered, later, hlines, hstays⟩
  obtain ⟨exit, last, stderr, hcloses, hclosed⟩ := Prompt.exists_closes
    (bannerText.toUTF8 ++
      Prompt.joined (answered.map (Prompt.contribution platform read .empty))) hlast hedits
  rw [ofRequest_prompt_of_answered hlines hstays columns, hclosed]
  cases hcloses with
  | endOfInput => exact .inl ⟨rfl, rfl⟩
  | left => exact .inl ⟨rfl, rfl⟩
  | notUtf8 => exact .inr ⟨.notUtf8, answered, _, hlines, hstays⟩

end Outcome

/-! ## What each status stands for -/

namespace Invocation

open Outcome

variable {platform : Platform} {arguments : List String} {read : FileReader} {input : ByteArray}

theorem exit_of_isRejected (h : IsRejected arguments) :
    (ofInvocationOn platform arguments read input).exit = .usage := by
  obtain ⟨error, herror⟩ := h
  rw [ofInvocationOn_of_usageError herror]
  rfl

theorem ofInvocationOn_of_gives {request : Request} {filename : Option String} {source : String}
    (columns : ColumnsInRange platform arguments read input)
    (hrequest : Request.ofArguments arguments = .ok request)
    (gives : request.Gives read filename source) :
    ofInvocationOn platform arguments read input =
      ⟨if (Scan.ofText source).diagnostics = [] then .success else .dataError,
        (Outcome.printed filename source).toUTF8, ""⟩ := by
  rw [ofInvocationOn_of_request hrequest]
  exact ofRequest_of_gives gives (columns request source hrequest (.text gives))

theorem exit_of_isFaulty (columns : ColumnsInRange platform arguments read input)
    (h : IsFaulty arguments read) :
    (ofInvocationOn platform arguments read input).exit = .dataError := by
  obtain ⟨request, filename, source, hrequest, gives, hfaults⟩ := h
  rw [ofInvocationOn_of_gives columns hrequest gives]
  exact if_neg hfaults

theorem exit_of_isUnreadableFile (h : IsUnreadableFile arguments read) :
    (ofInvocationOn platform arguments read input).exit = .failure := by
  obtain ⟨path, hrequest, hbroken⟩ := h
  obtain ⟨cause, hcause⟩ := FileReader.readText_of_no_text hbroken
  rw [ofInvocationOn_of_request hrequest, ofRequest_file_of_error hcause]

theorem exit_of_invocation_reaches {cause : Prompt.LineError}
    (columns : ColumnsInRange platform arguments read input)
    (h : Reaches platform arguments input cause) :
    (ofInvocationOn platform arguments read input).exit = cause.exitStatus := by
  obtain ⟨hrequest, hreaches⟩ := h
  rw [ofInvocationOn_of_request hrequest]
  exact exit_of_reaches hreaches fun line hline => columns _ line hrequest (.line hline)

theorem exit_of_reason {status : ExitStatus}
    (columns : ColumnsInRange platform arguments read input)
    (h : Reason platform arguments read input status) :
    (ofInvocationOn platform arguments read input).exit = status := by
  cases status with
  | success => exact False.elim h
  | usage => exact exit_of_isRejected h
  | dataError => exact exit_of_isFaulty columns h
  | failure =>
      rcases h with hfile | hline
      · exact exit_of_isUnreadableFile hfile
      · exact exit_of_invocation_reaches columns hline
  | aborted => exact exit_of_invocation_reaches columns h

theorem reason_or_success_of_gives {request : Request} {filename : Option String} {source : String}
    (columns : ColumnsInRange platform arguments read input)
    (hrequest : Request.ofArguments arguments = .ok request)
    (gives : request.Gives read filename source) :
    (∃ status, Reason platform arguments read input status) ∨
      ((ofInvocationOn platform arguments read input).exit = .success ∧
        (ofInvocationOn platform arguments read input).stderr = "") := by
  by_cases hclean : (Scan.ofText source).diagnostics = []
  · rw [ofInvocationOn_of_gives columns hrequest gives]
    exact .inr ⟨if_pos hclean, rfl⟩
  · exact .inl ⟨.dataError, request, filename, source, hrequest, gives, hclean⟩

theorem reason_or_success (columns : ColumnsInRange platform arguments read input) :
    (∃ status, Reason platform arguments read input status) ∨
      ((ofInvocationOn platform arguments read input).exit = .success ∧
        (ofInvocationOn platform arguments read input).stderr = "") := by
  cases hrequest : Request.ofArguments arguments with
  | error error => exact .inl ⟨.usage, error, hrequest⟩
  | ok request =>
      cases request with
      | help =>
          rw [ofInvocationOn_of_request hrequest]
          exact .inr ⟨rfl, rfl⟩
      | version =>
          rw [ofInvocationOn_of_request hrequest]
          exact .inr ⟨rfl, rfl⟩
      | evaluate code => exact reason_or_success_of_gives columns hrequest (.code code)
      | file path =>
          by_cases htext : ∃ text : String, read path = .ok text.toUTF8
          · obtain ⟨text, htext⟩ := htext
            exact reason_or_success_of_gives columns hrequest (.file htext)
          · exact .inl ⟨.failure, .inl ⟨path, hrequest, not_exists.mp htext⟩⟩
      | prompt =>
          have hlines : ∀ line, Prompt.Scans platform.edit input line → Scan.ColumnsInRange line :=
            fun line hline => columns _ line hrequest (.line hline)
          rw [ofInvocationOn_of_request hrequest]
          rcases exit_session_cases hlines with hclean | ⟨cause, hreaches⟩
          · exact .inr hclean
          · cases cause with
            | notUtf8 => exact .inl ⟨.failure, .inr ⟨hrequest, hreaches⟩⟩
            | notEdited => exact .inl ⟨.aborted, hrequest, hreaches⟩

theorem code_eq_iff {status : ExitStatus} (other : status ≠ .success)
    (columns : ColumnsInRange platform arguments read input) :
    (ofInvocationOn platform arguments read input).exit.code = status.code ↔
      Reason platform arguments read input status := by
  constructor
  · intro hcode
    have hexit := ExitStatus.code_injective hcode
    rcases reason_or_success columns with ⟨reason, hreason⟩ | ⟨hsuccess, -⟩
    · rwa [← hexit, exit_of_reason columns hreason]
    · exact absurd (hexit.symm.trans hsuccess) other
  · intro hreason
    rw [exit_of_reason columns hreason]

theorem ofInvocationOn_of_faults {request : Request} {filename : Option String} {source : String}
    (columns : ColumnsInRange platform arguments read input)
    (hrequest : Request.ofArguments arguments = .ok request)
    (gives : request.Gives read filename source) (h : (Scan.ofText source).diagnostics ≠ []) :
    ofInvocationOn platform arguments read input =
      ⟨.dataError, (Outcome.printed filename source).toUTF8, ""⟩ := by
  rw [ofInvocationOn_of_gives columns hrequest gives, if_neg h]

theorem ofInvocationOn_of_clean {request : Request} {filename : Option String} {source : String}
    (columns : ColumnsInRange platform arguments read input)
    (hrequest : Request.ofArguments arguments = .ok request)
    (gives : request.Gives read filename source) (h : (Scan.ofText source).diagnostics = []) :
    ofInvocationOn platform arguments read input =
      ⟨.success, (Listing.ofText source).toUTF8, ""⟩ := by
  rw [ofInvocationOn_of_gives columns hrequest gives, if_pos h, printed_of_clean filename h]

theorem success_of_no_reason (columns : ColumnsInRange platform arguments read input)
    (unfounded : ∀ status, ¬ Reason platform arguments read input status) :
    (ofInvocationOn platform arguments read input).exit = .success ∧
      (ofInvocationOn platform arguments read input).stderr = "" ∧
      ∀ request filename source, Request.ofArguments arguments = .ok request →
        request.Gives read filename source →
        (ofInvocationOn platform arguments read input).stdout = (Listing.ofText source).toUTF8 := by
  rcases reason_or_success columns with ⟨status, hreason⟩ | ⟨hexit, hstderr⟩
  · exact absurd hreason (unfounded status)
  · refine ⟨hexit, hstderr, ?_⟩
    intro request filename source hrequest gives
    have hclean : (Scan.ofText source).diagnostics = [] := by
      by_contra hfaults
      exact unfounded .dataError ⟨request, filename, source, hrequest, gives, hfaults⟩
    rw [ofInvocationOn_of_clean columns hrequest gives hclean]

theorem columnsInRange_evaluate {code : String} (hrequest : Request.ofArguments arguments =
    .ok (.evaluate code)) (h : Scan.ColumnsInRange code) :
    ColumnsInRange platform arguments read input := by
  intro request source hsame hscans
  rw [hrequest] at hsame
  cases hsame
  cases hscans with
  | text gives =>
      cases gives
      exact h

theorem columnsInRange_nil (h : ∀ line, .ok line ∈ Prompt.linesOf platform.edit input →
    Scan.ColumnsInRange line) : ColumnsInRange platform [] read input := by
  intro request source hsame hscans
  rw [Request.ofArguments_nil] at hsame
  cases hsame
  cases hscans with
  | text gives => cases gives
  | line hline => exact h source hline.mem_linesOf

end Invocation

open Invocation

/-- If no text that is scanned has a record beyond the last caret column, the exit status is 64
exactly for arguments that are rejected, 65 exactly for a text to list that has faults, 1 exactly
for a file that gives no text and for a session that reaches a line that is not UTF-8, and else 0,
unless a session reaches a line that the editor breaks down on: exactly then it is 101. -/
theorem exit_code_tells (platform : Platform) (arguments : List String) (read : FileReader)
    (input : ByteArray) (columns : ColumnsInRange platform arguments read input) :
    ((Outcome.ofInvocationOn platform arguments read input).exit.code = 64 ↔ IsRejected arguments) ∧
    (∀ error, Request.ofArguments arguments = .error error → ∀ elsewhere other,
      Outcome.ofInvocationOn platform arguments elsewhere other =
        ⟨.usage, usageText.toUTF8, "Error: " ++ error.message ++ "\n"⟩) ∧
    ((Outcome.ofInvocationOn platform arguments read input).exit.code = 65 ↔
      IsFaulty arguments read) ∧
    (∀ request filename source, Request.ofArguments arguments = .ok request →
      request.Gives read filename source → (Scan.ofText source).diagnostics ≠ [] →
      (Outcome.ofInvocationOn platform arguments read input).stdout =
        (Listing.ofText source ++
          (⟨filename, (Scan.ofText source).diagnostics⟩ : ErrorLog).reportText).toUTF8 ∧
      (Outcome.ofInvocationOn platform arguments read input).stderr = "") ∧
    ((Outcome.ofInvocationOn platform arguments read input).exit.code = 1 ↔
      IsUnreadableFile arguments read ∨ Reaches platform arguments input .notUtf8) ∧
    (∀ path, Request.ofArguments arguments = .ok (.file path) →
      (∀ text : String, read path ≠ .ok text.toUTF8) →
      (Outcome.ofInvocationOn platform arguments read input).stdout = .empty ∧
      ∃ cause, read.readText path = .error cause ∧
        (Outcome.ofInvocationOn platform arguments read input).stderr =
          "Error: failed to read " ++ path ++ ": " ++ cause.message ++ "\n") ∧
    ((Outcome.ofInvocationOn platform arguments read input).exit.code = 101 ↔
      Reaches platform arguments input .notEdited) ∧
    (¬ IsRejected arguments → ¬ IsFaulty arguments read →
      ¬ (IsUnreadableFile arguments read ∨ Reaches platform arguments input .notUtf8) →
      ¬ Reaches platform arguments input .notEdited →
      (Outcome.ofInvocationOn platform arguments read input).exit.code = 0 ∧
      (Outcome.ofInvocationOn platform arguments read input).stderr = "" ∧
      ∀ request filename source, Request.ofArguments arguments = .ok request →
        request.Gives read filename source →
        (Outcome.ofInvocationOn platform arguments read input).stdout =
          (Listing.ofText source).toUTF8) := by
  have hcode : ∀ status : ExitStatus, status ≠ .success →
      ((Outcome.ofInvocationOn platform arguments read input).exit.code = status.code ↔
        Reason platform arguments read input status) :=
    fun status other => code_eq_iff other columns
  refine ⟨hcode .usage (by decide), ?_, hcode .dataError (by decide), ?_,
    hcode .failure (by decide), ?_, hcode .aborted (by decide), ?_⟩
  · intro error herror elsewhere other
    rw [Outcome.ofInvocationOn_of_usageError herror]
    rfl
  · intro request filename source hrequest gives hfaults
    rw [ofInvocationOn_of_faults columns hrequest gives hfaults]
    exact ⟨rfl, rfl⟩
  · intro path hrequest hbroken
    obtain ⟨cause, hcause⟩ := FileReader.readText_of_no_text hbroken
    rw [Outcome.ofInvocationOn_of_request hrequest, Outcome.ofRequest_file_of_error hcause]
    exact ⟨rfl, cause, hcause, rfl⟩
  · intro hrejected hfaulty hunreadable hcrash
    have hunfounded : ∀ status, ¬ Reason platform arguments read input status := by
      intro status hreason
      cases status with
      | success => exact hreason
      | usage => exact hrejected hreason
      | dataError => exact hfaulty hreason
      | failure => exact hunreadable hreason
      | aborted => exact hcrash hreason
    obtain ⟨hexit, hrest⟩ := success_of_no_reason columns hunfounded
    exact ⟨congrArg ExitStatus.code hexit, hrest⟩

/-- Code with a fault, and a session that has listed a fault when it reaches a byte that belongs to
no text; behind that byte it is asked to leave. -/
theorem exit_code_tells_of_faults :
    let read : FileReader := fun _ => .error .notFound
    let input := "@ x\n".toUTF8 ++ ⟨#[0xFF, 0x0A]⟩ ++ "quit\n".toUTF8
    ColumnsInRange .standard ["-e", "@ x"] read input ∧
      IsFaulty ["-e", "@ x"] read ∧
      (Outcome.ofInvocationOn .standard ["-e", "@ x"] read input).exit.code = 65 ∧
      (Outcome.ofInvocationOn .standard ["-e", "@ x"] read input).stdout =
        ("Token: IDENTIFIER x\nToken: END_OF_FILE \n" ++
          "1:1 error: Unexpected character.\n    @ x\n    ^\n").toUTF8 ∧
      ColumnsInRange .standard [] read input ∧
      Reaches .standard [] input .notUtf8 ∧
      (Outcome.ofInvocationOn .standard [] read input).exit.code = 1 := by
  intro read input
  have hrequest : Request.ofArguments ["-e", "@ x"] = .ok (.evaluate "@ x") := by decide
  have hfaults : (Scan.ofText "@ x").diagnostics ≠ [] := by decide +kernel
  have hshort : Scan.ColumnsInRange "@ x" := by decide +kernel
  have hcode : ColumnsInRange .standard ["-e", "@ x"] read input :=
    columnsInRange_evaluate hrequest hshort
  have hfaulty : IsFaulty ["-e", "@ x"] read :=
    ⟨.evaluate "@ x", none, "@ x", hrequest, .code "@ x", hfaults⟩
  have hlines : Prompt.linesOf Platform.standard.edit input =
      [.ok "@ x", .error .notUtf8, .ok "quit"] := by
    decide +kernel
  have hsession : ColumnsInRange .standard [] read input := by
    apply columnsInRange_nil
    rw [hlines]
    simp only [List.mem_cons, Except.ok.injEq, reduceCtorEq, List.not_mem_nil, or_false, false_or]
    rintro line (rfl | rfl)
    · exact hshort
    · decide +kernel
  have hstays : ¬ Prompt.AsksToLeave "@ x" := by decide +kernel
  have hreaches : Reaches .standard [] input .notUtf8 :=
    ⟨Request.ofArguments_nil, ["@ x"], [.ok "quit"], hlines, by simpa using hstays⟩
  obtain ⟨-, -, hdata, hstdout, -⟩ := exit_code_tells .standard ["-e", "@ x"] read input hcode
  obtain ⟨-, -, -, -, hfailure, -⟩ := exit_code_tells .standard [] read input hsession
  obtain ⟨hprinted, -⟩ := hstdout _ none "@ x" hrequest (.code "@ x") hfaults
  have hshown : Listing.ofText "@ x" ++
      (⟨none, (Scan.ofText "@ x").diagnostics⟩ : ErrorLog).reportText =
        "Token: IDENTIFIER x\nToken: END_OF_FILE \n" ++
          "1:1 error: Unexpected character.\n    @ x\n    ^\n" := by decide +kernel
  refine ⟨hcode, hfaulty, hdata.mpr hfaulty, ?_, hsession, hreaches, hfailure.mpr (.inr hreaches)⟩
  rw [hprinted, hshown]

theorem Prompt.typedLine_backspace_behind_marks :
    typedLine Platform.standard.edit true
      (String.ofList ('a' :: List.replicate 128 '\u0301' ++ [backspace])) = .error .notEdited := by
  rw [typedLine, String.toList_ofList]
  decide +kernel

/-- A letter under 128 marks has 257 bytes, of which a backspace takes away one. Nothing is
rejected, no file is missing and no line is outside of UTF-8, but the session does not succeed. -/
theorem exit_code_of_cut_character :
    let read : FileReader := fun _ => .error .notFound
    let line := String.ofList ('a' :: List.replicate 128 '\u0301' ++ [Prompt.backspace])
    let input := line.toUTF8 ++ ⟨#[Prompt.lineFeed]⟩
    ColumnsInRange .standard [] read input ∧
      ¬ IsRejected [] ∧
      ¬ IsFaulty [] read ∧
      ¬ (IsUnreadableFile [] read ∨ Reaches .standard [] input .notUtf8) ∧
      (Outcome.ofInvocation [] read input).exit.code = 101 := by
  intro read line input
  have hwhole : Prompt.lineFeed ∉ line.toUTF8.data.toList := by decide +kernel
  have hlines : Prompt.linesOf Platform.standard.edit input = [.error .notEdited] := by
    rw [Prompt.linesOf_toUTF8 hwhole, Prompt.typedLine_backspace_behind_marks]
  have hsession : ColumnsInRange .standard [] read input := by
    apply columnsInRange_nil
    rw [hlines]
    simp
  have hcut : Reaches .standard [] input .notEdited :=
    ⟨Request.ofArguments_nil, [], [], hlines, List.forall_mem_nil _⟩
  have haborted : (Outcome.ofInvocation [] read input).exit = .aborted :=
    exit_of_invocation_reaches hsession hcut
  have hother : ∀ status, status ≠ .aborted → ¬ Reason .standard [] read input status := by
    intro status hstatus hreason
    exact hstatus ((exit_of_reason hsession hreason).symm.trans haborted)
  refine ⟨hsession, hother .usage (by decide), hother .dataError (by decide),
    hother .failure (by decide), ?_⟩
  rw [haborted]
  rfl

end Lexis
