import Lexis.CommandLine
import Lexis.Proofs.Writing

/-!
# Sessions at the prompt

A session is the banner and then, line by line, what the program prints when the line is given to it
as code. A blank line adds nothing. The session closes at the first line that asks to leave, with a
farewell, at the first line that is not UTF-8, or at the end of the input, with a farewell too, and
what stands behind that line is never read. The line editor may be any that breaks down on no line.
-/

namespace Lexis

/-- No record of the text has a column that a caret does not reach. -/
def Scan.ColumnsInRange (source : String) : Prop :=
  ∀ record ∈ (ofText source).diagnostics, record.position.column ≤ 65535

instance (source : String) : Decidable (Scan.ColumnsInRange source) :=
  inferInstanceAs (Decidable (∀ record ∈ (Scan.ofText source).diagnostics, _ ≤ 65535))

namespace Outcome

/-! ## Code on the command line -/

variable {platform : Platform} {source : String}

theorem caretsInRange_of_columnsInRange (filename : Option String)
    (h : Scan.ColumnsInRange source) :
    (⟨filename, (Scan.ofText source).diagnostics⟩ : ErrorLog).CaretsInRange :=
  fun record hrecord _ => h record hrecord

def printed (filename : Option String) (source : String) : String :=
  Listing.ofText source ++ (⟨filename, (Scan.ofText source).diagnostics⟩ : ErrorLog).reportText

theorem printed_of_clean (filename : Option String) (h : (Scan.ofText source).diagnostics = []) :
    printed filename source = Listing.ofText source := by
  simp [printed, h, ErrorLog.reportText]

theorem ofListing_listNamed (filename : Option String) (h : Scan.ColumnsInRange source) :
    ofListing platform (listNamed filename source Sink.unlimited) =
      ⟨if (Scan.ofText source).diagnostics = [] then .success else .dataError,
        (printed filename source).toUTF8, ""⟩ := by
  have hwrite := Sink.writeAll_texts none (Listing.textPieces (Scan.ofText source).tokens)
  rw [if_pos (Sink.fits_none _), Listing.join_textPieces] at hwrite
  rw [Sink.unlimited, listNamed_of_written filename hwrite]
  by_cases hclean : (Scan.ofText source).diagnostics = []
  · rw [if_pos hclean, if_pos hclean, printed_of_clean filename hclean]
    rfl
  · have hreport := ErrorLog.writeReport_of_no_limit (Listing.ofText source).toUTF8
      (caretsInRange_of_columnsInRange filename h)
    have hbytes : (printed filename source).toUTF8 = (Listing.ofText source).toUTF8 ++
        (⟨filename, (Scan.ofText source).diagnostics⟩ : ErrorLog).reportText.toUTF8 :=
      String.toByteArray_append
    rw [if_neg hclean, if_neg hclean, hbytes]
    simp only [ofListing, Sink.kept, hreport]

theorem ofInvocationOn_code (code : String) (read : FileReader) (input : ByteArray) :
    ofInvocationOn platform ["-e", code] read input =
      ofListing platform (listNamed none code Sink.unlimited) := rfl

end Outcome

namespace Prompt

variable {platform : Platform} {edit : Editor}

/-! ## One line -/

/-- Without the white space at its ends, the line is one of the two words for leaving. -/
def AsksToLeave (line : String) : Prop :=
  Text.trim line.toList = "exit".toList ∨ Text.trim line.toList = "quit".toList

instance (line : String) : Decidable (AsksToLeave line) :=
  inferInstanceAs (Decidable (_ ∨ _))

theorem isFarewell_iff {line : String} : isFarewell line ↔ AsksToLeave line := by
  simp [isFarewell, AsksToLeave]

theorem isBlank_iff {line : String} : isBlank line ↔ Text.trim line.toList = [] := by
  simp [isBlank]

/-- What a line adds to the output of a session: nothing if it is blank, and else what is printed
when the line is the code on the command line. -/
def contribution (platform : Platform) (read : FileReader) (input : ByteArray) (line : String) :
    ByteArray :=
  if Text.trim line.toList = [] then .empty
  else (Outcome.ofInvocationOn platform ["-e", line] read input).stdout

theorem showText_of_no_limit {line : String} (held : ByteArray) (h : Scan.ColumnsInRange line) :
    showText line ⟨none, held⟩ =
      (⟨none, held ++ (Outcome.printed none line).toUTF8⟩, none) := by
  have hreport := ErrorLog.writeReport_of_no_limit (held ++ (Listing.ofText line).toUTF8)
    (Outcome.caretsInRange_of_columnsInRange none h)
  have hbytes : (Outcome.printed none line).toUTF8 = (Listing.ofText line).toUTF8 ++
      (⟨none, (Scan.ofText line).diagnostics⟩ : ErrorLog).reportText.toUTF8 :=
    String.toByteArray_append
  rw [showText, ErrorLog.list_of_no_limit, hbytes, ← ByteArray.append_assoc]
  exact hreport

theorem answer_of_not_asksToLeave {line : String} (read : FileReader) (input held : ByteArray)
    (stays : ¬ AsksToLeave line)
    (columns : Text.trim line.toList ≠ [] → Scan.ColumnsInRange line) :
    answer (.ok line) ⟨none, held⟩ =
      (⟨none, held ++ contribution platform read input line⟩, none) := by
  rw [← isFarewell_iff] at stays
  rw [answer, if_neg stays, contribution]
  by_cases hblank : Text.trim line.toList = []
  · rw [if_pos (isBlank_iff.mpr hblank), if_pos hblank, ByteArray.append_empty]
  · rw [if_neg (isBlank_iff.not.mpr hblank), if_neg hblank,
      showText_of_no_limit held (columns hblank), Outcome.ofInvocationOn_code,
      Outcome.ofListing_listNamed none (columns hblank)]

/-- Nothing is read behind the line. -/
def IsLast : Except LineError String → Prop
  | .ok line => AsksToLeave line
  | .error _ => True

theorem answer_of_isLast {line : Except LineError String} (sink : Sink) (h : IsLast line) :
    (answer line sink).2.isSome := by
  cases line with
  | error cause => rfl
  | ok line =>
      rw [answer, if_pos (isFarewell_iff.mpr h)]
      rfl

/-! ## Runs of lines -/

def joined (parts : List ByteArray) : ByteArray := parts.foldr (· ++ ·) .empty

theorem converse_append_of_answers {α : Type} {line : α → Except LineError String}
    {part : α → ByteArray} (held : ByteArray) {answered : List α}
    (rest : List (Except LineError String))
    (answers : ∀ a ∈ answered, ∀ held : ByteArray,
      answer (line a) ⟨none, held⟩ = (⟨none, held ++ part a⟩, none)) :
    converse ⟨none, held⟩ (answered.map line ++ rest) =
      converse ⟨none, held ++ joined (answered.map part)⟩ rest := by
  induction answered generalizing held with
  | nil => rw [List.map_nil, List.map_nil, joined, List.foldr_nil, ByteArray.append_empty,
      List.nil_append]
  | cons a answered ih =>
      obtain ⟨hanswer, answers⟩ := List.forall_mem_cons.mp answers
      rw [List.map_cons, List.cons_append, converse, hanswer held]
      refine (ih _ answers).trans ?_
      rw [List.map_cons, joined, joined, List.foldr_cons, ByteArray.append_assoc]

theorem converse_append_of_stays (read : FileReader) (input held : ByteArray)
    {answered : List String} (rest : List (Except LineError String))
    (stays : ∀ line ∈ answered, ¬ AsksToLeave line)
    (columns : ∀ line ∈ answered, Text.trim line.toList ≠ [] → Scan.ColumnsInRange line) :
    converse ⟨none, held⟩ (answered.map .ok ++ rest) =
      converse ⟨none, held ++ joined (answered.map (contribution platform read input))⟩ rest := by
  apply converse_append_of_answers
  intro line hline held
  exact answer_of_not_asksToLeave read input held (stays line hline) (columns line hline)

/-- The text of the line is scanned in a session: no line before it asks to leave or cannot be read,
and the line itself neither asks to leave nor is blank. -/
def Scans (edit : Editor) (input : ByteArray) (line : String) : Prop :=
  ¬ AsksToLeave line ∧ Text.trim line.toList ≠ [] ∧
    ∃ (answered : List String) (later : List (Except LineError String)),
      linesOf edit input = answered.map .ok ++ .ok line :: later ∧
        ∀ earlier ∈ answered, ¬ AsksToLeave earlier

theorem Scans.mem_linesOf {input : ByteArray} {line : String} (h : Scans edit input line) :
    .ok line ∈ linesOf edit input := by
  obtain ⟨-, -, answered, later, hlines, -⟩ := h
  rw [hlines]
  exact List.mem_append_right _ List.mem_cons_self

theorem scans_of_mem_answered {input : ByteArray} {line : String} {answered : List String}
    {rest : List (Except LineError String)} (hlines : linesOf edit input = answered.map .ok ++ rest)
    (stays : ∀ line ∈ answered, ¬ AsksToLeave line) (mem : line ∈ answered)
    (shows : Text.trim line.toList ≠ []) : Scans edit input line := by
  obtain ⟨earlier, later, rfl⟩ := List.append_of_mem mem
  refine ⟨stays line mem, shows, earlier, later.map .ok ++ rest, ?_, ?_⟩
  · rw [hlines, List.map_append, List.map_cons, List.append_assoc, List.cons_append]
  · intro line hline
    exact stays line (List.mem_append_left _ hline)

theorem exists_answered (lines : List (Except LineError String)) :
    ∃ (answered : List String) (rest : List (Except LineError String)),
      lines = answered.map .ok ++ rest ∧ (∀ line ∈ answered, ¬ AsksToLeave line) ∧
        ∀ line ∈ rest.head?, IsLast line := by
  induction lines with
  | nil => exact ⟨[], [], rfl, List.forall_mem_nil _, by simp⟩
  | cons first later ih =>
      by_cases hlast : IsLast first
      · exact ⟨[], first :: later, rfl, List.forall_mem_nil _, by simpa using hlast⟩
      · cases first with
        | error cause => exact absurd trivial hlast
        | ok line =>
            obtain ⟨answered, rest, hlines, hstays, hrest⟩ := ih
            refine ⟨line :: answered, rest, ?_, List.forall_mem_cons.mpr ⟨hlast, hstays⟩, hrest⟩
            rw [hlines, List.map_cons, List.cons_append]

theorem converse_append_of_isLast {lines : List (Except LineError String)}
    (later : List (Except LineError String)) (sink : Sink) (h : ∃ line ∈ lines, IsLast line) :
    converse sink (lines ++ later) = converse sink lines := by
  induction lines generalizing sink with
  | nil => simp at h
  | cons line lines ih =>
      rw [List.cons_append, converse, converse]
      rcases hanswer : answer line sink with ⟨next, _ | ending⟩
      · have hline : ¬ IsLast line := by
          intro hlast
          have hends := answer_of_isLast sink hlast
          rw [hanswer] at hends
          contradiction
        have hlater : ∃ line ∈ lines, IsLast line := by simpa [hline] using h
        exact ih next hlater
      · rfl

/-! ## How a session closes -/

/-- A line that cannot be read stands before the end of the input and before any line that asks to
leave. -/
def Reaches (edit : Editor) (input : ByteArray) (cause : LineError) : Prop :=
  ∃ (answered : List String) (later : List (Except LineError String)),
    linesOf edit input = answered.map .ok ++ .error cause :: later ∧
      ∀ line ∈ answered, ¬ AsksToLeave line

/-- The editor breaks down on no line that a session reads. -/
def EditsAll (edit : Editor) (input : ByteArray) : Prop := ¬ Reaches edit input .notEdited

/-- How a session closes when these lines are left: the exit status, what is printed last, and what
is written to the error stream. -/
inductive Closes : List (Except LineError String) → ExitStatus → String → String → Prop
  | endOfInput : Closes [] .success "\nGoodbye!\n" ""
  | left {line : String} {later : List (Except LineError String)} (asks : AsksToLeave line) :
      Closes (.ok line :: later) .success "Goodbye!\n" ""
  | notUtf8 {later : List (Except LineError String)} :
      Closes (.error .notUtf8 :: later) .failure ""
        "Error: readline error: stream did not contain valid UTF-8\n"

theorem exists_closes (held : ByteArray) {rest : List (Except LineError String)}
    (last : ∀ line ∈ rest.head?, IsLast line) (edits : rest.head? ≠ some (.error .notEdited)) :
    ∃ exit shown stderr, Closes rest exit shown stderr ∧
      Outcome.ofSession platform (converse ⟨none, held⟩ rest) =
        ⟨exit, held ++ shown.toUTF8, stderr⟩ := by
  cases rest with
  | nil =>
      have hfarewell : "\n" ++ farewellText = "\nGoodbye!\n" := by decide
      refine ⟨_, _, _, .endOfInput, ?_⟩
      rw [converse, Sink.write_of_no_limit _ rfl, hfarewell]
      rfl
  | cons line later =>
      cases line with
      | ok line =>
          have hasks : AsksToLeave line := last _ rfl
          refine ⟨_, _, _, .left hasks, ?_⟩
          rw [converse, answer, if_pos (isFarewell_iff.mpr hasks), Sink.write_of_no_limit _ rfl]
          rfl
      | error cause =>
          cases cause with
          | notUtf8 =>
              have hnothing : held ++ "".toUTF8 = held := ByteArray.append_empty
              refine ⟨_, _, _, .notUtf8, ?_⟩
              rw [hnothing]
              rfl
          | notEdited => exact absurd rfl edits

/-! ## Lines in bytes -/

theorem linesOf_lineFeed (edit : Editor) (before after : ByteArray) :
    linesOf edit (before ++ ⟨#[lineFeed]⟩ ++ after) =
      (before.data.toList.splitOn lineFeed).map (decodeLine edit true) ++ linesOf edit after := by
  have hparts : (before ++ ⟨#[lineFeed]⟩ ++ after).data.toList.splitOn lineFeed =
      before.data.toList.splitOn lineFeed ++ after.data.toList.splitOn lineFeed := by
    rw [← List.splitOn_append_cons_self]
    simp
  have hafter : after.data.toList.splitOn lineFeed ≠ [] := List.splitOn_ne_nil _ _
  simp only [linesOf, hparts, List.dropLast_append_of_ne_nil hafter, List.map_append,
    List.append_assoc, List.getLastD_eq_getLast?, List.getLast?_append_of_ne_nil _ hafter]

theorem linesOf_append_lineFeed (before after : ByteArray) :
    linesOf edit (before ++ ⟨#[lineFeed]⟩ ++ after) =
      linesOf edit (before ++ ⟨#[lineFeed]⟩) ++ linesOf edit after := by
  have hnone : linesOf edit .empty = [] := rfl
  have hfront := linesOf_lineFeed edit before .empty
  rw [ByteArray.append_empty, hnone, List.append_nil] at hfront
  rw [linesOf_lineFeed, hfront]

theorem linesOf_toUTF8 {text : String} (h : lineFeed ∉ text.toUTF8.data.toList) :
    linesOf edit (text.toUTF8 ++ ⟨#[lineFeed]⟩) = [typedLine edit true text] := by
  have hnone : linesOf edit .empty = [] := rfl
  have hlines := linesOf_lineFeed edit text.toUTF8 .empty
  have hbytes : (⟨text.toUTF8.data.toList.toArray⟩ : ByteArray) = text.toUTF8 := by simp
  rwa [ByteArray.append_empty, hnone, List.append_nil, List.splitOn_eq_singleton h,
    List.map_singleton, decodeLine, hbytes, Text.fromUTF8?_toUTF8] at hlines

end Prompt

theorem Outcome.ofInvocationOn_nil (platform : Platform) (read : FileReader) (input : ByteArray) :
    ofInvocationOn platform [] read input =
      ofSession platform
        (Prompt.converse ⟨none, bannerText.toUTF8⟩ (Prompt.linesOf platform.edit input)) := by
  have hbanner : (Sink.unlimited.write bannerText).1 = ⟨none, bannerText.toUTF8⟩ := by
    rw [Sink.write_of_no_limit _ rfl, Sink.unlimited, Sink.empty, ByteArray.empty_append]
  rw [← hbanner]
  rfl

theorem Outcome.ofInvocationOn_nil_of_answered {platform : Platform} (read elsewhere : FileReader)
    {input : ByteArray} (other : ByteArray) {answered : List String}
    {rest : List (Except Prompt.LineError String)}
    (hlines : Prompt.linesOf platform.edit input = answered.map .ok ++ rest)
    (stays : ∀ line ∈ answered, ¬ Prompt.AsksToLeave line)
    (columns : ∀ line, Prompt.Scans platform.edit input line → Scan.ColumnsInRange line) :
    ofInvocationOn platform [] read input =
      ofSession platform (Prompt.converse ⟨none, bannerText.toUTF8 ++
        Prompt.joined (answered.map (Prompt.contribution platform elsewhere other))⟩ rest) := by
  have hcolumns : ∀ line ∈ answered, Text.trim line.toList ≠ [] → Scan.ColumnsInRange line :=
    fun line hline hshows =>
      columns line (Prompt.scans_of_mem_answered hlines stays hline hshows)
  rw [ofInvocationOn_nil, hlines, Prompt.converse_append_of_stays elsewhere other _ rest stays
    hcolumns]

/-- If the line editor breaks down on no line that is read, and no line that is scanned has a record
beyond the last caret column, the program without arguments prints the banner and for each line what
it prints with that line as its code, or nothing if the line is blank. It closes at the first line
that asks to leave or is not UTF-8, or at the end of the input. What is behind the line that closes
it changes nothing. -/
theorem session_is_line_by_line (platform : Platform) (read elsewhere : FileReader)
    (input other : ByteArray) :
    (Prompt.EditsAll platform.edit input →
      (∀ line, Prompt.Scans platform.edit input line → Scan.ColumnsInRange line) →
      ∃ (answered : List String) (rest : List (Except Prompt.LineError String)) (exit : ExitStatus)
        (last stderr : String),
        Prompt.linesOf platform.edit input = answered.map .ok ++ rest ∧
        (∀ line ∈ answered, ¬ Prompt.AsksToLeave line) ∧
        Prompt.Closes rest exit last stderr ∧
        Outcome.ofInvocationOn platform [] read input =
          ⟨exit, bannerText.toUTF8 ++
            Prompt.joined (answered.map (Prompt.contribution platform elsewhere other)) ++
            last.toUTF8, stderr⟩) ∧
    (∀ before after : ByteArray, input = before ++ ⟨#[Prompt.lineFeed]⟩ ++ after →
      (∃ line ∈ Prompt.linesOf platform.edit (before ++ ⟨#[Prompt.lineFeed]⟩),
        Prompt.IsLast line) →
      Outcome.ofInvocationOn platform [] read input =
        Outcome.ofInvocationOn platform [] read (before ++ ⟨#[Prompt.lineFeed]⟩)) := by
  constructor
  · intro edits columns
    obtain ⟨answered, rest, hlines, hstays, hlast⟩ :=
      Prompt.exists_answered (Prompt.linesOf platform.edit input)
    let shown := Prompt.joined (answered.map (Prompt.contribution platform elsewhere other))
    have hedits : rest.head? ≠ some (.error .notEdited) := by
      intro hhead
      obtain ⟨later, rfl⟩ := List.head?_eq_some_iff.mp hhead
      exact edits ⟨answered, later, hlines, hstays⟩
    obtain ⟨exit, last, stderr, hcloses, houtcome⟩ :=
      Prompt.exists_closes (bannerText.toUTF8 ++ shown) hlast hedits
    refine ⟨answered, rest, exit, last, stderr, hlines, hstays, hcloses, ?_⟩
    rw [Outcome.ofInvocationOn_nil_of_answered read elsewhere other hlines hstays columns]
    exact houtcome
  · rintro before after rfl hlast
    rw [Outcome.ofInvocationOn_nil, Outcome.ofInvocationOn_nil, Prompt.linesOf_append_lineFeed,
      Prompt.converse_append_of_isLast _ _ hlast]

/-- A number with a slip taken back, a line that is blank only to the prompt, a fault, and a word
for leaving between blanks; behind it a byte that belongs to no text. -/
theorem session_is_line_by_line_up_to_quit :
    let read : FileReader := fun _ => .error .notFound
    let edit := Platform.standard.edit
    let before := "12\x08\n\u00A0\n@ x\r\n\tquit ".toUTF8
    let after : ByteArray := ⟨#[0xFF, 0x0A]⟩
    let input := before ++ ⟨#[Prompt.lineFeed]⟩ ++ after
    Prompt.EditsAll edit input ∧
      (∀ line, Prompt.Scans edit input line → Scan.ColumnsInRange line) ∧
      (∃ (answered : List String) (rest : List (Except Prompt.LineError String))
        (exit : ExitStatus) (last stderr : String),
        Prompt.linesOf edit input = answered.map .ok ++ rest ∧
        (∀ line ∈ answered, ¬ Prompt.AsksToLeave line) ∧
        Prompt.Closes rest exit last stderr ∧
        Outcome.ofInvocationOn .standard [] read input =
          ⟨exit, bannerText.toUTF8 ++
            Prompt.joined (answered.map (Prompt.contribution .standard read .empty)) ++
            last.toUTF8, stderr⟩) ∧
      (∃ line ∈ Prompt.linesOf edit (before ++ ⟨#[Prompt.lineFeed]⟩), Prompt.IsLast line) ∧
      Outcome.ofInvocationOn .standard [] read input =
        Outcome.ofInvocationOn .standard [] read (before ++ ⟨#[Prompt.lineFeed]⟩) := by
  intro read edit before after input
  have hlines : Prompt.linesOf edit input =
      [.ok "1", .ok "\u00A0", .ok "@ x", .ok "\tquit ", .error .notUtf8] := by decide +kernel
  have hfront : Prompt.linesOf edit (before ++ ⟨#[Prompt.lineFeed]⟩) =
      [.ok "1", .ok "\u00A0", .ok "@ x", .ok "\tquit "] := by decide +kernel
  have hedits : Prompt.EditsAll edit input := by
    rintro ⟨answered, later, hsplit, -⟩
    have hmem : .error .notEdited ∈ Prompt.linesOf edit input := by simp [hsplit]
    simp [hlines] at hmem
  have hcolumns : ∀ line, Prompt.Scans edit input line → Scan.ColumnsInRange line := by
    intro line hscans
    have hline := hscans.mem_linesOf
    rw [hlines] at hline
    simp only [List.mem_cons, Except.ok.injEq, reduceCtorEq, List.not_mem_nil, or_false] at hline
    rcases hline with rfl | rfl | rfl | rfl <;> decide +kernel
  have hlast : ∃ line ∈ Prompt.linesOf edit (before ++ ⟨#[Prompt.lineFeed]⟩),
      Prompt.IsLast line := by
    have hquit : Prompt.AsksToLeave "\tquit " := by decide +kernel
    exact ⟨.ok "\tquit ", by rw [hfront]; simp, hquit⟩
  obtain ⟨hsession, hbehind⟩ := session_is_line_by_line .standard read read input .empty
  exact ⟨hedits, hcolumns, hsession hedits hcolumns, hlast, hbehind before after rfl hlast⟩

end Lexis
