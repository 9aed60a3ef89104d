import Lexis.Proofs.ErrorAutomaton
import Lexis.Proofs.Printing
import Lexis.Proofs.Writing
import Mathlib.Data.List.Nodup

/-!
# What can be read back from the output

A line of a listing shows where it ends, although strings may hold line feeds and whole lines that
look like those of a listing: its lexeme is the segment that a scan finds there. A block of a report
shows where it ends because neither message nor context holds a line feed. So a listing with the
report behind it can belong to one list of tokens and one list of records only.
-/

namespace Lexis

/-- From the printed text of a value the value can be told, as far as `view` shows it, and where the
text ends, whatever is printed behind it. -/
def SelfDelimiting {α β : Type} (P : α → Prop) (view : α → β) (print : α → List Char) : Prop :=
  ∀ ⦃a b : α⦄ ⦃rest more : List Char⦄, P a → P b → print a ++ rest = print b ++ more →
    view a = view b ∧ rest = more

namespace SelfDelimiting

variable {α β : Type} {P : α → Prop} {view : α → β} {print : α → List Char}

theorem map_eq_of_flatMap_eq (h : SelfDelimiting P view print) (filled : ∀ a, P a → print a ≠ [])
    {as bs : List α} (has : ∀ a ∈ as, P a) (hbs : ∀ b ∈ bs, P b)
    (same : as.flatMap print = bs.flatMap print) : as.map view = bs.map view := by
  induction as generalizing bs with
  | nil =>
      cases bs with
      | nil => rfl
      | cons b bs =>
          have hempty := (List.append_eq_nil_iff.mp same.symm).1
          exact absurd hempty (filled b (hbs b List.mem_cons_self))
  | cons a as ih =>
      obtain ⟨ha, has⟩ := List.forall_mem_cons.mp has
      cases bs with
      | nil => exact absurd (List.append_eq_nil_iff.mp same).1 (filled a ha)
      | cons b bs =>
          obtain ⟨hb, hbs⟩ := List.forall_mem_cons.mp hbs
          obtain ⟨hview, hrest⟩ := h ha hb same
          rw [List.map_cons, List.map_cons, hview, ih has hbs hrest]

/-- Printed values up to a closing one, which looks like none of the others, and any text behind
it. -/
theorem map_eq_of_closed (h : SelfDelimiting P view print) {as bs : List α} {x y : α}
    {rest more : List Char} (has : ∀ a ∈ as, P a) (hbs : ∀ b ∈ bs, P b) (hx : P x) (hy : P y)
    (open_a : ∀ a ∈ as, view a ≠ view y) (open_b : ∀ b ∈ bs, view b ≠ view x)
    (same : as.flatMap print ++ (print x ++ rest) = bs.flatMap print ++ (print y ++ more)) :
    as.map view = bs.map view ∧ rest = more := by
  induction as generalizing bs with
  | nil =>
      cases bs with
      | nil => exact ⟨rfl, (h hx hy same).2⟩
      | cons b bs =>
          rw [List.flatMap_cons, List.append_assoc] at same
          obtain ⟨hview, -⟩ := h hx (hbs b List.mem_cons_self) same
          exact absurd hview.symm (open_b b List.mem_cons_self)
  | cons a as ih =>
      obtain ⟨ha, has⟩ := List.forall_mem_cons.mp has
      obtain ⟨hopen, open_a⟩ := List.forall_mem_cons.mp open_a
      rw [List.flatMap_cons, List.append_assoc] at same
      cases bs with
      | nil => exact absurd (h ha hy same).1 hopen
      | cons b bs =>
          obtain ⟨hb, hbs⟩ := List.forall_mem_cons.mp hbs
          obtain ⟨-, open_b⟩ := List.forall_mem_cons.mp open_b
          rw [List.flatMap_cons, List.append_assoc] at same
          obtain ⟨hview, hlater⟩ := h ha hb same
          obtain ⟨hviews, hrest⟩ := ih has hbs open_a open_b hlater
          exact ⟨by rw [List.map_cons, List.map_cons, hview, hviews], hrest⟩

end SelfDelimiting

theorem append_cons_inj_of_not_mem {d : Char} {front other rest more : List Char}
    (hfront : d ∉ front) (hother : d ∉ other) (same : front ++ d :: rest = other ++ d :: more) :
    front = other ∧ rest = more := by
  have stop (later : List Char) : ∀ c ∈ (d :: later).head?, ¬ (c != d) := by
    intro c hc
    simp [← Option.some.inj hc]
  have htake := congrArg (List.takeWhile (· != d)) same
  rw [takeWhile_append_of_stop (forall_bne_of_not_mem hfront) (stop rest),
    takeWhile_append_of_stop (forall_bne_of_not_mem hother) (stop more)] at htake
  rw [htake] at same
  exact ⟨htake, List.tail_eq_of_cons_eq (List.append_cancel_left same)⟩

/-! ## Lines of a listing -/

theorem Kind.name_injective {a b : Kind} (h : a.name = b.name) : a = b := by
  have distinct : (all.map name).Nodup := by decide +kernel
  exact List.inj_on_of_nodup_map distinct (mem_all a) (mem_all b) h

theorem Kind.blank_not_mem_name (kind : Kind) : ' ' ∉ kind.name.toList := by
  have oneWord : ∀ kind ∈ all, ' ' ∉ kind.name.toList := by decide +kernel
  exact oneWord kind (mem_all kind)

namespace Segment

/-- Two segments that make tokens and stand before a blank are the same if the texts from there on
are: each is what a scan finds at the front. -/
theorem eq_of_append_blank {a b : Segment} {c d : Char} {rest more : List Char}
    (ha : a.WellFormed) (hb : b.WellFormed) (makes_a : a.rule?.any Rule.makesToken)
    (makes_b : b.rule?.any Rule.makesToken) (hc : c.isWhitespace) (hd : d.isWhitespace)
    (same : a.text ++ c :: rest = b.text ++ d :: more) : a = b := by
  have ends {segment : Segment} {blank : Char} (tail : List Char)
      (makes : segment.rule?.any Rule.makesToken) (hblank : blank.isWhitespace) :
      segment.EndsBefore (blank :: tail) := by
    refine (endsBefore_nil segment).append_blank tail hblank ?_ ?_
    · rintro body rfl
      contradiction
    · rintro contents rfl
      contradiction
  obtain ⟨e, later, split⟩ := List.exists_cons_of_ne_nil
    (List.append_ne_nil_of_left_ne_nil (text_ne_nil_of_wellFormed ha) (c :: rest))
  rw [← first_of_endsBefore ha (ends rest makes_a hc) split]
  exact first_of_endsBefore hb (ends more makes_b hd) (same.symm.trans split)

theorem makesToken_of_token? {segment : Segment} {offset : Nat} {token : Token}
    (h : segment.token? offset = some token) : segment.rule?.any Rule.makesToken := by
  cases segment <;> first | rfl | contradiction

theorem kind_ne_endOfFile {segment : Segment} {offset : Nat} {token : Token}
    (h : segment.token? offset = some token) : token.kind ≠ .endOfFile := by
  cases segment <;> simp only [token?, Option.some.injEq, reduceCtorEq] at h <;> subst h
  case word letters =>
    show Kind.ofWord _ ≠ _
    unfold Kind.ofWord
    split <;> exact Kind.noConfusion
  all_goals exact Kind.noConfusion

end Segment

namespace Token

/-- A token that a scan can return. -/
inductive IsScanned : Token → Prop
  | segment {segment : Segment} {offset : Nat} {token : Token} (form : segment.WellFormed)
      (made : segment.token? offset = some token) : IsScanned token
  | endOfFile (offset : Nat) : IsScanned (endOfFile offset)

/-- What a line of a listing shows behind the kind and the blank after it. -/
def shownBehindKind (token : Token) : List Char :=
  token.lexeme.toList ++
    (match token.literal with
      | some literal => ' ' :: literal.display.toList
      | none => []) ++ ['\n']

theorem shownBehindKind_of_content {a b : Token} (h : a.content = b.content) :
    a.shownBehindKind = b.shownBehindKind := by
  obtain ⟨-, hrest⟩ := Prod.mk.inj h
  obtain ⟨hlexeme, hliteral⟩ := Prod.mk.inj hrest
  rw [shownBehindKind, hlexeme, hliteral, shownBehindKind]

theorem exists_blank_behind_lexeme (token : Token) :
    ∃ c tail, c.isWhitespace ∧ token.shownBehindKind = token.lexeme.toList ++ c :: tail := by
  rw [shownBehindKind]
  cases token.literal with
  | none => exact ⟨'\n', [], by decide, by simp⟩
  | some literal => exact ⟨' ', literal.display.toList ++ ['\n'], by decide, by simp⟩

end Token

namespace Listing

def line (token : Token) : List Char := ("Token: " ++ token.display ++ "\n").toList

theorem line_eq (token : Token) :
    line token = "Token: ".toList ++
      (token.kind.name.toList ++ ' ' :: token.shownBehindKind) := by
  rw [line, Token.display, Token.pieces, Token.shownBehindKind]
  cases token.literal <;> simp

theorem toList_ofText (source : String) :
    (ofText source).toList = (Scan.ofText source).tokens.flatMap line := by
  rw [ofText, String.toList_join, List.flatMap_map]
  rfl

/-- Tokens of the same segment show the same; of different segments, one is found at the front. -/
theorem content_eq_of_segments {a b : Token} {rest more : List Char} {s t : Segment}
    {offset other : Nat} (form_s : s.WellFormed) (form_t : t.WellFormed)
    (made_a : s.token? offset = some a) (made_b : t.token? other = some b)
    (same : a.shownBehindKind ++ rest = b.shownBehindKind ++ more) : a.content = b.content := by
  obtain ⟨c, tail_a, hc, hshown_a⟩ := a.exists_blank_behind_lexeme
  obtain ⟨d, tail_b, hd, hshown_b⟩ := b.exists_blank_behind_lexeme
  rw [hshown_a, hshown_b, (Segment.token?_text made_a).1, (Segment.token?_text made_b).1,
    String.toList_ofList, String.toList_ofList, List.append_assoc, List.append_assoc] at same
  obtain rfl : s = t := Segment.eq_of_append_blank form_s form_t
    (Segment.makesToken_of_token? made_a) (Segment.makesToken_of_token? made_b) hc hd same
  obtain ⟨token, -, -, hmoved⟩ := Scan.exists_token (Segment.makesToken_of_token? made_a)
  have hfirst : token.shift offset = a := Option.some.inj ((hmoved offset).symm.trans made_a)
  have hsecond : token.shift other = b := Option.some.inj ((hmoved other).symm.trans made_b)
  rw [← hfirst, ← hsecond]
  rfl

theorem line_selfDelimiting : SelfDelimiting Token.IsScanned Token.content line := by
  intro a b rest more ha hb same
  simp only [line_eq, List.append_assoc, List.cons_append] at same
  have hkinds := List.append_cancel_left same
  obtain ⟨hname, hshown⟩ := append_cons_inj_of_not_mem a.kind.blank_not_mem_name
    b.kind.blank_not_mem_name hkinds
  have hkind : a.kind = b.kind := Kind.name_injective (String.toList_inj.mp hname)
  have hcontent : a.content = b.content := by
    cases ha with
    | endOfFile offset =>
        cases hb with
        | endOfFile other => rfl
        | segment form made => exact absurd hkind.symm (Segment.kind_ne_endOfFile made)
    | segment form made =>
        cases hb with
        | endOfFile other => exact absurd hkind (Segment.kind_ne_endOfFile made)
        | segment form' made' => exact content_eq_of_segments form form' made made' hshown
  rw [Token.shownBehindKind_of_content hcontent] at hshown
  exact ⟨hcontent, List.append_cancel_left hshown⟩

end Listing

/-! ## Blocks of a report -/

theorem isDigit_of_mem_toString {number : Nat} {c : Char} (h : c ∈ (toString number).toList) :
    c.isDigit := by
  rw [Nat.toString_eq_repr, Nat.toList_repr] at h
  exact Nat.isDigit_of_mem_toDigits (by decide) (by decide) h

theorem not_mem_toString {c : Char} (number : Nat) (h : ¬ c.isDigit) :
    c ∉ (toString number).toList := fun hmem => h (isDigit_of_mem_toString hmem)

theorem toString_injective {a b : Nat} (h : (toString a).toList = (toString b).toList) : a = b := by
  rw [Nat.toString_eq_repr, Nat.toString_eq_repr, Nat.toList_repr, Nat.toList_repr] at h
  have hread := congrArg (Nat.ofDigitChars 10 · 0) h
  simpa only [Nat.ofDigitChars_ten_toDigits] using hread

namespace Diagnostic

/-- The line of the text is known, and neither it nor the message goes on over a line feed. -/
def IsOneLine (record : Diagnostic) : Prop :=
  '\n' ∉ record.message.toList ∧ ∃ context, record.context = some context ∧ '\n' ∉ context.toList

def filenamePrefix (filename : Option String) : List Char :=
  match filename with
  | some name => name.toList ++ [':']
  | none => []

theorem block_eq (filename : Option String) {record : Diagnostic} {context : String}
    (h : record.context = some context) :
    (record.block filename).toList = filenamePrefix filename ++
      ((toString record.position.line).toList ++ ':' ::
        ((toString record.position.column).toList ++ ' ' ::
          ("error: ".toList ++ (record.message.toList ++ '\n' ::
            ("    ".toList ++ (context.toList ++ '\n' ::
              (caretLine record.position.column).toList)))))) := by
  rw [block, h]
  cases filename <;>
    simp [headerLine, filenamePrefix, display, Position.display, contextLine]

theorem block_ne_nil (filename : Option String) {record : Diagnostic} (h : record.IsOneLine) :
    (record.block filename).toList ≠ [] := by
  obtain ⟨-, context, hcontext, -⟩ := h
  rw [block_eq filename hcontext]
  simp

theorem block_selfDelimiting (filename : Option String) :
    SelfDelimiting IsOneLine id fun record => (record.block filename).toList := by
  intro a b rest more ⟨hmessage_a, text_a, hcontext_a, htext_a⟩
    ⟨hmessage_b, text_b, hcontext_b, htext_b⟩ same
  have noColon : ¬ ':'.isDigit := by decide
  have noBlank : ¬ ' '.isDigit := by decide
  beta_reduce at same
  rw [block_eq filename hcontext_a, block_eq filename hcontext_b] at same
  simp only [List.append_assoc, List.cons_append] at same
  obtain ⟨hline, same⟩ := append_cons_inj_of_not_mem (not_mem_toString _ noColon)
    (not_mem_toString _ noColon) (List.append_cancel_left same)
  obtain ⟨hcolumn, same⟩ := append_cons_inj_of_not_mem (not_mem_toString _ noBlank)
    (not_mem_toString _ noBlank) same
  obtain ⟨hmessage, same⟩ := append_cons_inj_of_not_mem hmessage_a hmessage_b
    (List.append_cancel_left same)
  obtain ⟨htext, same⟩ := append_cons_inj_of_not_mem htext_a htext_b
    (List.append_cancel_left same)
  have hposition : a.position = b.position := by
    rw [← Position.compare_eq_eq, Position.compare, toString_injective hline,
      toString_injective hcolumn]
    simp
  have hcontext : a.context = b.context := by
    rw [hcontext_a, hcontext_b, String.toList_inj.mp htext]
  rw [hposition] at same
  refine ⟨?_, List.append_cancel_left same⟩
  calc a = ⟨a.position, a.message, a.context⟩ := rfl
    _ = ⟨b.position, b.message, b.context⟩ := by
      rw [hposition, String.toList_inj.mp hmessage, hcontext]
    _ = b := rfl

end Diagnostic

/-! ## Scans -/

namespace Scan

theorem isScanned_of_mem_properTokens {source : List Char} {token : Token}
    (h : token ∈ properTokens source) :
    token.IsScanned ∧ token.content ≠ (Token.endOfFile 0).content := by
  obtain ⟨segment, offset, hform, hmade⟩ := exists_segment_of_mem_properTokens h
  refine ⟨.segment hform hmade, ?_⟩
  intro hcontent
  exact Segment.kind_ne_endOfFile hmade (congrArg Prod.fst hcontent)

theorem isOneLine_of_mem_diagnostics {source : String} {record : Diagnostic}
    (h : record ∈ (ofText source).diagnostics) : record.IsOneLine := by
  have oneLine (fault : Fault) : '\n' ∉ fault.message.toList := by cases fault <;> decide
  rw [ofText_diagnostics, List.mem_map] at h
  obtain ⟨error, herror, rfl⟩ := h
  obtain ⟨front, rest, hsource, hoffset⟩ := mem_faults herror
  have hdescribes := describes_ofFault front rest error.2
  rw [← hsource, ← hoffset] at hdescribes
  obtain ⟨before, here, there, after, -, -, -, hline, -, -, -, -, hcontext⟩ := hdescribes
  exact ⟨oneLine error.2, _, hcontext, by rwa [String.toList_ofList]⟩

/-- The listings of two texts, with anything behind them, are the same only if the tokens are, up to
where they stand, and what is behind them is the same too. -/
theorem content_eq_of_listing_append {a b : String} {rest more : List Char}
    (same : (Listing.ofText a).toList ++ rest = (Listing.ofText b).toList ++ more) :
    (ofText a).tokens.map Token.content = (ofText b).tokens.map Token.content ∧ rest = more := by
  rw [Listing.toList_ofText, Listing.toList_ofText, ofText_tokens, ofText_tokens,
    List.flatMap_append, List.flatMap_append, List.flatMap_singleton, List.flatMap_singleton,
    List.append_assoc, List.append_assoc] at same
  obtain ⟨hcontents, hrest⟩ := Listing.line_selfDelimiting.map_eq_of_closed
    (fun token h => (isScanned_of_mem_properTokens h).1)
    (fun token h => (isScanned_of_mem_properTokens h).1) (.endOfFile _) (.endOfFile _)
    (fun token h => (isScanned_of_mem_properTokens h).2)
    (fun token h => (isScanned_of_mem_properTokens h).2) same
  refine ⟨?_, hrest⟩
  rw [ofText_tokens, ofText_tokens, List.map_append, List.map_append, hcontents]
  rfl

theorem diagnostics_eq_of_reportText {filename : Option String} {a b : String}
    (same : (⟨filename, (ofText a).diagnostics⟩ : ErrorLog).reportText.toList =
      (⟨filename, (ofText b).diagnostics⟩ : ErrorLog).reportText.toList) :
    (ofText a).diagnostics = (ofText b).diagnostics := by
  simp only [ErrorLog.reportText, String.toList_join, List.flatMap_map] at same
  have hrecords := (Diagnostic.block_selfDelimiting filename).map_eq_of_flatMap_eq
    (fun record h => Diagnostic.block_ne_nil filename h)
    (fun record h => isOneLine_of_mem_diagnostics h)
    (fun record h => isOneLine_of_mem_diagnostics h) same
  rwa [List.map_id, List.map_id] at hrecords

end Scan

/-! ## Bytes -/

theorem Text.exists_append_of_toUTF8 {a b : String} {rest : ByteArray}
    (h : b.toUTF8 = a.toUTF8 ++ rest) : ∃ more : String, b = a ++ more ∧ rest = more.toUTF8 := by
  have hend : a.rawEndPos.IsValid b := by
    have hsize : b.utf8ByteSize = a.utf8ByteSize + rest.size := by
      rw [← String.size_toByteArray, ← String.toUTF8_eq_toByteArray, h, ByteArray.size_append]
      rfl
    have hfront : b.toByteArray.extract 0 a.rawEndPos.byteIdx = a.toByteArray := by
      rw [← String.toUTF8_eq_toByteArray, h]
      exact ByteArray.extract_append_eq_left rfl
    rw [String.Pos.Raw.isValid_iff_isValidUTF8_extract_zero, hfront]
    refine ⟨?_, a.isValidUTF8⟩
    show a.utf8ByteSize ≤ b.utf8ByteSize
    omega
  obtain ⟨front, more, hsplit, hfront⟩ := String.Pos.Raw.isValid_iff_exists_append.mp hend
  have hbytes : front.toByteArray ++ more.toByteArray = a.toByteArray ++ rest := by
    rw [← String.toByteArray_append, ← hsplit]
    exact h
  have hsize : front.toByteArray.size = a.toByteArray.size :=
    (congrArg String.Pos.Raw.byteIdx hfront).symm
  have hsame : front = a := String.toByteArray_inj.mp (ByteArray.append_inj_left hbytes hsize)
  rw [hsame] at hsplit hbytes
  exact ⟨more, hsplit, ((ByteArray.append_right_inj _).mp hbytes).symm⟩

def listed (source : String) : ByteArray :=
  ((ErrorLog.empty none).list source Sink.unlimited).2.1.held

/-- The bytes that a sink without a limit takes as the listing of a text and then as the report of
its records. -/
def listedAndReported (filename : Option String) (source : String) : ByteArray :=
  let (log, sink, _) := (ErrorLog.empty filename).list source Sink.unlimited
  (log.writeReport sink).1.held

theorem listed_eq (source : String) : listed source = (Listing.ofText source).toUTF8 := by
  rw [listed, Sink.unlimited, ErrorLog.list_empty_sink]
  rfl

theorem listedAndReported_eq {filename : Option String} {source : String}
    (h : ∀ record ∈ (Scan.ofText source).diagnostics, record.position.column ≤ 65535) :
    listedAndReported filename source =
      (Listing.ofText source ++
        (⟨filename, (Scan.ofText source).diagnostics⟩ : ErrorLog).reportText).toUTF8 := by
  have hcarets : (⟨filename, (Scan.ofText source).diagnostics⟩ : ErrorLog).CaretsInRange :=
    fun record hrecord _ => h record hrecord
  rw [listedAndReported, Sink.unlimited, ErrorLog.list_empty_sink]
  show (ErrorLog.writeReport ⟨filename, (Scan.ofText source).diagnostics⟩ ⟨none, _⟩).1.held = _
  rw [ErrorLog.writeReport_of_no_limit _ hcarets]
  exact String.toByteArray_append.symm

/-- One filename, and no column that a caret does not reach: what is written for a text, the listing
and the report behind it, is written for no text with other tokens or other records. No listing
goes on where another one ends. -/
theorem output_determines_scan (filename : Option String) (a b : String) :
    ((∀ record ∈ (Scan.ofText a).diagnostics, record.position.column ≤ 65535) →
      (∀ record ∈ (Scan.ofText b).diagnostics, record.position.column ≤ 65535) →
      listedAndReported filename a = listedAndReported filename b →
      (Scan.ofText a).tokens.map Token.content = (Scan.ofText b).tokens.map Token.content ∧
      (Scan.ofText a).diagnostics = (Scan.ofText b).diagnostics) ∧
    (∀ rest, listed b = listed a ++ rest → rest = ByteArray.empty) := by
  constructor
  · intro ha hb same
    rw [listedAndReported_eq ha, listedAndReported_eq hb, String.toUTF8_eq_toByteArray,
      String.toUTF8_eq_toByteArray, String.toByteArray_inj, ← String.toList_inj,
      String.toList_append, String.toList_append] at same
    obtain ⟨hcontents, hreports⟩ := Scan.content_eq_of_listing_append same
    exact ⟨hcontents, Scan.diagnostics_eq_of_reportText hreports⟩
  · intro rest hrest
    rw [listed_eq, listed_eq] at hrest
    obtain ⟨more, htext, hmore⟩ := Text.exists_append_of_toUTF8 hrest
    have same : (Listing.ofText b).toList ++ [] = (Listing.ofText a).toList ++ more.toList := by
      rw [htext, String.toList_append, List.append_nil]
    have hnone := (Scan.content_eq_of_listing_append same).2
    rw [hmore, String.toList_eq_nil_iff.mp hnone.symm]
    rfl

/-- A string whose second line is like one of a listing, and the same text with a comment on a line
of its own behind it. -/
theorem output_determines_scan_before_comment :
    (∀ record ∈ (Scan.ofText "\"\nToken: \" @").diagnostics, record.position.column ≤ 65535) ∧
      (∀ record ∈ (Scan.ofText "\"\nToken: \" @\n// é").diagnostics,
        record.position.column ≤ 65535) ∧
      listedAndReported (some "f") "\"\nToken: \" @" =
        listedAndReported (some "f") "\"\nToken: \" @\n// é" ∧
      (Scan.ofText "\"\nToken: \" @").tokens.map Token.content =
        (Scan.ofText "\"\nToken: \" @\n// é").tokens.map Token.content ∧
      (Scan.ofText "\"\nToken: \" @").diagnostics =
        (Scan.ofText "\"\nToken: \" @\n// é").diagnostics ∧
      ∃ rest, listed "\"\nToken: \" @\n// é" = listed "\"\nToken: \" @" ++ rest ∧
        rest = ByteArray.empty := by
  let a := "\"\nToken: \" @"
  let b := "\"\nToken: \" @\n// é"
  have ha : ∀ record ∈ (Scan.ofText a).diagnostics, record.position.column ≤ 65535 := by
    decide +kernel
  have hb : ∀ record ∈ (Scan.ofText b).diagnostics, record.position.column ≤ 65535 := by
    decide +kernel
  have same : listedAndReported (some "f") a = listedAndReported (some "f") b := by decide +kernel
  have hlisted : listed b = listed a ++ ByteArray.empty := by decide +kernel
  obtain ⟨hscan, hprefix⟩ := output_determines_scan (some "f") a b
  obtain ⟨hcontents, hdiagnostics⟩ := hscan ha hb same
  exact ⟨ha, hb, same, hcontents, hdiagnostics, _, hlisted, hprefix _ hlisted⟩

end Lexis
