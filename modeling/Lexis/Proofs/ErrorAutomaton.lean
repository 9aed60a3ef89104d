import Lexis.Proofs.Lines
import Lexis.Proofs.Segmentation
import Mathlib.Data.List.Forall2

/-!
# Errors without tokens

An automaton that reads one character after the other and knows code, strings and comments, but
no tokens, finds the errors of a text. A scan records exactly these, in order, each with the line
that its byte lies on.
-/

namespace Lexis

/-- What a character of the text is part of. A string keeps the byte offset of its first quote. -/
inductive Mode where
  | code
  | string (opening : Nat)
  | comment
  deriving Repr, DecidableEq

namespace Mode

/-- The characters that may stand in code; a quote does not stand in code but opens a string. -/
def accepts (c : Char) : Bool :=
  [' ', '\t', '\r', '\n'].contains c || c.isAlpha || c.isDigit ||
    ['(', ')', '\x7b', '\x7d', ',', '.', '-', '+', ';', '*', '!', '=', '<', '>', '/'].contains c

/-- Reads the character at byte `offset`, with `next` behind it: the mode after it and, if it is
one, its error. The line feed behind a comment is code again. -/
def step (mode : Mode) (offset : Nat) (c : Char) (next : Option Char) :
    Mode × Option (Nat × Fault) :=
  match mode with
  | .code =>
      if c = '"' then (.string offset, none)
      else if c = '/' ∧ next = some '/' then (.comment, none)
      else if accepts c then (.code, none)
      else (.code, some (offset, .unexpectedCharacter))
  | .string opening => if c = '"' then (.code, none) else (.string opening, none)
  | .comment => if c = '\n' then (.code, none) else (.comment, none)

def errors (mode : Mode) (offset : Nat) : List Char → List (Nat × Fault)
  | [] =>
      match mode with
      | .string opening => [(opening, .unterminatedString)]
      | _ => []
  | c :: later =>
      let (next, error) := mode.step offset c later.head?
      error.toList ++ next.errors (offset + c.utf8Size) later

theorem errors_cons (mode : Mode) (offset : Nat) (c : Char) (later : List Char) :
    mode.errors offset (c :: later) =
      (mode.step offset c later.head?).2.toList ++
        (mode.step offset c later.head?).1.errors (offset + c.utf8Size) later := by
  rw [errors]

/-! ## Runs of characters within one mode -/

/-- A character that code may hold anywhere, whatever stands behind it. -/
structure IsPlain (c : Char) : Prop where
  accepted : accepts c
  not_slash : c ≠ '/'

theorem ne_quote_of_accepts {c : Char} (h : accepts c) : c ≠ '"' := by
  intro hc
  subst hc
  exact absurd h (by decide)

theorem step_code_of_accepts {c : Char} {next : Option Char} (offset : Nat) (h : accepts c)
    (slash : c = '/' → next ≠ some '/') : code.step offset c next = (.code, none) := by
  have quote := ne_quote_of_accepts h
  have comment : ¬ (c = '/' ∧ next = some '/') := by
    intro hboth
    exact slash hboth.1 hboth.2
  simp only [step, if_neg quote, if_neg comment, if_pos h]

theorem errors_code_of_accepts {c : Char} {rest : List Char} (offset : Nat) (h : accepts c)
    (slash : c = '/' → rest.head? ≠ some '/') :
    code.errors offset (c :: rest) = code.errors (offset + c.utf8Size) rest := by
  rw [errors_cons, step_code_of_accepts offset h slash]
  rfl

theorem errors_code_append {front : List Char} (offset : Nat) (rest : List Char)
    (plain : ∀ c ∈ front, IsPlain c) :
    code.errors offset (front ++ rest) = code.errors (offset + Text.byteLength front) rest := by
  induction front generalizing offset with
  | nil => rfl
  | cons c front ih =>
      have hc := plain c List.mem_cons_self
      have hfront : ∀ d ∈ front, IsPlain d := fun d hd => plain d (List.mem_cons_of_mem c hd)
      have hslash : c = '/' → (front ++ rest).head? ≠ some '/' := fun h => absurd h hc.not_slash
      rw [List.cons_append, errors_code_of_accepts offset hc.accepted hslash, ih _ hfront,
        Text.byteLength_cons, Nat.add_assoc]

theorem errors_string_append {contents : List Char} (opening offset : Nat) (rest : List Char)
    (closed : '"' ∉ contents) :
    (string opening).errors offset (contents ++ rest) =
      (string opening).errors (offset + Text.byteLength contents) rest := by
  induction contents generalizing offset with
  | nil => rfl
  | cons c contents ih =>
      have hc : c ≠ '"' := (List.ne_of_not_mem_cons closed).symm
      have hcontents : '"' ∉ contents := List.not_mem_of_not_mem_cons closed
      rw [List.cons_append, errors_cons, step, if_neg hc]
      rw [ih _ hcontents, Text.byteLength_cons, Nat.add_assoc]
      rfl

theorem errors_comment_append {body : List Char} (offset : Nat) (rest : List Char)
    (oneLine : '\n' ∉ body) :
    comment.errors offset (body ++ rest) =
      comment.errors (offset + Text.byteLength body) rest := by
  induction body generalizing offset with
  | nil => rfl
  | cons c body ih =>
      have hc : c ≠ '\n' := (List.ne_of_not_mem_cons oneLine).symm
      have hbody : '\n' ∉ body := List.not_mem_of_not_mem_cons oneLine
      rw [List.cons_append, errors_cons, step, if_neg hc]
      rw [ih _ hbody, Text.byteLength_cons, Nat.add_assoc]
      rfl

theorem errors_comment_eq_code {rest : List Char} (offset : Nat)
    (ends : ∀ c ∈ rest.head?, c = '\n') : comment.errors offset rest = code.errors offset rest := by
  cases rest with
  | nil => rfl
  | cons c later =>
      have hc : c = '\n' := ends c rfl
      subst hc
      rw [errors_code_of_accepts offset (by decide) (by simp)]
      rfl

theorem isPlain_of_isAlphanum {c : Char} (h : c.isAlphanum) : IsPlain c where
  accepted := by
    simp only [Char.isAlphanum, Bool.or_eq_true] at h
    simp only [accepts, Bool.or_eq_true]
    rcases h with alpha | digit
    · simp [alpha]
    · simp [digit]
  not_slash := by
    intro hc
    subst hc
    exact absurd h (by decide)

theorem isPlain_of_isWhitespace {c : Char} (h : c.isWhitespace) : IsPlain c := by
  simp only [Char.isWhitespace, Bool.or_eq_true, decide_eq_true_eq] at h
  rcases h with ((rfl | rfl) | rfl) | rfl <;> exact ⟨by decide, by decide⟩

theorem accepts_of_ofChar? {c : Char} {op : Operator} (h : Operator.ofChar? c = some op) :
    accepts c := by
  unfold Operator.ofChar? at h
  split at h <;> first | decide | contradiction

theorem isPlain_numeral {numeral : Numeral} (form : numeral.WellFormed) :
    ∀ c ∈ numeral.text, IsPlain c := by
  have digit : ∀ c : Char, c.isDigit → IsPlain c := fun c hc =>
    isPlain_of_isAlphanum (isAlphanum_of_isDigit hc)
  intro c hc
  by_cases whole : numeral.fraction = []
  · rw [Numeral.text_of_fraction_eq_nil whole] at hc
    exact digit c (form.whole_digits c hc)
  · rw [Numeral.text_of_fraction_ne_nil whole, List.mem_append, List.mem_cons] at hc
    rcases hc with hwhole | rfl | hfraction
    · exact digit c (form.whole_digits c hwhole)
    · exact ⟨by decide, by decide⟩
    · exact digit c (form.fraction_digits c hfraction)

theorem not_accepts_of_isStray {c : Char} (h : IsStray c) : ¬ accepts c := by
  intro hc
  have alpha : ¬ c.isAlpha := fun hc => h.not_alphanum (isAlphanum_of_isAlpha hc)
  have digit : ¬ c.isDigit := fun hc => h.not_alphanum (isAlphanum_of_isDigit hc)
  simp only [accepts, alpha, digit, Bool.or_false, Bool.or_eq_true, List.contains_eq_mem,
    decide_eq_true_eq] at hc
  rcases hc with blank | operator
  · have := h.not_blank
    simp only [Char.isWhitespace, Bool.or_eq_true, decide_eq_true_eq] at this
    simp only [List.mem_cons, List.not_mem_nil, or_false] at blank
    exact this (by simpa only [or_assoc] using blank)
  · have := h.not_operator
    simp only [List.mem_cons, List.not_mem_nil, or_false] at operator
    rcases operator with rfl | rfl | rfl | rfl | rfl | rfl | rfl | rfl | rfl | rfl | rfl | rfl |
      rfl | rfl | rfl <;> contradiction

/-! ## Segments -/

theorem errors_operator {op : Operator} {rest : List Char} (offset : Nat)
    (ends : (Segment.operator op).EndsBefore rest) :
    code.errors offset (op.spelling ++ rest) =
      code.errors (offset + Text.byteLength op.spelling) rest := by
  rcases op.spelling_cases with ⟨c, hspelling, hchar⟩ | ⟨c, base, hspelling, hchar, hlong⟩
  · have hslash : c = '/' → rest.head? ≠ some '/' := by
      intro hc
      subst hc
      exact ends.1 (Option.some.inj hchar).symm
    rw [hspelling]
    exact errors_code_of_accepts offset (accepts_of_ofChar? hchar) hslash
  · have hequal : IsPlain '=' := ⟨by decide, by decide⟩
    have hc : IsPlain c := by
      refine ⟨accepts_of_ofChar? hchar, ?_⟩
      intro hslash
      subst hslash
      cases hchar
      simp [Operator.withEqual?] at hlong
    apply errors_code_append
    intro d hd
    rw [hspelling, List.mem_cons, List.mem_singleton] at hd
    rcases hd with rfl | rfl
    · exact hc
    · exact hequal

/-- Over the text of a segment the automaton finds the fault of the segment, and is in code again
behind it. -/
theorem errors_segment {segment : Segment} {rest : List Char} (offset : Nat)
    (form : segment.WellFormed) (ends : segment.EndsBefore rest) :
    code.errors offset (segment.text ++ rest) =
      (Placed.fault? ⟨offset, segment⟩).toList ++
        code.errors (offset + Text.byteLength segment.text) rest := by
  cases segment with
  | blank c =>
      have hplain : ∀ d ∈ [c], IsPlain d := by
        intro d hd
        rw [List.mem_singleton] at hd
        subst hd
        exact isPlain_of_isWhitespace form
      exact errors_code_append offset rest hplain
  | comment body =>
      have hstep : code.errors offset ('/' :: '/' :: (body ++ rest)) =
          comment.errors (offset + '/'.utf8Size + '/'.utf8Size) (body ++ rest) := rfl
      rw [Segment.text, List.cons_append, List.cons_append, hstep,
        errors_comment_append _ rest form, errors_comment_eq_code _ ends]
      simp [Placed.fault?, Segment.fault?, Nat.add_assoc]
  | operator op => exact errors_operator offset ends
  | string contents =>
      have hopen : code.errors offset ('"' :: (contents ++ '"' :: rest)) =
          (string offset).errors (offset + '"'.utf8Size) (contents ++ '"' :: rest) := rfl
      have hclose (next : Nat) : (string offset).errors next ('"' :: rest) =
          code.errors (next + '"'.utf8Size) rest := rfl
      rw [Segment.text, List.cons_append, List.append_assoc, List.singleton_append, hopen,
        errors_string_append offset _ _ form, hclose]
      simp [Placed.fault?, Segment.fault?, Nat.add_assoc]
  | number numeral => exact errors_code_append offset rest (isPlain_numeral form)
  | word letters =>
      obtain ⟨c, more, hletters, alpha, all⟩ := form
      apply errors_code_append
      intro d hd
      rw [hletters, Segment.text, List.mem_cons] at hd
      rcases hd with rfl | hd
      · exact isPlain_of_isAlphanum (isAlphanum_of_isAlpha alpha)
      · exact isPlain_of_isAlphanum (all d hd)
  | stray c =>
      have hslash : c ≠ '/' := by
        intro hc
        subst hc
        exact not_accepts_of_isStray form (by decide)
      have hstep : code.step offset c rest.head? =
          (.code, some (offset, .unexpectedCharacter)) := by
        simp [step, form.not_quote, hslash, not_accepts_of_isStray form]
      rw [Segment.text, List.singleton_append, errors_cons, hstep]
      rfl
  | openString contents =>
      have hrest : rest = [] := ends
      have hopen : code.errors offset ('"' :: contents) =
          (string offset).errors (offset + '"'.utf8Size) (contents ++ []) := by
        rw [List.append_nil]
        rfl
      rw [hrest, Segment.text, List.append_nil, hopen, errors_string_append offset _ [] form]
      rfl

theorem errors_textOf {segments : List Segment} (offset : Nat) (cut : Segment.IsCut segments) :
    code.errors offset (Segment.textOf segments) =
      Scan.faultsFrom offset segments := by
  induction segments generalizing offset with
  | nil => rfl
  | cons segment later ih =>
      obtain ⟨form, ends, cut⟩ := cut
      rw [Segment.textOf_cons, errors_segment offset form ends, ih _ cut, Scan.faultsFrom_cons]

theorem errors_eq_faults (source : List Char) : code.errors 0 source = Scan.faults source := by
  have herrors := errors_textOf 0 (Segment.isCut_cutOf source)
  rwa [Segment.textOf_cutOf, ← Scan.faults_eq] at herrors

end Mode

/-! ## The records of a scan -/

/-- What is recorded for an error at a byte: that byte stands between `here` and `there` on the
line `here ++ there`, which follows `before`. -/
def Describes (source : List Char) (error : Nat × Fault) (record : Diagnostic) : Prop :=
  ∃ before here there after : List Char,
    source = before ++ (here ++ there) ++ after ∧
    error.1 = Text.byteLength (before ++ here) ∧
    (before = [] ∨ before.getLast? = some '\n') ∧
    '\n' ∉ here ++ there ∧
    (after = [] ∨ after.head? = some '\n') ∧
    record.position.line = 1 + (before ++ here).count '\n' ∧
    record.position.column = error.1 - Text.byteLength before + 1 ∧
    record.message = error.2.message ∧
    record.context = some (String.ofList (here ++ there))

theorem exists_line_start (text : List Char) :
    ∃ before here : List Char, text = before ++ here ∧
      (before = [] ∨ before.getLast? = some '\n') ∧ '\n' ∉ here := by
  induction text using Location.lines_induction with
  | last line h => exact ⟨[], line, rfl, .inl rfl, h⟩
  | line line later h ih =>
      obtain ⟨before, here, htext, hstart, hhere⟩ := ih
      refine ⟨line ++ '\n' :: before, here, by simp [htext], .inr ?_, hhere⟩
      rcases hstart with rfl | hstart
      · simp
      · rw [List.getLast?_append, List.getLast?_cons, hstart]
        rfl

theorem exists_line_end (text : List Char) :
    ∃ there after : List Char, text = there ++ after ∧ '\n' ∉ there ∧
      (after = [] ∨ after.head? = some '\n') := by
  by_cases h : '\n' ∈ text
  · obtain ⟨there, later, htext, hthere⟩ := List.eq_append_cons_of_mem h
    exact ⟨there, '\n' :: later, htext, hthere, .inr rfl⟩
  · exact ⟨text, [], (List.append_nil text).symm, h, .inl rfl⟩

theorem describes_ofFault (front rest : List Char) (fault : Fault) :
    Describes (front ++ rest) (Text.byteLength front, fault)
      (Diagnostic.ofFault (front ++ rest) (Text.byteLength front) fault) := by
  obtain ⟨before, here, hfront, hstart, hhere⟩ := exists_line_start front
  obtain ⟨there, after, hrest, hthere, hend⟩ := exists_line_end rest
  have hline : '\n' ∉ here ++ there := by
    rw [List.mem_append]
    exact not_or.mpr ⟨hhere, hthere⟩
  have hsource : front ++ rest = before ++ (here ++ there) ++ after := by
    rw [hfront, hrest]
    simp only [List.append_assoc]
  have hbound : Text.byteLength here ≤ Text.byteLength (here ++ there) := by
    rw [Text.byteLength_append]
    omega
  have hlocation := Location.ofOffset_of_line hstart hline hend hbound
  have hoffset : Text.byteLength front = Text.byteLength before + Text.byteLength here := by
    rw [hfront, Text.byteLength_append]
  rw [← hsource, ← hoffset] at hlocation
  refine ⟨before, here, there, after, hsource, by rw [hfront], hstart, hline, hend, ?_, ?_, rfl, ?_⟩
  · have hzero : here.count '\n' = 0 := List.count_eq_zero.mpr hhere
    rw [Diagnostic.ofFault, hlocation, List.count_append, hzero]
    show before.count '\n' + 1 = _
    omega
  · rw [Diagnostic.ofFault, hlocation, hoffset, Nat.add_sub_cancel_left]
  · rw [Diagnostic.ofFault, hlocation]

theorem Fault.message_injective {a b : Fault} (h : a.message = b.message) : a = b := by
  cases a <;> cases b <;> first | rfl | exact absurd h (by decide)

theorem Segment.exists_openString_of_fault? {segment : Segment}
    (h : segment.fault? = some .unterminatedString) :
    ∃ contents, segment = .openString contents := by
  cases segment with
  | openString contents => exact ⟨contents, rfl⟩
  | _ => simp [fault?] at h

namespace Scan

theorem eq_nil_of_faults_eq {source : List Char} {before after : List (Nat × Fault)} {offset : Nat}
    (h : faults source = before ++ (offset, .unterminatedString) :: after) : after = [] := by
  rw [faults_eq, faultsFrom] at h
  obtain ⟨front, rest, hline, -, hrest⟩ := List.filterMap_eq_append_iff.mp h
  obtain ⟨skipped, placed, later, hcons, -, hfault, hafter⟩ := List.filterMap_eq_cons_iff.mp hrest
  have hsegments : Segment.cutOf source = (front ++ skipped).map (·.segment) ++
      placed.segment :: later.map (·.segment) := by
    rw [← Placed.line_map_segment 0 (Segment.cutOf source), hline, hcons]
    simp
  have hcut := Segment.isCut_cutOf source
  rw [hsegments] at hcut
  have hbehind := hcut.of_append
  obtain ⟨fault, hkind, hsame⟩ := Option.map_eq_some_iff.mp hfault
  obtain ⟨-, rfl⟩ := Prod.mk.inj hsame
  obtain ⟨contents, hopen⟩ := Segment.exists_openString_of_fault? hkind
  rw [hopen] at hbehind
  have hnone := List.map_eq_nil_iff.mp hbehind.eq_nil_of_openString
  rw [← hafter, hnone, List.filterMap_nil]

theorem forall₂_describes (source : String) :
    List.Forall₂ (Describes source.toList) (faults source.toList) (ofText source).diagnostics := by
  rw [ofText_diagnostics, List.forall₂_map_right_iff, List.forall₂_same]
  intro error herror
  obtain ⟨front, rest, hsource, hoffset⟩ := mem_faults herror
  have hdescribes := describes_ofFault front rest error.2
  rwa [← hsource, ← hoffset] at hdescribes

theorem pairwise_diagnostics (source : String) :
    (ofText source).diagnostics.Pairwise
      (fun a b => a.position.compare b.position = .lt) := by
  rw [ofText_diagnostics, List.pairwise_map]
  refine (pairwise_faults source.toList).imp_of_mem ?_
  intro a b ha hb hlt
  exact Location.ofOffset_compare hlt (le_of_mem_faults hb)

theorem eq_nil_of_diagnostics_eq {source : String} {before after : List Diagnostic}
    {record : Diagnostic} (h : (ofText source).diagnostics = before ++ record :: after)
    (hmessage : record.message = Fault.unterminatedString.message) : after = [] := by
  rw [ofText_diagnostics] at h
  obtain ⟨front, rest, hfaults, -, hrest⟩ := List.map_eq_append_iff.mp h
  obtain ⟨error, later, hcons, hrecord, hafter⟩ := List.map_eq_cons_iff.mp hrest
  obtain ⟨offset, fault⟩ := error
  rw [← hrecord] at hmessage
  have hfault : fault = .unterminatedString := Fault.message_injective hmessage
  rw [hcons, hfault] at hfaults
  rw [← hafter, eq_nil_of_faults_eq hfaults, List.map_nil]

end Scan

theorem length_filter_le_one {α : Type} {p : α → Bool} {list : List α}
    (last : ∀ before x after, list = before ++ x :: after → p x → after = []) :
    (list.filter p).length ≤ 1 := by
  cases hfilter : list.filter p with
  | nil => exact Nat.zero_le 1
  | cons x more =>
      obtain ⟨before, after, hlist, -, hx, hmore⟩ := List.filter_eq_cons_iff.mp hfilter
      rw [← hmore, last before x after hlist hx, List.filter_nil]
      exact Nat.le_refl 1

/-- What a scan records are the errors of the automaton, one each and in order. So the recorded
positions ascend, only the last record can be an open string, and a text has no record exactly if
its tokens are handed out. -/
theorem scan_records_eq_errors (log : ErrorLog) (source : String) :
    ∃ records : List Diagnostic,
      (log.scanText source).1.records = log.records ++ records ∧
      List.Forall₂ (Describes source.toList) (Mode.code.errors 0 source.toList) records ∧
      records.Pairwise (fun a b => a.position.compare b.position = .lt) ∧
      (records.filter (·.message = Fault.unterminatedString.message)).length ≤ 1 ∧
      (∀ before record after, records = before ++ record :: after →
        record.message = Fault.unterminatedString.message → after = []) ∧
      ((∃ tokens, tokensOf source = .ok tokens) ↔ Mode.code.errors 0 source.toList = []) := by
  refine ⟨(Scan.ofText source).diagnostics, rfl, ?_, Scan.pairwise_diagnostics source, ?_, ?_, ?_⟩
  · rw [Mode.errors_eq_faults]
    exact Scan.forall₂_describes source
  · apply length_filter_le_one
    intro before record after hsplit hmessage
    exact Scan.eq_nil_of_diagnostics_eq hsplit (of_decide_eq_true hmessage)
  · intro before record after hsplit hmessage
    exact Scan.eq_nil_of_diagnostics_eq hsplit hmessage
  · rw [Mode.errors_eq_faults]
    constructor
    · intro h
      obtain ⟨tokens, htokens⟩ := h
      have hnone := (tokensOf_eq_ok_iff.mp htokens).1
      rwa [Scan.ofText_diagnostics, List.map_eq_nil_iff] at hnone
    · intro h
      refine ⟨_, tokensOf_eq_ok_iff.mpr ⟨?_, rfl⟩⟩
      rw [Scan.ofText_diagnostics, h, List.map_nil]

end Lexis
