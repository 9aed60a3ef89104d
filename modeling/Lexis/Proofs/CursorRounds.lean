import Lexis.Proofs.CursorSteps
import Lexis.Proofs.Segmentation

/-!
# Rounds of a cursor

One round of a scan reads one segment. From a place between two characters of the text it leads to
the place behind the segment that starts there, and adds the token or the diagnostic of the segment.
-/

namespace Lexis

namespace Cursor

variable {source : String} {cursor : Cursor}

/-! ## Where a round starts and where it ends -/

/-- The cursor is behind the front of the text and before the rest. -/
structure Stands (source : String) (front rest : List Char) (cursor : Cursor) : Prop where
  split : source.toList = front ++ rest
  place : cursor.current = Text.byteLength front

/-- The cursor behind a segment, and with what the segment is. -/
def past (source : String) (cursor : Cursor) (segment : Segment) : Cursor where
  start := cursor.current
  current := cursor.current + Text.byteLength segment.text
  tokens := cursor.tokens ++ (segment.token? cursor.current).toList
  records := cursor.records ++
    (segment.fault?.map (Diagnostic.ofFault source.toList cursor.current)).toList

theorem past_of_skipped {segment : Segment} (token : segment.token? cursor.current = none)
    (fault : segment.fault? = none) :
    cursor.past source segment = cursor.restart.forward (Text.byteLength segment.text) := by
  simp only [past, token, fault, Option.map_none, Option.toList_none, List.append_nil]
  rfl

theorem past_of_token? {segment : Segment} {token : Token}
    (h : segment.token? cursor.current = some token) (fault : segment.fault? = none) :
    cursor.past source segment =
      { cursor.restart.forward (Text.byteLength segment.text) with
        tokens := cursor.tokens ++ [token] } := by
  rw [past, h, fault, Option.map_none, Option.toList_none, List.append_nil]
  rfl

theorem past_of_fault? {segment : Segment} {fault : Fault} (h : segment.fault? = some fault) :
    cursor.past source segment =
      { cursor.restart.forward (Text.byteLength segment.text) with
        records := cursor.records ++ [Diagnostic.ofFault source.toList cursor.current fault] } := by
  rw [past, Segment.token?_eq_none_of_fault? _ h, h, Option.map_some, Option.toList_none,
    List.append_nil]
  rfl

namespace Stands

variable {front text rest : List Char}

theorem ahead (h : Stands source front rest cursor) :
    cursor.restart.ahead source = Text.octets rest := by
  show (Text.octets source.toList).drop cursor.current = _
  rw [h.split, h.place, Text.octets_append, ← Text.length_octets, List.drop_left]

theorem lexeme (h : Stands source front (text ++ rest) cursor) :
    (cursor.restart.forward (Text.byteLength text)).lexeme source = .ok (String.ofList text) := by
  have hpart := textBetween_eq (h.split.trans (List.append_assoc ..).symm)
  rwa [← h.place] at hpart

theorem add (h : Stands source front (text ++ rest) cursor) (kind : Kind)
    (literal : Option Literal) :
    (cursor.restart.forward (Text.byteLength text)).add source kind literal =
      .ok { cursor.restart.forward (Text.byteLength text) with
        tokens := cursor.tokens ++ [⟨kind, String.ofList text, cursor.current, literal⟩] } := by
  rw [Cursor.add, h.lexeme, ok_bind]
  rfl

end Stands

theorem report_eq (count : Nat) (fault : Fault) :
    (cursor.restart.forward count).report source fault =
      .ok { cursor.restart.forward count with
        records := cursor.records ++ [Diagnostic.ofFault source.toList cursor.current fault] } := by
  rw [report, locate_eq, ok_bind]
  rfl

/-! ## What the first byte decides -/

section

variable {c : Char}

theorem readBehind_of_isWhitespace (h : c.isWhitespace) :
    cursor.readBehind source c = .ok cursor := if_pos h

theorem readBehind_slash : cursor.readBehind source '/' =
    match cursor.accept? source '/' with
    | some next => next.advanceUntil source '\n'
    | none => cursor.add source (.operator .slash) none := rfl

theorem readBehind_of_ofChar? {op : Operator} (h : Operator.ofChar? c = some op)
    (slash : op ≠ .slash) : cursor.readBehind source c =
      match op.withEqual? with
      | some long => cursor.addEither source '=' long op
      | none => cursor.add source (.operator op) none := by
  have blank : ¬ c.isWhitespace := by
    intro hc
    rw [Operator.ofChar?_of_isWhitespace hc] at h
    contradiction
  rw [readBehind, if_neg blank, h]
  cases op <;> first | rfl | contradiction

theorem readBehind_quote : cursor.readBehind source '"' = cursor.readString source := rfl

theorem readBehind_of_isDigit (h : c.isDigit) :
    cursor.readBehind source c = cursor.readNumber source := by
  have alphanum := isAlphanum_of_isDigit h
  have quote : c ≠ '"' := ne_of_isAlphanum alphanum (by decide)
  rw [readBehind, if_neg (not_isWhitespace_of_isAlphanum alphanum),
    Operator.ofChar?_of_isAlphanum alphanum]
  simp only [if_neg quote, if_pos h]

theorem readBehind_of_isAlpha (h : c.isAlpha) :
    cursor.readBehind source c = cursor.readWord source := by
  have alphanum := isAlphanum_of_isAlpha h
  have quote : c ≠ '"' := ne_of_isAlphanum alphanum (by decide)
  rw [readBehind, if_neg (not_isWhitespace_of_isAlphanum alphanum),
    Operator.ofChar?_of_isAlphanum alphanum]
  simp only [if_neg quote, if_neg (not_isDigit_of_isAlpha h), if_pos h]

theorem readBehind_of_isStray (h : IsStray c) : cursor.readBehind source c = (do
    let behind ← cursor.advanceOver source Text.isContinuation
    behind.report source .unexpectedCharacter) := by
  have digit : ¬ c.isDigit := fun hc => h.not_alphanum (isAlphanum_of_isDigit hc)
  have alpha : ¬ c.isAlpha := fun hc => h.not_alphanum (isAlphanum_of_isAlpha hc)
  rw [readBehind, if_neg h.not_blank, h.not_operator]
  simp only [if_neg h.not_quote, if_neg digit, if_neg alpha]

end

/-! ## Rounds over the kinds of segment -/

section

variable {front rest : List Char}

theorem round_of_ahead {c : Char} {later : List Char}
    (h : cursor.restart.ahead source = c :: later) :
    cursor.round source = (cursor.restart.forward 1).readBehind source c := by
  rw [round, advance_of_ahead h, ok_bind]

/-- A round that starts at a character below 128 goes on behind it. -/
theorem Stands.round {c : Char} (h : Stands source front (c :: rest) cursor)
    (ascii : c.toNat < 128) :
    cursor.round source = (cursor.restart.forward 1).readBehind source c ∧
      (cursor.restart.forward 1).ahead source = Text.octets rest := by
  have hahead : cursor.restart.ahead source = c :: Text.octets rest := by
    rw [h.ahead, Text.octets_cons_of_ascii rest ascii]
  exact ⟨round_of_ahead hahead, ahead_next hahead⟩

theorem round_blank {c : Char} (blank : c.isWhitespace)
    (h : Stands source front ((Segment.blank c).text ++ rest) cursor) :
    cursor.round source = .ok (cursor.past source (.blank c)) := by
  have hascii := toNat_lt_of_isWhitespace blank
  rw [(h.round hascii).1, readBehind_of_isWhitespace blank, past_of_skipped rfl rfl, Segment.text,
    Text.byteLength_cons, Text.utf8Size_of_ascii hascii, Text.byteLength_nil]

theorem round_comment {body : List Char} (oneLine : '\n' ∉ body)
    (ends : ∀ c ∈ rest.head?, c = '\n')
    (h : Stands source front ((Segment.comment body).text ++ rest) cursor) :
    cursor.round source = .ok (cursor.past source (.comment body)) := by
  obtain ⟨hround, hahead⟩ := h.round (by decide)
  have hslash : (cursor.restart.forward 1).ahead source =
      Text.octets (['/'] ++ (body ++ rest)) := hahead
  have hbody : ((cursor.restart.forward 1).forward 1).ahead source = Text.octets (body ++ rest) :=
    ahead_behind hslash
  have hsize : 1 + (1 + Text.byteLength body) = Text.byteLength (Segment.comment body).text := rfl
  rw [hround, readBehind_slash, accept?_of_head (by decide) hahead]
  show advanceUntil _ _ _ = _
  rw [advanceUntil_of_ahead hbody (by decide) oneLine ends, past_of_skipped rfl rfl,
    forward_forward, forward_forward, hsize]

theorem readBehind_short {c : Char} {op : Operator} (hchar : Operator.ofChar? c = some op)
    (ends : (Segment.operator op).EndsBefore rest) (h : cursor.ahead source = Text.octets rest) :
    cursor.readBehind source c = cursor.add source (.operator op) none := by
  obtain ⟨noSlash, noEqual⟩ := ends
  by_cases slash : op = .slash
  · subst slash
    obtain rfl := Operator.eq_slash_of_ofChar? hchar
    rw [readBehind_slash, accept?_of_ne (by decide) (by decide) h (noSlash rfl)]
  · rw [readBehind_of_ofChar? hchar slash]
    cases hlong : op.withEqual? with
    | none => rfl
    | some long =>
        have other := noEqual (Option.isSome_iff_exists.mpr ⟨long, hlong⟩)
        show addEither _ _ _ _ _ = _
        rw [addEither, accept?_of_ne (by decide) (by decide) h other]

theorem readBehind_long {c : Char} {op base : Operator} (hchar : Operator.ofChar? c = some base)
    (hlong : base.withEqual? = some op) (h : cursor.ahead source = Text.octets ('=' :: rest)) :
    cursor.readBehind source c = (cursor.forward 1).add source (.operator op) none := by
  have slash : base ≠ .slash := by
    rintro rfl
    contradiction
  rw [readBehind_of_ofChar? hchar slash, hlong]
  show addEither _ _ _ _ _ = _
  rw [addEither, accept?_of_head (by decide) h]

theorem round_operator {op : Operator} (ends : (Segment.operator op).EndsBefore rest)
    (h : Stands source front ((Segment.operator op).text ++ rest) cursor) :
    cursor.round source = .ok (cursor.past source (.operator op)) := by
  rw [past_of_token? rfl rfl]
  refine Eq.trans ?_ (h.add (.operator op) none)
  rw [Segment.text] at h ⊢
  rcases op.spelling_cases with ⟨c, hspelling, hchar⟩ | ⟨c, base, hspelling, hchar, hlong⟩
  · rw [hspelling] at h ⊢
    have hascii := toNat_lt_of_ofChar? hchar
    obtain ⟨hround, hahead⟩ := h.round hascii
    rw [hround, readBehind_short hchar ends hahead, Text.byteLength_cons,
      Text.utf8Size_of_ascii hascii, Text.byteLength_nil]
  · rw [hspelling] at h ⊢
    have hascii := toNat_lt_of_ofChar? hchar
    obtain ⟨hround, hahead⟩ := h.round hascii
    rw [hround, readBehind_long hchar hlong hahead, Text.byteLength_cons,
      Text.utf8Size_of_ascii hascii]
    rfl

theorem round_string {contents : List Char} (closed : '"' ∉ contents)
    (h : Stands source front ((Segment.string contents).text ++ rest) cursor) :
    cursor.round source = .ok (cursor.past source (.string contents)) := by
  have htext : (Segment.string contents).text ++ rest = '"' :: (contents ++ '"' :: rest) := by
    simp [Segment.text]
  have hwhole := h
  rw [htext] at hwhole
  obtain ⟨hround, hahead⟩ := hwhole.round (by decide)
  have hbehind := advanceUntil_of_ahead hahead (by decide) closed (by simp)
  have hquote : ((cursor.restart.forward 1).forward (Text.byteLength contents)).ahead source =
      '"' :: Text.octets rest := ahead_behind hahead
  have hcontents : textBetween source (cursor.current + 1)
      (cursor.current + 1 + Text.byteLength contents) = .ok (String.ofList contents) := by
    have hsplit : source.toList = (front ++ ['"']) ++ contents ++ '"' :: rest := by
      rw [hwhole.split]
      simp
    have hpart := textBetween_eq hsplit
    rwa [Text.byteLength_append, ← h.place] at hpart
  have hsize : Text.byteLength (Segment.string contents).text =
      1 + (Text.byteLength contents + 1) := by
    rw [Segment.text, Text.byteLength_cons, Text.byteLength_append]
    rfl
  rw [past_of_token? rfl rfl]
  refine Eq.trans ?_ (h.add .string (some (.string (String.ofList contents))))
  rw [hround, readBehind_quote, readString, hbehind, ok_bind,
    if_neg (not_atEnd_of_ahead hquote)]
  refine Eq.trans (congrArg (· >>= _) hcontents) ?_
  rw [ok_bind, advance_of_ahead hquote, ok_bind, hsize, forward_forward, forward_forward]

theorem round_openString {contents : List Char} (unclosed : '"' ∉ contents)
    (h : Stands source front (Segment.openString contents).text cursor) :
    cursor.round source = .ok (cursor.past source (.openString contents)) := by
  obtain ⟨hround, hahead⟩ := h.round (by decide)
  rw [← List.append_nil contents] at hahead
  have hbehind := advanceUntil_of_ahead hahead (by decide) unclosed (by simp)
  have hend : ((cursor.restart.forward 1).forward (Text.byteLength contents)).atEnd source :=
    atEnd_iff.mpr (ahead_behind hahead)
  rw [hround, readBehind_quote, readString, hbehind, ok_bind, if_pos hend, forward_forward,
    report_eq, past_of_fault? rfl]
  rfl

theorem round_word {letters : List Char} (form : (Segment.word letters).WellFormed)
    (ends : (Segment.word letters).EndsBefore rest)
    (h : Stands source front ((Segment.word letters).text ++ rest) cursor) :
    cursor.round source = .ok (cursor.past source (.word letters)) := by
  obtain ⟨c, later, rfl, alpha, all⟩ := form
  have hascii := toNat_lt_of_isAlphanum (isAlphanum_of_isAlpha alpha)
  obtain ⟨hround, hahead⟩ := h.round hascii
  have hbehind := advanceOver_of_ahead hahead (fun _ => toNat_lt_of_isAlphanum) (by decide) all ends
  have hsize : 1 + Text.byteLength later = Text.byteLength (Segment.word (c :: later)).text := by
    rw [Segment.text, Text.byteLength_cons, Text.utf8Size_of_ascii hascii]
  rw [past_of_token? rfl rfl, hround, readBehind_of_isAlpha alpha, readWord, hbehind, ok_bind,
    forward_forward, hsize, h.lexeme, ok_bind]
  exact h.add _ none

theorem round_stray {c : Char} (stray : IsStray c)
    (h : Stands source front ((Segment.stray c).text ++ rest) cursor) :
    cursor.round source = .ok (cursor.past source (.stray c)) := by
  obtain ⟨first, later, hoctets, hfirst, all⟩ := exists_octets_of_isStray stray
  have hsize : Text.byteLength [c] = 1 + later.length := by
    rw [← Text.length_octets, hoctets, List.length_cons, Nat.add_comm]
  have hahead : cursor.restart.ahead source = first :: (later ++ Text.octets rest) := by
    rw [h.ahead, Segment.text, Text.octets_append, hoctets, List.cons_append]
  have hlater : (cursor.restart.forward 1).ahead source = later ++ Text.octets rest :=
    ahead_next hahead
  have hbehind : (cursor.restart.forward 1).advanceOver source Text.isContinuation =
      .ok ((cursor.restart.forward 1).forward later.length) := by
    rw [advanceOver]
    apply advanceWhile_of_ahead hlater
    · intro d hd here behind hhere
      rw [peek_eq, hhere]
      exact all d hd
    · intro here hhere
      rw [peek_eq, hhere]
      exact Text.not_isContinuation_leading rest
  rw [round_of_ahead hahead, readBehind_of_isStray hfirst, hbehind, ok_bind,
    forward_forward, report_eq, past_of_fault? rfl, Segment.text, hsize]

/-! ### Numbers -/

theorem readDouble_numeral {numeral : Numeral} (form : numeral.WellFormed) :
    readDouble (String.ofList numeral.text) =
      Binary64.ofRatio numeral.digitsValue numeral.scale := by
  have hfront : Numeral.atFront (numeral.text ++ []) = numeral :=
    Numeral.atFront_append form (by simp) fun _ => rfl
  rw [List.append_nil] at hfront
  rw [readDouble, String.toList_ofList, hfront, if_pos ⟨form.whole_ne_nil, rfl⟩]

/-- A point is left where no digit stands behind it. -/
theorem readFraction_of_fractionAt (h : cursor.ahead source = Text.octets rest)
    (whole : Numeral.fractionAt rest = []) : cursor.readFraction source = .ok cursor := by
  rw [readFraction, if_neg]
  rintro ⟨hpoint, hdigit⟩
  rw [peek_of_ahead h, Text.leading_eq_iff (by decide) (by decide)] at hpoint
  obtain ⟨later, rfl⟩ := List.head?_eq_some_iff.mp hpoint
  have hbehind : (cursor.forward 1).ahead source = Text.octets later := ahead_next h
  rw [peekAt_eq, ← ahead_forward, hbehind, ← Text.leading,
    Text.leading_iff (fun _ => toNat_lt_of_isDigit) (by decide)] at hdigit
  obtain ⟨d, hd, digit⟩ := hdigit
  obtain ⟨more, rfl⟩ := List.head?_eq_some_iff.mp hd
  simp [Numeral.fractionAt, digit] at whole

theorem readFraction_of_digits {digits : List Char} (filled : digits ≠ [])
    (all : ∀ d ∈ digits, d.isDigit) (ends : ∀ c ∈ rest.head?, ¬ c.isDigit)
    (h : cursor.ahead source = Text.octets ('.' :: digits ++ rest)) :
    cursor.readFraction source = .ok (cursor.forward (Text.byteLength ('.' :: digits))) := by
  have hpoint : cursor.ahead source = '.' :: Text.octets (digits ++ rest) := h
  have hbehind : (cursor.forward 1).ahead source = Text.octets (digits ++ rest) :=
    ahead_next hpoint
  have hdigit : (cursor.peekAt source 1).isDigit := by
    obtain ⟨d, more, rfl⟩ := List.exists_cons_of_ne_nil filled
    rw [peekAt_eq, ← ahead_forward, hbehind, ← Text.leading,
      Text.leading_iff (fun _ => toNat_lt_of_isDigit) (by decide)]
    exact ⟨d, rfl, all d List.mem_cons_self⟩
  have hpeek : cursor.peek source = '.' := by rw [peek_eq, hpoint, List.headD_cons]
  have hdigits := advanceOver_of_ahead hbehind (fun _ => toNat_lt_of_isDigit) (by decide) all ends
  rw [readFraction, if_pos ⟨hpeek, hdigit⟩, advance_of_ahead hpoint, ok_bind]
  rw [forward_forward] at hdigits
  exact hdigits

/-- What a numeral has behind its whole digits is read as the fraction. -/
theorem exists_readFraction {numeral : Numeral} (form : numeral.WellFormed)
    (ends : (Segment.number numeral).EndsBefore rest) (source : String) :
    ∃ behind, numeral.text = numeral.whole ++ behind ∧
      (∀ c ∈ (behind ++ rest).head?, ¬ c.isDigit) ∧
      ∀ cursor : Cursor, cursor.ahead source = Text.octets (behind ++ rest) →
        cursor.readFraction source = .ok (cursor.forward (Text.byteLength behind)) := by
  by_cases whole : numeral.fraction = []
  · refine ⟨[], by rw [Numeral.text_of_fraction_eq_nil whole, List.append_nil], ends.1, ?_⟩
    intro cursor h
    exact readFraction_of_fractionAt h (ends.2 whole)
  · refine ⟨_, Numeral.text_of_fraction_ne_nil whole, ?_, ?_⟩
    · intro c hc
      cases hc
      decide
    · intro cursor h
      exact readFraction_of_digits whole form.fraction_digits ends.1 h

theorem round_number {numeral : Numeral} (form : numeral.WellFormed)
    (ends : (Segment.number numeral).EndsBefore rest)
    (h : Stands source front ((Segment.number numeral).text ++ rest) cursor) :
    cursor.round source = .ok (cursor.past source (.number numeral)) := by
  obtain ⟨behind, hbehind, stop, hfraction⟩ := exists_readFraction form ends source
  obtain ⟨c, later, hwhole⟩ := List.exists_cons_of_ne_nil form.whole_ne_nil
  obtain ⟨hc, hlater⟩ := List.forall_mem_cons.mp (hwhole ▸ form.whole_digits)
  have hascii := toNat_lt_of_isDigit hc
  have htext : numeral.text = c :: (later ++ behind) := by rw [hbehind, hwhole, List.cons_append]
  have hfirst := h
  rw [Segment.text, htext, List.cons_append, List.append_assoc] at hfirst
  obtain ⟨hround, hahead⟩ := hfirst.round hascii
  have hdigits := advanceOver_of_ahead hahead (fun _ => toNat_lt_of_isDigit) (by decide) hlater stop
  have hsize : 1 + (Text.byteLength later + Text.byteLength behind) =
      Text.byteLength (Segment.number numeral).text := by
    rw [Segment.text, htext, Text.byteLength_cons, Text.utf8Size_of_ascii hascii,
      Text.byteLength_append]
  rw [past_of_token? rfl rfl, hround, readBehind_of_isDigit hc, readNumber, hdigits, ok_bind,
    hfraction _ (ahead_behind hahead), ok_bind, forward_forward, forward_forward, hsize, h.lexeme,
    ok_bind, Segment.text, readDouble_numeral form]
  exact h.add _ _

theorem Stands.isBoundary (h : Stands source front rest cursor) :
    IsBoundary source cursor.current := h.place ▸ isBoundary_of_split h.split

theorem Stands.past {segment : Segment} (h : Stands source front (segment.text ++ rest) cursor) :
    Stands source (front ++ segment.text) rest (cursor.past source segment) where
  split := h.split.trans (List.append_assoc ..).symm
  place := by rw [Text.byteLength_append, ← h.place, Cursor.past]

/-- A round reads the segment at the front of what is ahead. -/
theorem round_eq {segment : Segment} (form : segment.WellFormed) (ends : segment.EndsBefore rest)
    (h : Stands source front (segment.text ++ rest) cursor) :
    cursor.round source = .ok (cursor.past source segment) := by
  cases segment with
  | blank c => exact round_blank form h
  | comment body => exact round_comment form ends h
  | operator op => exact round_operator ends h
  | string contents => exact round_string form h
  | number numeral => exact round_number form ends h
  | word letters => exact round_word form ends h
  | stray c => exact round_stray form h
  | openString contents =>
      obtain rfl : rest = [] := ends
      rw [List.append_nil] at h
      exact round_openString form h

end

end Cursor

end Lexis
