import Lexis.Proofs.Lookahead

/-!
# Erasing what is not a token

Blanks, comments and stray characters do no more than keep tokens apart. Spaces in their place do
the same: when each byte of them but a line feed is made a space, a scan finds the same tokens at
the same places, and of the faults only a string that is not closed is left.
-/

namespace Lexis

namespace Text

/-! ## Texts made blank -/

/-- As many spaces as the character has bytes; a line feed stays. -/
def fadedChar (c : Char) : List Char := if c = '\n' then [c] else List.replicate c.utf8Size ' '

def faded (text : List Char) : List Char := text.flatMap fadedChar

def fadedByte (byte : UInt8) : UInt8 := if byte = '\n'.toUInt8 then byte else ' '.toUInt8

/-- A byte that is made a space is not made a line feed, nor was it one. -/
theorem fadedByte_beq (byte : UInt8) :
    (fadedByte byte == '\n'.toUInt8) = (byte == '\n'.toUInt8) := by
  rw [fadedByte]
  split
  · rfl
  · next h =>
    rw [beq_eq_false_iff_ne.mpr h]
    decide

theorem bytes_replicate_blank (count : Nat) :
    bytes (List.replicate count ' ') = List.replicate count ' '.toUInt8 := by
  induction count with
  | zero => rfl
  | succ count ih =>
      rw [List.replicate_succ, List.replicate_succ, ← ih]
      rfl

theorem bytes_fadedChar (c : Char) :
    bytes (fadedChar c) = (String.utf8EncodeChar c).map fadedByte := by
  rw [fadedChar]
  split
  · next h =>
    subst h
    rfl
  · next h =>
    rw [bytes_replicate_blank, eq_comm, List.eq_replicate_iff, List.length_map,
      String.length_utf8EncodeChar]
    refine ⟨rfl, ?_⟩
    intro byte hbyte
    obtain ⟨original, horiginal, rfl⟩ := List.mem_map.mp hbyte
    rw [fadedByte, if_neg]
    rintro rfl
    exact h (eq_lineFeed_of_mem horiginal)

theorem bytes_faded (text : List Char) : bytes (faded text) = (bytes text).map fadedByte := by
  induction text with
  | nil => rfl
  | cons c text ih =>
      rw [faded, List.flatMap_cons, bytes_append, bytes_fadedChar, ← faded, ih, bytes, bytes,
        List.flatMap_cons, List.map_append]

theorem byteLength_faded (text : List Char) : byteLength (faded text) = byteLength text := by
  rw [← length_bytes, bytes_faded, List.length_map, length_bytes]

theorem isWhitespace_of_mem_faded {text : List Char} {c : Char} (h : c ∈ faded text) :
    c.isWhitespace := by
  obtain ⟨original, -, hc⟩ := List.mem_flatMap.mp h
  rw [fadedChar] at hc
  split at hc
  · next hfeed =>
    rw [List.mem_singleton.mp hc, hfeed]
    decide
  · rw [List.eq_of_mem_replicate hc]
    decide

theorem head?_fadedChar_append (c : Char) (rest : List Char) :
    (fadedChar c ++ rest).head? = some (if c = '\n' then c else ' ') := by
  rw [fadedChar]
  split
  · rfl
  · obtain ⟨count, hsize⟩ := Nat.exists_eq_succ_of_ne_zero c.utf8Size_pos.ne'
    rw [hsize, Nat.succ_eq_add_one, List.replicate_succ]
    rfl

/-- The second text is the first with some of its characters made blank. -/
inductive Fades : List Char → List Char → Prop
  | nil : Fades [] []
  | keep (c : Char) {a b : List Char} (later : Fades a b) : Fades (c :: a) (c :: b)
  | fade (c : Char) {a b : List Char} (later : Fades a b) : Fades (c :: a) (fadedChar c ++ b)

namespace Fades

variable {a b : List Char}

theorem keep_append (front : List Char) (h : Fades a b) : Fades (front ++ a) (front ++ b) := by
  induction front with
  | nil => exact h
  | cons c front ih => exact .keep c ih

theorem fade_append (front : List Char) (h : Fades a b) :
    Fades (front ++ a) (faded front ++ b) := by
  induction front with
  | nil => exact h
  | cons c front ih =>
      rw [faded, List.flatMap_cons, List.append_assoc]
      exact .fade c ih

theorem head?_eq (h : Fades a b) : b.head? = a.head? ∨ b.head? = some ' ' := by
  cases h with
  | nil => exact .inl rfl
  | keep c later => exact .inl rfl
  | fade c later =>
      rw [head?_fadedChar_append]
      split
      · exact .inl rfl
      · exact .inr rfl

/-- A run that the first text does not go on with, and no blank belongs to, the second does not go
on with either. -/
theorem stop {p : Char → Prop} (h : Fades a b) (blank : ¬ p ' ') (stop : ∀ c ∈ a.head?, ¬ p c) :
    ∀ c ∈ b.head?, ¬ p c := by
  intro c hc
  rcases h.head?_eq with hsame | hspace
  · rw [hsame] at hc
    exact stop c hc
  · rw [hspace] at hc
    rwa [← Option.some.inj hc]

theorem head?_ne {d : Char} (h : Fades a b) (blank : ' ' ≠ d) (stop : a.head? ≠ some d) :
    b.head? ≠ some d := by
  rcases h.head?_eq with hsame | hspace
  · rwa [hsame]
  · rw [hspace]
    exact fun hd => blank (Option.some.inj hd)

theorem fractionAt_eq_nil (h : Fades a b) (point : Numeral.fractionAt a = []) :
    Numeral.fractionAt b = [] := by
  by_cases hhead : b.head? = some '.'
  · cases h with
    | nil => contradiction
    | @keep c a b later =>
        obtain rfl : c = '.' := Option.some.inj hhead
        have hstop : ∀ d ∈ b.head?, ¬ d.isDigit := by
          apply later.stop (by decide)
          rw [Numeral.fractionAt] at point
          exact stop_of_takeWhile_append (by rw [point, List.nil_append])
        rw [Numeral.fractionAt]
        exact takeWhile_append_of_stop (List.forall_mem_nil _) hstop
    | @fade c a b later =>
        rw [head?_fadedChar_append] at hhead
        split at hhead
        · next hfeed =>
          rw [hfeed] at hhead
          contradiction
        · contradiction
  · exact Numeral.fractionAt_eq_nil_of_head? hhead

end Fades

end Text

namespace Segment

/-! ## Segments made blank -/

/-- The segment is a token, or a string that is not closed. -/
def stays : Segment → Bool
  | .blank _ => false
  | .comment _ => false
  | .stray _ => false
  | _ => true

def faded (segment : Segment) : List Segment :=
  if segment.stays then [segment] else (Text.faded segment.text).map .blank

theorem textOf_map_blank (text : List Char) : textOf (text.map .blank) = text := by
  rw [textOf, List.flatMap_map]
  exact List.flatMap_singleton' text

theorem IsCut.blanks_append {blanks : List Char} {later : List Segment}
    (all : ∀ c ∈ blanks, c.isWhitespace) (cut : IsCut later) :
    IsCut (blanks.map .blank ++ later) := by
  induction blanks with
  | nil => exact cut
  | cons c blanks ih =>
      obtain ⟨hc, hblanks⟩ := List.forall_mem_cons.mp all
      exact ⟨hc, trivial, ih hblanks⟩

theorem fades_textOf (segments : List Segment) :
    Text.Fades (textOf segments) (textOf (segments.flatMap faded)) := by
  induction segments with
  | nil => exact .nil
  | cons segment later ih =>
      rw [textOf_cons, List.flatMap_cons, textOf_append, faded]
      split
      · rw [textOf_cons, textOf_nil, List.append_nil]
        exact ih.keep_append _
      · rw [textOf_map_blank]
        exact ih.fade_append _

/-- What stays ends where it did when blanks take the place of what is behind it. -/
theorem EndsBefore.of_fades {segment : Segment} {rest other : List Char}
    (ends : segment.EndsBefore rest) (stays : segment.stays) (h : Text.Fades rest other) :
    segment.EndsBefore other := by
  cases segment with
  | comment body => contradiction
  | operator op =>
      exact ⟨fun hop => h.head?_ne (by decide) (ends.1 hop),
        fun hop => h.head?_ne (by decide) (ends.2 hop)⟩
  | number numeral =>
      exact ⟨h.stop (by decide) ends.1, fun hwhole => h.fractionAt_eq_nil (ends.2 hwhole)⟩
  | word letters => exact h.stop (by decide) ends
  | openString contents =>
      obtain rfl : rest = [] := ends
      cases h
      rfl
  | _ => trivial

theorem isCut_faded {segments : List Segment} (cut : IsCut segments) :
    IsCut (segments.flatMap faded) := by
  induction segments with
  | nil => exact cut
  | cons segment later ih =>
      obtain ⟨form, ends, cut⟩ := cut
      rw [List.flatMap_cons, faded]
      split
      · next stays => exact ⟨form, ends.of_fades stays (fades_textOf later), ih cut⟩
      · exact (ih cut).blanks_append fun c hc => Text.isWhitespace_of_mem_faded hc

theorem byteLength_textOf_faded (segment : Segment) :
    Text.byteLength (textOf segment.faded) = Text.byteLength segment.text := by
  rw [faded]
  split
  · rw [textOf_cons, textOf_nil, List.append_nil]
  · rw [textOf_map_blank, Text.byteLength_faded]

end Segment

namespace Scan

open Segment

/-! ## What is found in segments made blank -/

theorem tokensFrom_faded (offset : Nat) (segments : List Segment) :
    tokensFrom offset (segments.flatMap faded) = tokensFrom offset segments := by
  induction segments generalizing offset with
  | nil => rfl
  | cons segment later ih =>
      have hhere : tokensFrom offset segment.faded = (segment.token? offset).toList := by
        rw [faded]
        split
        · rw [tokensFrom_cons]
          exact List.append_nil _
        · next gone =>
          rw [tokensFrom_eq_nil]
          · cases segment <;> first | rfl | exact absurd rfl gone
          · simp [token?]
      rw [List.flatMap_cons, tokensFrom_append, hhere, byteLength_textOf_faded, ih,
        tokensFrom_cons]

theorem faultsFrom_faded (offset : Nat) (segments : List Segment) :
    faultsFrom offset (segments.flatMap faded) =
      (faultsFrom offset segments).filter (·.2 = .unterminatedString) := by
  induction segments generalizing offset with
  | nil => rfl
  | cons segment later ih =>
      have hhere : faultsFrom offset segment.faded =
          (Placed.fault? ⟨offset, segment⟩).toList.filter (·.2 = .unterminatedString) := by
        rw [faded]
        split
        · next stays =>
          rw [faultsFrom_cons]
          cases segment <;> first | rfl | contradiction
        · next gone =>
          rw [faultsFrom_eq_nil]
          · cases segment <;> first | rfl | exact absurd rfl gone
          · simp [fault?]
      rw [List.flatMap_cons, faultsFrom_append, hhere, byteLength_textOf_faded, ih,
        faultsFrom_cons, List.filter_append]

end Scan

/-! ## Erased bytes -/

namespace Placed

open Segment

def Covers (placed : Placed) (i : Nat) : Prop :=
  placed.offset ≤ i ∧ i < placed.offset + Text.byteLength placed.segment.text

theorem eq_of_covers {offset i : Nat} {segments : List Segment} {a b : Placed}
    (ha : a ∈ line offset segments) (hb : b ∈ line offset segments) (hai : a.Covers i)
    (hbi : b.Covers i) : a = b := by
  induction segments generalizing offset with
  | nil => contradiction
  | cons segment later ih =>
      rw [line, List.mem_cons] at ha hb
      rcases ha with rfl | ha <;> rcases hb with rfl | hb
      · rfl
      · have hspan := (span_of_mem_line hb).1
        exact absurd (hspan.trans hbi.1) (Nat.not_le.mpr hai.2)
      · have hspan := (span_of_mem_line ha).1
        exact absurd (hspan.trans hai.1) (Nat.not_le.mpr hbi.2)
      · exact ih ha hb

theorem mapIdx_eq_map {α β : Type} {f : Nat → α → β} {g : α → β} {list : List α}
    (h : ∀ i < list.length, ∀ x, f i x = g x) : list.mapIdx f = list.map g := by
  apply List.ext_getElem
  · rw [List.length_mapIdx, List.length_map]
  · intro i hi hi'
    rw [List.getElem_mapIdx, List.getElem_map]
    exact h i (by rwa [List.length_mapIdx] at hi) _

section

variable {erased : Nat → Prop} [DecidablePred erased]

theorem mapIdx_bytes_text {placed : Placed}
    (h : ∀ i, placed.Covers i → (erased i ↔ placed.segment.stays = false)) :
    ((Text.bytes placed.segment.text).mapIdx fun i byte =>
        if erased (placed.offset + i) then Text.fadedByte byte else byte) =
      Text.bytes (textOf placed.segment.faded) := by
  have hcovers : ∀ i < (Text.bytes placed.segment.text).length,
      placed.Covers (placed.offset + i) := by
    intro i hi
    rw [Text.length_bytes] at hi
    exact ⟨Nat.le_add_right .., Nat.add_lt_add_left hi _⟩
  rw [faded]
  split
  · next stays =>
    rw [mapIdx_eq_map (g := id), List.map_id, textOf_cons, textOf_nil, List.append_nil]
    intro i hi byte
    rw [if_neg, id]
    rw [h _ (hcovers i hi), stays]
    decide
  · next gone =>
    rw [mapIdx_eq_map (g := Text.fadedByte), textOf_map_blank, Text.bytes_faded]
    intro i hi byte
    exact if_pos ((h _ (hcovers i hi)).mpr (Bool.not_eq_true _ ▸ gone))

/-- Of the bytes of segments those are made spaces that belong to a segment which does not stay. -/
theorem mapIdx_bytes {offset : Nat} {segments : List Segment}
    (h : ∀ placed ∈ line offset segments, ∀ i, placed.Covers i →
      (erased i ↔ placed.segment.stays = false)) :
    ((Text.bytes (textOf segments)).mapIdx fun i byte =>
        if erased (offset + i) then Text.fadedByte byte else byte) =
      Text.bytes (textOf (segments.flatMap faded)) := by
  induction segments generalizing offset with
  | nil => rfl
  | cons segment later ih =>
      rw [line, List.forall_mem_cons] at h
      have hindex (i : Nat) : offset + (i + Text.byteLength segment.text) =
          offset + Text.byteLength segment.text + i := by omega
      rw [textOf_cons, Text.bytes_append, List.mapIdx_append, Text.length_bytes,
        List.flatMap_cons, textOf_append, Text.bytes_append, ← ih h.2]
      simp only [hindex]
      exact congrArg (· ++ _) (mapIdx_bytes_text h.1)

end

end Placed

namespace Location

/-! ## Positions and line feeds -/

theorem count_take (bytes : List UInt8) (here : Nat) :
    (bytes.take here).count '\n'.toUInt8 =
      ((bytes.map (· == '\n'.toUInt8)).take here).countP id := by
  rw [← List.map_take, List.countP_map]
  rfl

theorem lineStart_eq (bytes : List UInt8) (here : Nat) :
    lineStart bytes here = here -
      (((bytes.map (· == '\n'.toUInt8)).take here).reverse.takeWhile (!·)).length := by
  rw [lineStart, ← List.map_take, ← List.map_reverse, List.takeWhile_map, List.length_map]
  rfl

theorem position_eq_of_lineFeeds {a b : String}
    (h : a.toUTF8.data.toList.map (· == '\n'.toUInt8) =
      b.toUTF8.data.toList.map (· == '\n'.toUInt8)) (offset : Nat) :
    (ofOffset a.toList offset).position = (ofOffset b.toList offset).position := by
  have hlength : a.toUTF8.data.toList.length = b.toUTF8.data.toList.length := by
    simpa using congrArg List.length h
  rw [(ofOffset_searches a offset).1, (ofOffset_searches b offset).1, hlength, count_take,
    count_take b.toUTF8.data.toList, lineStart_eq, lineStart_eq b.toUTF8.data.toList, h]

end Location

namespace Scan

open Segment

/-! ## The bytes that no token needs -/

/-- The byte belongs to no token, and if a string is not closed it stands before its quote. -/
def IsErased (source : String) (i : Nat) : Prop :=
  (∀ token ∈ (ofText source).tokens, ¬ (token.offset ≤ i ∧ i < token.endOffset)) ∧
    ∀ error ∈ faults source.toList, error.2 = .unterminatedString → i < error.1

instance (source : String) : DecidablePred (IsErased source) := fun _ =>
  inferInstanceAs (Decidable (_ ∧ _))

/-- The bytes of the text, with a space for each that is erased and is not a line feed. -/
def erasedBytes (source : String) : List UInt8 :=
  source.toUTF8.data.toList.mapIdx fun i byte =>
    if IsErased source i then Text.fadedByte byte else byte

def erased (source : String) : String :=
  String.ofList (textOf ((cutOf source.toList).flatMap faded))

theorem stays_of_token? {segment : Segment} {offset : Nat} {token : Token}
    (h : segment.token? offset = some token) : segment.stays := by
  cases segment <;> first | rfl | contradiction

theorem token?_or_fault?_of_stays {segment : Segment} (h : segment.stays) (offset : Nat) :
    (∃ token, segment.token? offset = some token) ∨
      segment.fault? = some .unterminatedString := by
  cases segment <;> first | exact .inl ⟨_, rfl⟩ | exact .inr rfl | contradiction

theorem exists_placed_of_mem_tokens {source : String} {token : Token} {i : Nat}
    (h : token ∈ (ofText source).tokens) (start : token.offset ≤ i) (stop : i < token.endOffset) :
    ∃ placed ∈ Placed.line 0 (cutOf source.toList), placed.Covers i ∧ placed.segment.stays := by
  rw [ofText_tokens, List.mem_append, List.mem_singleton] at h
  rcases h with hproper | rfl
  · rw [properTokens, cut_eq_line] at hproper
    obtain ⟨placed, hplaced, hmade⟩ := List.mem_filterMap.mp hproper
    rw [offset_of_token? hmade] at start
    rw [endOffset_of_token? hmade] at stop
    exact ⟨placed, hplaced, ⟨start, stop⟩, stays_of_token? hmade⟩
  · exact absurd start (Nat.not_le.mpr stop)

theorem exists_placed_of_mem_faults {source : List Char} {opening i : Nat}
    (h : (opening, .unterminatedString) ∈ faults source) (start : opening ≤ i)
    (stop : i < Text.byteLength source) :
    ∃ placed ∈ Placed.line 0 (cutOf source), placed.Covers i ∧ placed.segment.stays := by
  rw [faults, cut_eq_line] at h
  obtain ⟨placed, hplaced, hfault⟩ := List.mem_filterMap.mp h
  obtain ⟨fault, hkind, hsame⟩ := Option.map_eq_some_iff.mp hfault
  obtain ⟨rfl, rfl⟩ := Prod.mk.inj hsame
  obtain ⟨contents, hopen⟩ := exists_openString_of_fault? hkind
  obtain ⟨before, after, hsegments, hoffset⟩ := Placed.mem_line hplaced
  have hcut := isCut_cutOf source
  have htext := textOf_cutOf source
  rw [hsegments, hopen] at hcut htext
  obtain rfl := hcut.of_append.eq_nil_of_openString
  rw [← htext, textOf_append, textOf_cons, textOf_nil, List.append_nil, Text.byteLength_append,
    ← hopen] at stop
  have hcovers : placed.Covers i := ⟨start, by omega⟩
  exact ⟨placed, hplaced, hcovers, by rw [hopen]; rfl⟩

section

variable {source : String} {placed : Placed} {i : Nat}
  (hplaced : placed ∈ Placed.line 0 (cutOf source.toList)) (hi : placed.Covers i)
include hplaced hi

theorem isErased_of_not_stays (gone : placed.segment.stays = false) : IsErased source i := by
  have hnone : ¬ ∃ other ∈ Placed.line 0 (cutOf source.toList),
      other.Covers i ∧ other.segment.stays := by
    rintro ⟨other, hother, hcovers, stays⟩
    rw [Placed.eq_of_covers hplaced hother hi hcovers, stays] at gone
    contradiction
  have hinside : i < Text.byteLength source.toList := by
    have hend := (Placed.span_of_mem_line hplaced).2
    rw [textOf_cutOf, Nat.zero_add] at hend
    exact Nat.lt_of_lt_of_le hi.2 hend
  constructor
  · intro token htoken hspan
    exact hnone (exists_placed_of_mem_tokens htoken hspan.1 hspan.2)
  · rintro ⟨opening, fault⟩ herror rfl
    by_contra hbehind
    exact hnone (exists_placed_of_mem_faults herror (Nat.not_lt.mp hbehind) hinside)

theorem not_isErased_of_stays (stays : placed.segment.stays) : ¬ IsErased source i := by
  rintro ⟨tokens, opening⟩
  rcases token?_or_fault?_of_stays stays placed.offset with ⟨token, hmade⟩ | hopen
  · have hmem : token ∈ (ofText source).tokens := by
      rw [ofText_tokens, properTokens, cut_eq_line]
      exact List.mem_append_left _ (List.mem_filterMap.mpr ⟨placed, hplaced, hmade⟩)
    apply tokens token hmem
    rw [offset_of_token? hmade, endOffset_of_token? hmade]
    exact hi
  · have hmem : (placed.offset, .unterminatedString) ∈ faults source.toList := by
      rw [faults, cut_eq_line]
      exact List.mem_filterMap.mpr ⟨placed, hplaced, by rw [Placed.fault?, hopen]; rfl⟩
    exact absurd (opening _ hmem rfl) (Nat.not_lt.mpr hi.1)

theorem isErased_iff : IsErased source i ↔ placed.segment.stays = false := by
  constructor
  · intro herased
    by_contra hstays
    exact not_isErased_of_stays hplaced hi (Bool.of_not_eq_false hstays) herased
  · exact isErased_of_not_stays hplaced hi

end

theorem toUTF8_erased (source : String) :
    (erased source).toUTF8.data.toList = erasedBytes source := by
  have hgone : ∀ placed ∈ Placed.line 0 (cutOf source.toList), ∀ i, placed.Covers i →
      (IsErased source i ↔ placed.segment.stays = false) :=
    fun placed hplaced i hi => isErased_iff hplaced hi
  have hbytes := Placed.mapIdx_bytes hgone
  simp only [Nat.zero_add, textOf_cutOf] at hbytes
  rw [Text.toList_toUTF8, erased, String.toList_ofList, ← hbytes, erasedBytes, Text.toList_toUTF8]

theorem lineFeeds_erasedBytes (source : String) :
    (erasedBytes source).map (· == '\n'.toUInt8) =
      source.toUTF8.data.toList.map (· == '\n'.toUInt8) := by
  apply List.ext_getElem
  · simp [erasedBytes]
  · intro i hi hi'
    simp only [erasedBytes, List.getElem_map, List.getElem_mapIdx]
    split
    · exact Text.fadedByte_beq _
    · rfl

theorem position_erased (source : String) (offset : Nat) :
    (Location.ofOffset (erased source).toList offset).position =
      (Location.ofOffset source.toList offset).position := by
  apply Location.position_eq_of_lineFeeds
  rw [toUTF8_erased, lineFeeds_erasedBytes]

theorem utf8ByteSize_erased (source : String) :
    (erased source).utf8ByteSize = source.utf8ByteSize := by
  have hlength := congrArg List.length (toUTF8_erased source)
  rwa [erasedBytes, List.length_mapIdx, Text.toList_toUTF8, Text.toList_toUTF8, Text.length_bytes,
    Text.length_bytes, Text.byteLength_toList, Text.byteLength_toList] at hlength

theorem tokens_erased (source : String) :
    (ofText (erased source)).tokens = (ofText source).tokens := by
  rw [ofText_tokens, ofText_tokens, utf8ByteSize_erased, erased, String.toList_ofList,
    properTokens_textOf (isCut_faded (isCut_cutOf source.toList)), tokensFrom_faded,
    ← properTokens_eq]

theorem faults_erased (source : String) :
    faults (erased source).toList =
      (faults source.toList).filter (·.2 = .unterminatedString) := by
  rw [erased, String.toList_ofList, faults_textOf (isCut_faded (isCut_cutOf source.toList)),
    faultsFrom_faded, ← faults_eq]

theorem length_filter_unterminated (source : String) :
    ((ofText source).diagnostics.filter
      (·.message = Fault.unterminatedString.message)).length ≤ 1 := by
  apply length_filter_le_one
  intro before record after hsplit hmessage
  exact eq_nil_of_diagnostics_eq hsplit (of_decide_eq_true hmessage)

theorem records_erased (source : String) :
    (ofText (erased source)).diagnostics.map (fun record => (record.position, record.message)) =
      ((ofText source).diagnostics.filter (·.message = Fault.unterminatedString.message)).map
        (fun record => (record.position, record.message)) := by
  rw [filter_diagnostics, ofText_diagnostics, faults_erased, List.map_map, List.map_map]
  apply List.map_congr_left
  intro error herror
  exact congrArg (·, error.2.message) (position_erased source error.1)

end Scan

/-- A space for every byte of a text that is not a line feed, lies in no token, and stands before
the quote of a string that is not closed, if there is one: the bytes that come of it are a text
again. A scan finds the very same tokens in it, and records nothing but the string that is not
closed, where it is. -/
theorem scan_of_erased (source : String) :
    ∃ erased : String, erased.toUTF8.data.toList = Scan.erasedBytes source ∧
      (Scan.ofText erased).tokens = (Scan.ofText source).tokens ∧
      (Scan.ofText erased).diagnostics.length ≤ 1 ∧
      (Scan.ofText erased).diagnostics.map (fun record => (record.position, record.message)) =
        ((Scan.ofText source).diagnostics.filter
          (·.message = Fault.unterminatedString.message)).map
            (fun record => (record.position, record.message)) := by
  have hrecords := Scan.records_erased source
  have hlength := congrArg List.length hrecords
  rw [List.length_map, List.length_map] at hlength
  refine ⟨Scan.erased source, Scan.toUTF8_erased source, Scan.tokens_erased source, ?_, hrecords⟩
  rw [hlength]
  exact Scan.length_filter_unterminated source

example : Scan.erased "1._5 !@= // é\n\"x@" = "1. 5 ! =      \n\"x@" := by decide +kernel

end Lexis
