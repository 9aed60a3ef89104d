import Lexis.Proofs.Cursor

/-!
# Steps of a cursor

What a cursor reads and takes out of a text, by what is ahead of it. A loop looks for bytes below
128, and such a byte is a character of the text and never a part of one, so the loop ends between
two characters although it passes through them byte by byte.
-/

namespace Lexis

theorem IsBoundary.le {source : String} {offset : Nat} (h : IsBoundary source offset) :
    offset ≤ source.utf8ByteSize := String.Pos.Raw.IsValid.le_utf8ByteSize h

theorem isBoundary_of_split {source : String} {front rest : List Char}
    (h : source.toList = front ++ rest) : IsBoundary source (Text.byteLength front) := by
  have hsplit : source.toList = front ++ rest ++ [] := by rw [h, List.append_nil]
  obtain ⟨start, stop, -, hstart, -⟩ := Text.exists_extract hsplit
  rw [← hstart]
  exact start.isValid

example : IsBoundary "aé" 1 ∧ ¬ IsBoundary "aé" 2 := by decide

namespace Cursor

variable {source : String} {cursor : Cursor}

@[simp] theorem forward_current (count : Nat) :
    (cursor.forward count).current = cursor.current + count := rfl

@[simp] theorem forward_zero : cursor.forward 0 = cursor := rfl

@[simp] theorem forward_forward (a b : Nat) :
    (cursor.forward a).forward b = cursor.forward (a + b) := by
  rw [forward, forward, forward, Nat.add_assoc]

/-! ## What is ahead -/

def ahead (source : String) (cursor : Cursor) : List Char :=
  (Text.octets source.toList).drop cursor.current

theorem ahead_forward (count : Nat) :
    (cursor.forward count).ahead source = (cursor.ahead source).drop count := by
  rw [ahead, ahead, List.drop_drop, forward_current]

theorem ahead_next {c : Char} {later : List Char} (h : cursor.ahead source = c :: later) :
    (cursor.forward 1).ahead source = later := by
  rw [ahead_forward, h, List.drop_one, List.tail_cons]

theorem peekAt_eq (distance : Nat) :
    cursor.peekAt source distance = ((cursor.ahead source).drop distance).headD '\x00' := by
  rw [peekAt, octetAt?_eq, ahead, List.drop_drop, List.headD_eq_head?_getD, List.head?_drop]

theorem peek_eq : cursor.peek source = (cursor.ahead source).headD '\x00' := peekAt_eq 0

theorem peek_of_ahead {rest : List Char} (h : cursor.ahead source = Text.octets rest) :
    cursor.peek source = Text.leading rest := by
  rw [peek_eq, h, Text.leading]

theorem atEnd_iff : cursor.atEnd source ↔ cursor.ahead source = [] := by
  rw [atEnd, decide_eq_true_eq, ahead, List.drop_eq_nil_iff, Text.length_octets,
    Text.byteLength_toList]

theorem not_atEnd_of_ahead {c : Char} {later : List Char} (h : cursor.ahead source = c :: later) :
    ¬ cursor.atEnd source := by
  rw [atEnd_iff, h]
  exact List.cons_ne_nil c later

theorem advance_of_ahead {c : Char} {later : List Char} (h : cursor.ahead source = c :: later) :
    cursor.advance source = .ok (c, cursor.forward 1) := by
  have hoctet : (Text.octets source.toList)[cursor.current]? = some c := by
    rw [← List.head?_drop, ← ahead, h, List.head?_cons]
  rw [advance, octetAt?_eq, hoctet]

theorem exists_advance_iff :
    (∃ read, cursor.advance source = .ok read) ↔ cursor.current < source.utf8ByteSize := by
  constructor
  · rintro ⟨⟨c, next⟩, h⟩
    exact (advance_eq_ok h).1
  · intro inside
    have hend : ¬ cursor.atEnd source := by simpa [atEnd] using inside
    obtain ⟨c, later, hahead⟩ := List.exists_cons_of_ne_nil (mt atEnd_iff.mpr hend)
    exact ⟨_, advance_of_ahead hahead⟩

theorem accept?_of_head {expected : Char} {later : List Char} (ascii : expected.toNat < 128)
    (h : cursor.ahead source = Text.octets (expected :: later)) :
    cursor.accept? source expected = some (cursor.forward 1) := by
  have hahead : cursor.ahead source = expected :: Text.octets later := by
    rw [h, Text.octets_cons_of_ascii later ascii]
  have hpeek : cursor.peek source = expected := by rw [peek_eq, hahead, List.headD_cons]
  rw [accept?, if_neg]
  exact not_or.mpr ⟨not_atEnd_of_ahead hahead, not_not_intro hpeek⟩

theorem accept?_of_ne {expected : Char} {rest : List Char} (ascii : expected.toNat < 128)
    (null : expected ≠ '\x00') (h : cursor.ahead source = Text.octets rest)
    (other : rest.head? ≠ some expected) : cursor.accept? source expected = none := by
  have hpeek : cursor.peek source ≠ expected := by
    rw [peek_of_ahead h]
    exact mt (Text.leading_eq_iff ascii null rest).mp other
  rw [accept?, if_pos (.inr hpeek)]

/-! ## Loops -/

theorem advanceWhile_of_test {test : Cursor → Bool} {c : Char} {next : Cursor}
    (goes : test cursor) (h : cursor.advance source = .ok (c, next)) :
    cursor.advanceWhile source test = next.advanceWhile source test := by
  rw [advanceWhile, if_pos goes]
  split
  · next _ _ h' =>
    cases h.symm.trans h'
    rfl
  · next h' => cases h.symm.trans h'

/-- A loop that goes on at each byte of a run and stops behind it passes over the run. -/
theorem advanceWhile_of_ahead {test : Cursor → Bool} {run rest : List Char}
    (h : cursor.ahead source = run ++ rest)
    (goes : ∀ c ∈ run, ∀ (here : Cursor) later, here.ahead source = c :: later → test here)
    (stops : ∀ here : Cursor, here.ahead source = rest → ¬ test here) :
    cursor.advanceWhile source test = .ok (cursor.forward run.length) := by
  induction run generalizing cursor with
  | nil => rw [advanceWhile, if_neg (stops cursor h), List.length_nil, forward_zero]
  | cons c run ih =>
      have hnext : (cursor.forward 1).ahead source = run ++ rest := ahead_next h
      rw [advanceWhile_of_test (goes c List.mem_cons_self cursor _ h) (advance_of_ahead h),
        ih hnext fun d hd => goes d (List.mem_cons_of_mem c hd), forward_forward, List.length_cons,
        Nat.add_comm]

section

variable {text rest : List Char} (h : cursor.ahead source = Text.octets (text ++ rest))
include h

theorem ahead_behind :
    (cursor.forward (Text.byteLength text)).ahead source = Text.octets rest := by
  rw [ahead_forward, h, Text.octets_append, ← Text.length_octets, List.drop_left]

theorem advanceUntil_of_ahead {stop : Char} (ascii : stop.toNat < 128) (free : stop ∉ text)
    (ends : ∀ c ∈ rest.head?, c = stop) :
    cursor.advanceUntil source stop = .ok (cursor.forward (Text.byteLength text)) := by
  rw [Text.octets_append] at h
  rw [advanceUntil, advanceWhile_of_ahead h, Text.length_octets]
  · -- A null character of the text reads like the end, so going on takes the test for the end too.
    intro c hc here later hahead
    have hstop : c ≠ stop := by
      rintro rfl
      exact free (Text.mem_of_mem_octets ascii hc)
    have hend : ¬ here.atEnd source := not_atEnd_of_ahead hahead
    simp [peek_eq, hahead, hstop, hend]
  · intro here hahead
    cases rest with
    | nil =>
        have hend : here.atEnd source := atEnd_iff.mpr hahead
        simp [hend]
    | cons c rest =>
        obtain rfl := ends c rfl
        have hpeek : here.peek source = c := by
          rw [peek_eq, hahead]
          exact Text.leading_of_ascii rest ascii
        simp [hpeek]

/-- The loop has no test for the end: what is read there is not in the class. -/
theorem advanceOver_of_ahead {belongs : Char → Bool} (ascii : ∀ c, belongs c → c.toNat < 128)
    (null : ¬ belongs '\x00') (all : ∀ c ∈ text, belongs c)
    (ends : ∀ c ∈ rest.head?, ¬ belongs c) :
    cursor.advanceOver source belongs = .ok (cursor.forward (Text.byteLength text)) := by
  have htext : Text.octets text = text := Text.octets_of_ascii fun c hc => ascii c (all c hc)
  rw [Text.octets_append] at h
  rw [advanceOver, advanceWhile_of_ahead h, Text.length_octets]
  · intro c hc here later hahead
    rw [htext] at hc
    rw [peek_eq, hahead]
    exact all c hc
  · intro here hahead
    rw [peek_eq, hahead, ← Text.leading, Text.leading_iff ascii null]
    rintro ⟨c, hc, hbelongs⟩
    exact ends c hc hbelongs

end

/-! ## What is taken out of the text -/

theorem exists_bytesBetween_iff {start stop : Nat} :
    (∃ bytes, bytesBetween source start stop = .ok bytes) ↔
      start ≤ stop ∧ stop ≤ source.utf8ByteSize := by
  constructor
  · rintro ⟨bytes, h⟩
    unfold bytesBetween at h
    split at h
    · assumption
    · contradiction
  · intro sound
    exact ⟨_, if_pos sound⟩

/-- A range of text is taken exactly if its ends are in order and between characters. -/
theorem exists_textBetween_iff {start stop : Nat} :
    (∃ text, textBetween source start stop = .ok text) ↔
      start ≤ stop ∧ IsBoundary source start ∧ IsBoundary source stop := by
  constructor
  · rintro ⟨text, h⟩
    unfold textBetween at h
    split at h
    · assumption
    · contradiction
  · intro sound
    exact ⟨_, dif_pos sound⟩

theorem textBetween_of_le {start stop : source.Pos} (h : start ≤ stop) :
    textBetween source start.offset.byteIdx stop.offset.byteIdx = .ok (source.extract start stop) :=
  dif_pos ⟨h, start.isValid, stop.isValid⟩

theorem textBetween_eq {before part after : List Char}
    (h : source.toList = before ++ part ++ after) :
    textBetween source (Text.byteLength before) (Text.byteLength before + Text.byteLength part) =
      .ok (String.ofList part) := by
  obtain ⟨start, stop, hordered, hstart, hstop, hextract⟩ := Text.exists_extract h
  rw [← hstop, ← hstart, ← hextract, textBetween_of_le hordered]

theorem bytesBetween_front {here : Nat} (h : here ≤ source.utf8ByteSize) :
    bytesBetween source 0 here = .ok (source.toUTF8.data.toList.take here) :=
  if_pos ⟨Nat.zero_le here, h⟩

theorem bytesBetween_behind {here : Nat} (h : here ≤ source.utf8ByteSize) :
    bytesBetween source here source.utf8ByteSize = .ok (source.toUTF8.data.toList.drop here) := by
  have hsize : (source.toUTF8.data.toList.drop here).length = source.utf8ByteSize - here :=
    List.length_drop
  rw [bytesBetween, if_pos ⟨h, Nat.le_refl _⟩, List.extract_eq_take_drop, ← hsize, List.take_length]

/-- The search for a line takes nothing out of the text that it does not have. -/
theorem locate_eq (offset : Nat) :
    locate source offset = .ok (Location.ofOffset source.toList offset) := by
  obtain ⟨hposition, start, stop, hordered, hstart, hstop, hextract⟩ :=
    Location.ofOffset_searches source offset
  have hhere : min offset source.utf8ByteSize ≤ source.utf8ByteSize := Nat.min_le_right ..
  have hline := textBetween_of_le hordered
  rw [hstart, hstop, hextract] at hline
  rw [locate, bytesBetween_front hhere, ok_bind, bytesBetween_behind hhere, ok_bind]
  refine Eq.trans (congrArg (· >>= _) hline) ?_
  rw [ok_bind, String.toList_ofList]
  exact congrArg Except.ok (congrArg (Location.mk · _) hposition.symm)

end Cursor

end Lexis
