import Lexis.Proofs.Front
import Lexis.Proofs.Lines
import Mathlib.Data.Set.Function

/-!
# Offsets and positions

The positions of a text are the columns of its lines, of which each line has one more than it has
bytes. They correspond to the offsets of the text, in the same order. The location of an offset is
also what three searches in the bytes find, one backward for the start of the line, one forward for
its end, and a count of the line feeds. Wherever the offset lies, the two ends lie between
characters.
-/

namespace Lexis

namespace Text

/-! ## Bytes of a text -/

def bytes (text : List Char) : List UInt8 := text.flatMap String.utf8EncodeChar

@[simp] theorem bytes_append (a b : List Char) : bytes (a ++ b) = bytes a ++ bytes b :=
  List.flatMap_append

@[simp] theorem length_bytes (text : List Char) : (bytes text).length = byteLength text := by
  induction text with
  | nil => rfl
  | cons c text ih =>
      rw [bytes, List.flatMap_cons, List.length_append, String.length_utf8EncodeChar,
        byteLength_cons, ← ih, bytes]

theorem toList_toUTF8 (text : String) : text.toUTF8.data.toList = bytes text.toList := by
  have hbytes : text.toByteArray = text.toList.utf8Encode := by
    rw [← String.toByteArray_ofList, String.ofList_toList]
  rw [String.toUTF8_eq_toByteArray, hbytes, List.utf8Encode, List.toList_data_toByteArray, bytes]

theorem lineFeed_ne {byte : Nat} (low : 128 ≤ byte) (high : byte < 256) :
    '\n'.toUInt8 ≠ UInt8.ofNat byte := by
  intro h
  have hnat : 10 = (UInt8.ofNat byte).toNat := congrArg UInt8.toNat h
  rw [UInt8.toNat_ofNat'] at hnat
  omega

theorem eq_lineFeed_of_mem {c : Char} (h : '\n'.toUInt8 ∈ String.utf8EncodeChar c) : c = '\n' := by
  revert h
  fun_cases String.utf8EncodeChar c with
  | case1 code low =>
      intro h
      have hnat : 10 = (UInt8.ofNat c.val.toNat).toNat :=
        congrArg UInt8.toNat (List.mem_singleton.mp h)
      rw [UInt8.toNat_ofNat'] at hnat
      have hcode : c.val.toNat = 10 := by omega
      exact Char.ext (UInt32.toNat_inj.mp hcode)
  | case2 =>
      simp only [List.mem_cons, List.not_mem_nil, or_false]
      rintro (h | h) <;> exact absurd h (lineFeed_ne (by omega) (by omega))
  | case3 =>
      simp only [List.mem_cons, List.not_mem_nil, or_false]
      rintro (h | h | h) <;> exact absurd h (lineFeed_ne (by omega) (by omega))
  | case4 =>
      simp only [List.mem_cons, List.not_mem_nil, or_false]
      rintro (h | h | h | h) <;> exact absurd h (lineFeed_ne (by omega) (by omega))

theorem count_utf8EncodeChar (c : Char) :
    (String.utf8EncodeChar c).count '\n'.toUInt8 = if c = '\n' then 1 else 0 := by
  split
  · next h =>
    subst h
    rfl
  · next h => exact List.count_eq_zero.mpr (mt eq_lineFeed_of_mem h)

theorem count_bytes (text : List Char) : (bytes text).count '\n'.toUInt8 = text.count '\n' := by
  induction text with
  | nil => rfl
  | cons c text ih =>
      rw [bytes, List.flatMap_cons, List.count_append, count_utf8EncodeChar, ← bytes, ih,
        List.count_cons, Nat.add_comm]
      simp

theorem lineFeed_mem_bytes {text : List Char} : '\n'.toUInt8 ∈ bytes text ↔ '\n' ∈ text := by
  rw [← List.count_pos_iff, count_bytes, List.count_pos_iff]

/-- The ends of a part of a text lie between characters, and what lies between them is the part. -/
theorem exists_extract {text : String} {before part after : List Char}
    (h : text.toList = before ++ part ++ after) :
    ∃ start stop : text.Pos, start ≤ stop ∧ start.offset.byteIdx = byteLength before ∧
      stop.offset.byteIdx = byteLength before + byteLength part ∧
      text.extract start stop = String.ofList part := by
  have htext : text = String.ofList before ++ String.ofList part ++ String.ofList after := by
    rw [← String.ofList_append, ← String.ofList_append, ← h, String.ofList_toList]
  have hstart : (String.ofList before).rawEndPos.IsValid text :=
    String.Pos.Raw.isValid_iff_exists_append.mpr ⟨_, _, htext.trans (String.append_assoc ..), rfl⟩
  have hstop : (String.ofList before ++ String.ofList part).rawEndPos.IsValid text :=
    String.Pos.Raw.isValid_iff_exists_append.mpr ⟨_, _, htext, rfl⟩
  have hsize (part : List Char) : byteLength part = part.utf8Encode.size := by
    rw [← utf8ByteSize_ofList, ← String.size_toByteArray, String.toByteArray_ofList]
  have hbytes : text.toByteArray = before.utf8Encode ++ (part.utf8Encode ++ after.utf8Encode) := by
    rw [htext]
    simp [ByteArray.append_assoc]
  have hend : (String.ofList before ++ String.ofList part).utf8ByteSize =
      byteLength before + byteLength part := by
    rw [String.utf8ByteSize_append, utf8ByteSize_ofList, utf8ByteSize_ofList]
  refine ⟨⟨_, hstart⟩, ⟨_, hstop⟩, ?_, utf8ByteSize_ofList before, hend, ?_⟩
  · rw [String.Pos.le_iff, String.Pos.Raw.le_iff]
    exact (utf8ByteSize_ofList before).le.trans ((Nat.le_add_right ..).trans hend.ge)
  · apply String.toByteArray_inj.mp
    rw [String.toByteArray_extract, hbytes, String.toByteArray_ofList]
    show ByteArray.extract _ (String.utf8ByteSize _) (String.utf8ByteSize _) = _
    rw [hend, utf8ByteSize_ofList, hsize, hsize]
    exact (ByteArray.extract_append_size_add (i := 0)).trans (ByteArray.extract_append_eq_left rfl)

end Text

namespace Location

/-! ## Searches in the bytes -/

/-- The byte right behind the last line feed before an offset, or the first byte. -/
def lineStart (bytes : List UInt8) (offset : Nat) : Nat :=
  offset - ((bytes.take offset).reverse.takeWhile (· != '\n'.toUInt8)).length

/-- The byte of the first line feed from an offset on, or the end of the bytes. -/
def lineStop (bytes : List UInt8) (offset : Nat) : Nat :=
  offset + ((bytes.drop offset).takeWhile (· != '\n'.toUInt8)).length

theorem exists_line {source : List Char} {offset : Nat} (h : offset ≤ Text.byteLength source) :
    ∃ (before line after : List Char) (within : Nat), source = before ++ line ++ after ∧
      (before = [] ∨ before.getLast? = some '\n') ∧ '\n' ∉ line ∧
      (after = [] ∨ after.head? = some '\n') ∧ offset = Text.byteLength before + within ∧
      within ≤ Text.byteLength line := by
  induction source using lines_induction generalizing offset with
  | last line whole => exact ⟨[], line, [], offset, by simp, .inl rfl, whole, .inl rfl, by simp, h⟩
  | line first later whole ih =>
      by_cases hhere : offset ≤ Text.byteLength first
      · exact ⟨[], first, '\n' :: later, offset, rfl, .inl rfl, whole, .inr rfl, by simp, hhere⟩
      · have hfeed := byteLength_lineFeed
        simp only [Text.byteLength_append, Text.byteLength_cons, Text.byteLength_nil] at h hfeed
        obtain ⟨before, line, after, within, rfl, starts, hline, ends, hoffset, hwithin⟩ :=
          ih (by omega : offset - (Text.byteLength first + 1) ≤ Text.byteLength later)
        refine ⟨first ++ '\n' :: before, line, after, within, by simp, .inr ?_, hline, ends, ?_,
          hwithin⟩
        · rcases starts with rfl | starts
          · simp
          · rw [List.getLast?_append, List.getLast?_cons, starts]
            rfl
        · simp only [Text.byteLength_append, Text.byteLength_cons]
          omega

section

variable {before line after : List Char} {within : Nat} (h : within ≤ Text.byteLength line)
include h

theorem take_bytes :
    (Text.bytes (before ++ line ++ after)).take (Text.byteLength before + within) =
      Text.bytes before ++ (Text.bytes line).take within := by
  rw [← Text.length_bytes] at h ⊢
  rw [Text.bytes_append, Text.bytes_append, List.append_assoc, List.take_length_add_append,
    List.take_append_of_le_length h]

theorem drop_bytes :
    (Text.bytes (before ++ line ++ after)).drop (Text.byteLength before + within) =
      (Text.bytes line).drop within ++ Text.bytes after := by
  rw [← Text.length_bytes] at h ⊢
  rw [Text.bytes_append, Text.bytes_append, List.append_assoc, List.drop_length_add_append,
    List.drop_append_of_le_length h]

variable (whole : '\n' ∉ line)
include whole

theorem lineStart_of_line (starts : before = [] ∨ before.getLast? = some '\n') :
    lineStart (Text.bytes (before ++ line ++ after)) (Text.byteLength before + within) =
      Text.byteLength before := by
  have hfront : '\n'.toUInt8 ∉ ((Text.bytes line).take within).reverse := fun hmem =>
    whole (Text.lineFeed_mem_bytes.mp (List.mem_of_mem_take (List.mem_reverse.mp hmem)))
  have hstop : ∀ byte ∈ (Text.bytes before).reverse.head?, ¬ (byte != '\n'.toUInt8) := by
    intro byte hbyte
    rcases starts with rfl | starts
    · contradiction
    · obtain ⟨earlier, rfl⟩ := List.getLast?_eq_some_iff.mp starts
      have hlast : (Text.bytes (earlier ++ ['\n'])).reverse.head? = some '\n'.toUInt8 := by
        rw [Text.bytes_append, List.reverse_append]
        rfl
      rw [Option.mem_def, hlast] at hbyte
      simp [← Option.some.inj hbyte]
  rw [lineStart, take_bytes h, List.reverse_append,
    takeWhile_append_of_stop (forall_bne_of_not_mem hfront) hstop, List.length_reverse,
    List.length_take, Text.length_bytes, Nat.min_eq_left h, Nat.add_sub_cancel]

theorem lineStop_of_line (ends : after = [] ∨ after.head? = some '\n') :
    lineStop (Text.bytes (before ++ line ++ after)) (Text.byteLength before + within) =
      Text.byteLength before + Text.byteLength line := by
  have hfront : '\n'.toUInt8 ∉ (Text.bytes line).drop within := fun hmem =>
    whole (Text.lineFeed_mem_bytes.mp (List.mem_of_mem_drop hmem))
  have hstop : ∀ byte ∈ (Text.bytes after).head?, ¬ (byte != '\n'.toUInt8) := by
    intro byte hbyte
    rcases ends with rfl | ends
    · contradiction
    · obtain ⟨later, rfl⟩ := List.head?_eq_some_iff.mp ends
      have hfirst : (Text.bytes ('\n' :: later)).head? = some '\n'.toUInt8 := rfl
      rw [Option.mem_def, hfirst] at hbyte
      simp [← Option.some.inj hbyte]
  rw [lineStop, drop_bytes h, takeWhile_append_of_stop (forall_bne_of_not_mem hfront) hstop,
    List.length_drop, Text.length_bytes, Nat.add_assoc, Nat.add_sub_cancel' h]

theorem count_take_of_line :
    ((Text.bytes (before ++ line ++ after)).take (Text.byteLength before + within)).count
      '\n'.toUInt8 = before.count '\n' := by
  have hline : '\n'.toUInt8 ∉ (Text.bytes line).take within := fun hmem =>
    whole (Text.lineFeed_mem_bytes.mp (List.mem_of_mem_take hmem))
  rw [take_bytes h, List.count_append, Text.count_bytes, List.count_eq_zero.mpr hline,
    Nat.add_zero]

end

/-! ## Positions of lines -/

/-- The position is a column of one of the lines, or the one behind its end. -/
def IsOn (lines : List (List Char)) (position : Position) : Prop :=
  ∃ line, 1 ≤ position.line ∧ lines[position.line - 1]? = some line ∧ 1 ≤ position.column ∧
    position.column ≤ Text.byteLength line + 1

def positionOf (source : List Char) (offset : Nat) : Position := (ofOffset source offset).position

/-- The lines before a position, each with its line feed, and the columns before it. -/
def offsetOf (lines : List (List Char)) (position : Position) : Nat :=
  width (lines.take (position.line - 1)) + (position.column - 1)

section

variable {lines : List (List Char)} {index within : Nat} {line : List Char}
  (hline : lines[index]? = some line) (h : within ≤ Text.byteLength line)
include hline h

theorem width_take_add_lt : width (lines.take index) + within < width lines := by
  induction lines generalizing index with
  | nil => contradiction
  | cons current later ih =>
      cases index with
      | zero =>
          obtain rfl : current = line := Option.some.inj hline
          rw [List.take_zero, width, width]
          omega
      | succ index =>
          have hlater := ih hline
          rw [List.take_succ_cons, width, width]
          omega

theorem find_width_take (first : Nat) :
    find first lines (width (lines.take index) + within) = ⟨⟨first + index, within + 1⟩, line⟩ := by
  induction lines generalizing first index with
  | nil => contradiction
  | cons current later ih =>
      cases index with
      | zero =>
          obtain rfl : current = line := Option.some.inj hline
          rw [List.take_zero, width, Nat.zero_add, find_here h]
          rfl
      | succ index =>
          rw [List.take_succ_cons, width, Nat.add_assoc _ (width _), find_later, ih hline,
            Nat.add_assoc, Nat.add_comm 1]

end

theorem exists_column {lines : List (List Char)} {offset : Nat} (h : offset < width lines) :
    ∃ index line within, lines[index]? = some line ∧ within ≤ Text.byteLength line ∧
      offset = width (lines.take index) + within := by
  induction lines generalizing offset with
  | nil => exact absurd h (Nat.not_lt_zero offset)
  | cons line later ih =>
      by_cases hhere : offset ≤ Text.byteLength line
      · exact ⟨0, line, offset, rfl, hhere, (Nat.zero_add offset).symm⟩
      · rw [width] at h
        obtain ⟨index, line', within, hline, hwithin, hoffset⟩ :=
          ih (by omega : offset - (Text.byteLength line + 1) < width later)
        refine ⟨index + 1, line', within, hline, hwithin, ?_⟩
        rw [List.take_succ_cons, width]
        omega

section

variable {source : List Char} {index within : Nat} {line : List Char}
  (hline : (linesOf source)[index]? = some line) (h : within ≤ Text.byteLength line)
include hline h

theorem column_le : width ((linesOf source).take index) + within ≤ Text.byteLength source := by
  have hlt := width_take_add_lt hline h
  rw [width_linesOf] at hlt
  omega

theorem ofOffset_column : ofOffset source (width ((linesOf source).take index) + within) =
    ⟨⟨index + 1, within + 1⟩, line⟩ := by
  rw [ofOffset, Nat.min_eq_left (column_le hline h), find_width_take hline h, Nat.add_comm]

end

theorem exists_column_linesOf {source : List Char} {offset : Nat}
    (h : offset ≤ Text.byteLength source) :
    ∃ index line within, (linesOf source)[index]? = some line ∧ within ≤ Text.byteLength line ∧
      offset = width ((linesOf source).take index) + within := by
  apply exists_column
  rw [width_linesOf]
  omega

theorem isOn_of_column {lines : List (List Char)} {index within : Nat} {line : List Char}
    (hline : lines[index]? = some line) (h : within ≤ Text.byteLength line) :
    IsOn lines ⟨index + 1, within + 1⟩ :=
  ⟨line, Nat.le_add_left .., hline, Nat.le_add_left .., Nat.succ_le_succ h⟩

theorem exists_column_of_isOn {lines : List (List Char)} {position : Position}
    (h : IsOn lines position) :
    ∃ index line within, lines[index]? = some line ∧ within ≤ Text.byteLength line ∧
      position = ⟨index + 1, within + 1⟩ := by
  obtain ⟨line, hfirst, hline, hcolumn, hbound⟩ := h
  obtain ⟨number, column⟩ := position
  refine ⟨number - 1, line, column - 1, hline, ?_, ?_⟩
  · dsimp only at hbound
    omega
  · rw [Nat.sub_add_cancel hfirst, Nat.sub_add_cancel hcolumn]

theorem offsetOf_column (lines : List (List Char)) (index within : Nat) :
    offsetOf lines ⟨index + 1, within + 1⟩ = width (lines.take index) + within := rfl

theorem invOn_offsetOf (source : List Char) :
    Set.InvOn (offsetOf (linesOf source)) (positionOf source)
      {offset | offset ≤ Text.byteLength source} {position | IsOn (linesOf source) position} := by
  constructor
  · intro offset hoffset
    obtain ⟨index, line, within, hline, hwithin, rfl⟩ := exists_column_linesOf hoffset
    rw [positionOf, ofOffset_column hline hwithin, offsetOf_column]
  · intro position hposition
    obtain ⟨index, line, within, hline, hwithin, rfl⟩ := exists_column_of_isOn hposition
    rw [offsetOf_column, positionOf, ofOffset_column hline hwithin]

theorem bijOn_position (source : List Char) :
    Set.BijOn (positionOf source)
      {offset | offset ≤ Text.byteLength source} {position | IsOn (linesOf source) position} := by
  refine (invOn_offsetOf source).bijOn ?_ ?_
  · intro offset hoffset
    obtain ⟨index, line, within, hline, hwithin, rfl⟩ := exists_column_linesOf hoffset
    rw [positionOf, ofOffset_column hline hwithin]
    exact isOn_of_column hline hwithin
  · intro position hposition
    obtain ⟨index, line, within, hline, hwithin, rfl⟩ := exists_column_of_isOn hposition
    exact column_le hline hwithin

theorem ofOffset_min (source : List Char) (offset : Nat) :
    ofOffset source (min offset (Text.byteLength source)) = ofOffset source offset := by
  rw [ofOffset, ofOffset, Nat.min_assoc, Nat.min_self]

theorem getElem?_line (source : List Char) (offset : Nat) :
    (linesOf source)[(ofOffset source offset).position.line - 1]? =
      some (ofOffset source offset).lineText := by
  rw [← ofOffset_min]
  obtain ⟨index, line, within, hline, hwithin, hoffset⟩ :=
    exists_column_linesOf (Nat.min_le_right offset (Text.byteLength source))
  rw [hoffset, ofOffset_column hline hwithin]
  exact hline

theorem ofOffset_searches (source : String) (offset : Nat) :
    let bytes := source.toUTF8.data.toList
    let here := min offset bytes.length
    (ofOffset source.toList offset).position =
        ⟨(bytes.take here).count '\n'.toUInt8 + 1, here - lineStart bytes here + 1⟩ ∧
      ∃ start stop : source.Pos, start ≤ stop ∧ start.offset.byteIdx = lineStart bytes here ∧
        stop.offset.byteIdx = lineStop bytes here ∧
        source.extract start stop = String.ofList (ofOffset source.toList offset).lineText := by
  dsimp only
  rw [Text.toList_toUTF8, Text.length_bytes, ← ofOffset_min]
  obtain ⟨before, line, after, within, hsource, starts, whole, ends, hoffset, h⟩ :=
    exists_line (Nat.min_le_right offset (Text.byteLength source.toList))
  have hlocation := ofOffset_of_line starts whole ends h
  obtain ⟨start, stop, hordered, hstart, hstop, hextract⟩ := Text.exists_extract hsource
  rw [hoffset, hsource, hlocation, count_take_of_line h whole, lineStart_of_line h whole starts,
    lineStop_of_line h whole ends, Nat.add_sub_cancel_left]
  exact ⟨rfl, start, stop, hordered, hstart, hstop, hextract⟩

end Location

/-- The offsets of a text up to its end stand for the columns of its lines, one for one and in their
order; what is counted off along the lines up to a column is its offset. An offset beyond the end
stands for the last column. Wherever the offset is, in a character or before one, the line is found
by searching the bytes for line feeds in both directions, and it is whole characters. -/
theorem offsets_correspond_to_positions (source : String) :
    Set.BijOn (Location.positionOf source.toList) {offset | offset ≤ source.utf8ByteSize}
        {place | Location.IsOn (Location.linesOf source.toList) place} ∧
      Set.InvOn (Location.offsetOf (Location.linesOf source.toList))
        (Location.positionOf source.toList) {offset | offset ≤ source.utf8ByteSize}
        {place | Location.IsOn (Location.linesOf source.toList) place} ∧
      (∀ p q, p < q → q ≤ source.utf8ByteSize →
        (Location.positionOf source.toList p).compare (Location.positionOf source.toList q) = .lt) ∧
      (∀ offset,
        (Location.linesOf source.toList)[(Location.positionOf source.toList offset).line - 1]? =
          some (Location.ofOffset source.toList offset).lineText) ∧
      (∀ offset, source.utf8ByteSize ≤ offset →
        Location.ofOffset source.toList offset =
          Location.ofOffset source.toList source.utf8ByteSize) ∧
      ∀ offset,
        let bytes := source.toUTF8.data.toList
        let here := min offset bytes.length
        Location.positionOf source.toList offset =
          ⟨(bytes.take here).count '\n'.toUInt8 + 1, here - Location.lineStart bytes here + 1⟩ ∧
        ∃ start stop : source.Pos, start ≤ stop ∧
          start.offset.byteIdx = Location.lineStart bytes here ∧
          stop.offset.byteIdx = Location.lineStop bytes here ∧
          source.extract start stop =
            String.ofList (Location.ofOffset source.toList offset).lineText := by
  have hlength := Text.byteLength_toList source
  have hbijective := Location.bijOn_position source.toList
  have hinverse := Location.invOn_offsetOf source.toList
  rw [hlength] at hbijective hinverse
  refine ⟨hbijective, hinverse, ?_, Location.getElem?_line source.toList, ?_,
    Location.ofOffset_searches source⟩
  · intro p q hlt hbound
    rw [← hlength] at hbound
    exact Location.ofOffset_compare hlt hbound
  · intro offset hbeyond
    rw [← hlength] at hbeyond ⊢
    exact Location.ofOffset_of_length_le hbeyond

end Lexis
