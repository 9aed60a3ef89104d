/-!
# Writing to a sink

A sink takes bytes until its limit, if it has one. A text is offered to it in pieces, and writing
stops at the first piece that is not taken whole.
-/

namespace Lexis

inductive WriteError where
  | sinkFull
  /-- A caret was to be set under a column too far to the right. -/
  | caretOutOfRange
  deriving Repr, DecidableEq

def WriteError.message : WriteError → String
  | .sinkFull => "sink full"
  | .caretOutOfRange => "Formatting argument out of range"

/-- A text to be written, or the reason why it cannot be made. -/
abbrev Piece := Except WriteError String

structure Sink where
  /-- How many bytes the sink takes in all; `none` if it takes any number. -/
  limit : Option Nat
  held : ByteArray

namespace Sink

def empty (limit : Option Nat) : Sink := ⟨limit, .empty⟩

def unlimited : Sink := empty none

/-- Offers a text: the sink holds what fits of it, and the answer is whether all of it did. -/
def write (sink : Sink) (text : String) : Sink × Bool :=
  let bytes := text.toUTF8
  match sink.limit with
  | none => ({ sink with held := sink.held ++ bytes }, true)
  | some limit =>
      let room := limit - sink.held.size
      if bytes.size ≤ room then ({ sink with held := sink.held ++ bytes }, true)
      else ({ sink with held := sink.held ++ bytes.extract 0 room }, false)

theorem write_of_no_limit {sink : Sink} (text : String) (h : sink.limit = none) :
    sink.write text = (⟨none, sink.held ++ text.toUTF8⟩, true) := by
  simp [write, h]

/-- Offers pieces in order until one of them is not taken whole. -/
def writeAll (sink : Sink) : List Piece → Sink × Option WriteError
  | [] => (sink, none)
  | .error cause :: _ => (sink, some cause)
  | .ok text :: later =>
      match sink.write text with
      | (sink, true) => writeAll sink later
      | (sink, false) => (sink, some .sinkFull)

@[simp] theorem writeAll_nil (sink : Sink) : sink.writeAll [] = (sink, none) := rfl

theorem writeAll_append (sink : Sink) (first second : List Piece) :
    sink.writeAll (first ++ second) =
      match sink.writeAll first with
      | (sink, none) => sink.writeAll second
      | (sink, some cause) => (sink, some cause) := by
  induction first generalizing sink with
  | nil => rfl
  | cons piece first ih =>
      cases piece with
      | error cause => rfl
      | ok text =>
          rw [List.cons_append, writeAll, writeAll]
          rcases sink.write text with ⟨next, taken⟩
          cases taken
          · rfl
          · exact ih next

theorem write_of_le {limit : Nat} {held : ByteArray} {text : String}
    (h : text.utf8ByteSize ≤ limit - held.size) :
    (⟨some limit, held⟩ : Sink).write text = (⟨some limit, held ++ text.toUTF8⟩, true) := by
  exact if_pos h

theorem write_of_lt {limit : Nat} {held : ByteArray} {text : String}
    (h : limit - held.size < text.utf8ByteSize) :
    (⟨some limit, held⟩ : Sink).write text =
      (⟨some limit, held ++ text.toUTF8.extract 0 (limit - held.size)⟩, false) := by
  exact if_neg (Nat.not_le.mpr h)

theorem extract_append_of_le {first second : ByteArray} {count : Nat} (h : count ≤ first.size) :
    (first ++ second).extract 0 count = first.extract 0 count := by
  ext1
  simp [ByteArray.data_extract, Nat.sub_eq_zero_of_le h]

theorem extract_append_of_size_le {first second : ByteArray} {count : Nat}
    (h : first.size ≤ count) :
    (first ++ second).extract 0 count = first ++ second.extract 0 (count - first.size) := by
  have whole : first.data.extract 0 count = first.data := Array.extract_eq_self_of_le h
  ext1
  simp [ByteArray.data_extract, whole]

theorem writeAll_of_no_limit (held : ByteArray) (texts : List String) :
    (⟨none, held⟩ : Sink).writeAll (texts.map .ok) =
      (⟨none, held ++ (String.join texts).toUTF8⟩, none) := by
  induction texts generalizing held with
  | nil => simp
  | cons text texts ih =>
      rw [List.map_cons, writeAll, write_of_no_limit text rfl]
      simp [ih, ByteArray.append_assoc]

/-- With a limit the sink holds what fits of the joined texts, wherever the pieces meet, and
writing fails if that is not all of them. -/
theorem writeAll_of_limit {limit : Nat} {held : ByteArray} (texts : List String)
    (room : held.size ≤ limit) :
    (⟨some limit, held⟩ : Sink).writeAll (texts.map .ok) =
      (⟨some limit, held ++ (String.join texts).toUTF8.extract 0 (limit - held.size)⟩,
        if held.size + (String.join texts).utf8ByteSize ≤ limit then none else some .sinkFull) := by
  induction texts generalizing held with
  | nil =>
      have none_left : "".toUTF8.extract 0 (limit - held.size) = ByteArray.empty := by
        ext1
        simp
      simp only [List.map_nil, writeAll_nil, String.join_nil, none_left, ByteArray.append_empty]
      rw [if_pos (by simpa using room)]
  | cons text texts ih =>
      rw [List.map_cons, writeAll, String.join_cons, String.utf8ByteSize_append,
        String.toUTF8_eq_toByteArray, String.toByteArray_append]
      by_cases fits : text.utf8ByteSize ≤ limit - held.size
      · have size : (held ++ text.toUTF8).size = held.size + text.utf8ByteSize :=
          ByteArray.size_append
        have room' : (held ++ text.toUTF8).size ≤ limit := by omega
        rw [write_of_le fits]
        dsimp only
        rw [ih room', size, extract_append_of_size_le fits, ByteArray.append_assoc,
          Nat.add_assoc, Nat.sub_add_eq]
        rfl
      · rw [write_of_lt (Nat.not_le.mp fits),
          extract_append_of_le (Nat.le_of_lt (Nat.not_le.mp fits)), if_neg (by omega)]
        rfl

end Sink

end Lexis
