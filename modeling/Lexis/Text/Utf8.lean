/-!
# Lengths and cuts in UTF-8 bytes

Offsets, columns and limits count the bytes of the UTF-8 encoding.
-/

namespace Lexis.Text

def byteLength (text : List Char) : Nat := text.foldr (fun c bytes => c.utf8Size + bytes) 0

@[simp] theorem byteLength_nil : byteLength [] = 0 := rfl

@[simp] theorem byteLength_cons (c : Char) (text : List Char) :
    byteLength (c :: text) = c.utf8Size + byteLength text := rfl

@[simp] theorem byteLength_append (a b : List Char) :
    byteLength (a ++ b) = byteLength a + byteLength b := by
  induction a with
  | nil => simp
  | cons c a ih => simp [ih, Nat.add_assoc]

theorem byteLength_pos {text : List Char} (h : text ≠ []) : 0 < byteLength text := by
  cases text with
  | nil => contradiction
  | cons c text =>
      have := c.utf8Size_pos
      simp only [byteLength_cons]
      omega

theorem utf8ByteSize_ofList (text : List Char) :
    (String.ofList text).utf8ByteSize = byteLength text := by
  induction text with
  | nil => rfl
  | cons c text ih =>
      rw [show c :: text = [c] ++ text by rfl, String.ofList_append, String.utf8ByteSize_append,
        ih, ← String.singleton_eq_ofList, String.utf8ByteSize_singleton]
      rfl

theorem byteLength_toList (text : String) : byteLength text.toList = text.utf8ByteSize := by
  rw [← utf8ByteSize_ofList, String.ofList_toList]

theorem fromUTF8?_toUTF8 (text : String) : String.fromUTF8? text.toUTF8 = some text := by
  unfold String.fromUTF8?
  rw [dif_pos (show text.toUTF8.IsValidUTF8 from text.isValidUTF8)]
  rfl

theorem toUTF8_of_fromUTF8? {bytes : ByteArray} {text : String}
    (h : String.fromUTF8? bytes = some text) : text.toUTF8 = bytes := by
  unfold String.fromUTF8? at h
  split at h
  · cases h
    rfl
  · contradiction

/-- The text of bytes that may break off inside a character; the broken character is shown as
one replacement character. -/
def ofCutBytes (bytes : ByteArray) : String :=
  match String.fromUTF8? bytes with
  | some text => text
  | none =>
      let shorter := [1, 2, 3].findSome? fun missing =>
        String.fromUTF8? (bytes.extract 0 (bytes.size - missing))
      shorter.getD "" ++ "\uFFFD"

end Lexis.Text
