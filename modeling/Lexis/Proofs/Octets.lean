import Lexis.Proofs.Offsets

/-!
# Texts byte by byte

The bytes of a text, each read as the character of its number. A character below 128 is one byte and
is read as itself. Of every other character the first byte is read as one from 192 on, and the bytes
behind it as continuations, which lie between the two.
-/

namespace Lexis

namespace Text

/-- The bytes of a text, each read as the character of its number. -/
def octets (text : List Char) : List Char := (bytes text).map Char.ofUInt8

@[simp] theorem octets_append (a b : List Char) : octets (a ++ b) = octets a ++ octets b := by
  rw [octets, bytes_append, List.map_append, octets, octets]

theorem octets_cons (c : Char) (text : List Char) :
    octets (c :: text) = octets [c] ++ octets text :=
  octets_append [c] text

@[simp] theorem length_octets (text : List Char) : (octets text).length = byteLength text := by
  rw [octets, List.length_map, length_bytes]

/-- Whether a byte stands in a character behind its first byte. -/
def isContinuation (c : Char) : Bool := c.val &&& 0xC0 == 0x80

/-- The first byte of several that encode a character. -/
def isLead (c : Char) : Bool := 192 ≤ c.toNat && c.toNat < 256

theorem isContinuation_iff {c : Char} (h : c.toNat < 256) :
    isContinuation c ↔ 128 ≤ c.toNat ∧ c.toNat < 192 := by
  have all : ∀ n : Fin 256, isContinuation (Char.ofNat n) ↔ 128 ≤ n.val ∧ n.val < 192 := by
    decide +kernel
  have hc := all ⟨c.toNat, h⟩
  rwa [Char.ofNat_toNat] at hc

theorem isLead_iff {c : Char} : isLead c ↔ 192 ≤ c.toNat ∧ c.toNat < 256 := by
  rw [isLead, Bool.and_eq_true, decide_eq_true_eq, decide_eq_true_eq]

theorem not_isLead_of_ascii {c : Char} (h : c.toNat < 128) : ¬ isLead c := by
  rw [isLead_iff]
  omega

theorem not_isContinuation_of_ascii {c : Char} (h : c.toNat < 128) : ¬ isContinuation c := by
  rw [isContinuation_iff (by omega)]
  omega

theorem not_isContinuation_of_isLead {c : Char} (h : isLead c) : ¬ isContinuation c := by
  rw [isLead_iff] at h
  rw [isContinuation_iff h.2]
  omega

theorem toNat_ofUInt8_ofNat {n : Nat} (h : n < 256) : (Char.ofUInt8 (UInt8.ofNat n)).toNat = n := by
  show (UInt8.ofNat n).toNat = n
  rw [UInt8.toNat_ofNat', Nat.mod_eq_of_lt h]

theorem isLead_ofNat {n : Nat} (low : 192 ≤ n) (high : n < 256) :
    isLead (Char.ofUInt8 (UInt8.ofNat n)) := by
  rw [isLead_iff, toNat_ofUInt8_ofNat high]
  exact ⟨low, high⟩

theorem isContinuation_ofNat (n : Nat) :
    isContinuation (Char.ofUInt8 (UInt8.ofNat (n % 64 + 128))) := by
  have hnat := toNat_ofUInt8_ofNat (by omega : n % 64 + 128 < 256)
  rw [isContinuation_iff (by omega), hnat]
  omega

/-- A character is one byte below 128, or a first byte from 192 on and its continuations. -/
theorem octets_singleton (c : Char) :
    (c.toNat < 128 ∧ octets [c] = [c]) ∨
      128 ≤ c.toNat ∧ ∃ first later, octets [c] = first :: later ∧ isLead first ∧
        ∀ d ∈ later, isContinuation d := by
  rw [octets, bytes, List.flatMap_singleton, Char.toNat]
  fun_cases String.utf8EncodeChar c with
  | case1 code low =>
      have hcode : c.val.toNat < 128 := Nat.lt_succ_of_le low
      refine .inl ⟨hcode, ?_⟩
      have hc : (Char.ofUInt8 (UInt8.ofNat code)).toNat = c.toNat :=
        toNat_ofUInt8_ofNat (by omega)
      rw [List.map_singleton, Char.toNat_inj.mp hc]
  | case2 code high low =>
      refine .inr ⟨by omega, _, _, rfl, isLead_ofNat (by omega) (by omega), ?_⟩
      simp [isContinuation_ofNat, -UInt8.ofNat_add]
  | case3 code high high' low =>
      refine .inr ⟨by omega, _, _, rfl, isLead_ofNat (by omega) (by omega), ?_⟩
      simp [isContinuation_ofNat, -UInt8.ofNat_add]
  | case4 code high high' high'' =>
      refine .inr ⟨by omega, _, _, rfl, isLead_ofNat (by omega) (by omega), ?_⟩
      simp [isContinuation_ofNat, -UInt8.ofNat_add]

theorem utf8Size_of_ascii {c : Char} (h : c.toNat < 128) : c.utf8Size = 1 :=
  Char.utf8Size_eq_one_iff.mpr (UInt32.le_iff_toNat_le.mpr (Nat.le_of_lt_succ h))

theorem octets_cons_of_ascii {c : Char} (text : List Char) (h : c.toNat < 128) :
    octets (c :: text) = c :: octets text := by
  rcases octets_singleton c with ⟨-, hsame⟩ | ⟨high, -⟩
  · rw [octets_cons, hsame, List.singleton_append]
  · exact absurd high (Nat.not_le_of_lt h)

theorem octets_of_ascii {text : List Char} (h : ∀ c ∈ text, c.toNat < 128) :
    octets text = text := by
  induction text with
  | nil => rfl
  | cons c text ih =>
      obtain ⟨hc, htext⟩ := List.forall_mem_cons.mp h
      rw [octets_cons_of_ascii text hc, ih htext]

/-- A byte below 128 is a character of the text. -/
theorem mem_of_mem_octets {text : List Char} {d : Char} (ascii : d.toNat < 128)
    (h : d ∈ octets text) : d ∈ text := by
  induction text with
  | nil => exact h
  | cons c text ih =>
      rw [octets_cons, List.mem_append] at h
      rcases h with hc | htext
      · rcases octets_singleton c with ⟨-, hsame⟩ | ⟨-, first, later, hsame, lead, all⟩
        · rw [hsame, List.mem_singleton] at hc
          exact hc ▸ List.mem_cons_self
        · have hlead : ¬ isLead d := not_isLead_of_ascii ascii
          have hcontinuation : ¬ isContinuation d := not_isContinuation_of_ascii ascii
          rw [hsame, List.mem_cons] at hc
          rcases hc with rfl | hlater
          · exact absurd lead hlead
          · exact absurd (all d hlater) hcontinuation
      · exact List.mem_cons_of_mem c (ih htext)

/-! ## The byte at the front -/

def leading (text : List Char) : Char := (octets text).headD '\x00'

@[simp] theorem leading_nil : leading [] = '\x00' := rfl

theorem leading_of_ascii {c : Char} (text : List Char) (h : c.toNat < 128) :
    leading (c :: text) = c := by
  rw [leading, octets_cons_of_ascii text h, List.headD_cons]

theorem isLead_leading {c : Char} (text : List Char) (h : 128 ≤ c.toNat) :
    isLead (leading (c :: text)) := by
  rcases octets_singleton c with ⟨low, -⟩ | ⟨-, first, later, hsame, lead, -⟩
  · exact absurd h (Nat.not_le_of_lt low)
  · rw [leading, octets_cons, hsame]
    exact lead

theorem not_isContinuation_leading (text : List Char) : ¬ isContinuation (leading text) := by
  cases text with
  | nil => decide
  | cons c text =>
      by_cases h : c.toNat < 128
      · rw [leading_of_ascii text h]
        exact not_isContinuation_of_ascii h
      · exact not_isContinuation_of_isLead (isLead_leading text (Nat.le_of_not_lt h))

/-- Whether the first character of a text is in a class below 128 is seen in its first byte, and
that there is none is seen in the null character. -/
theorem leading_iff {p : Char → Bool} (ascii : ∀ c, p c → c.toNat < 128) (null : ¬ p '\x00')
    (text : List Char) : p (leading text) ↔ ∃ c ∈ text.head?, p c := by
  cases text with
  | nil =>
      rw [leading_nil]
      simpa using null
  | cons c text =>
      simp only [List.head?_cons, Option.mem_some_iff, exists_eq_left']
      by_cases h : c.toNat < 128
      · rw [leading_of_ascii text h]
      · have hlead := isLead_leading text (Nat.le_of_not_lt h)
        constructor
        · intro hp
          exact absurd hlead (not_isLead_of_ascii (ascii _ hp))
        · intro hp
          exact absurd (ascii c hp) h

theorem leading_eq_iff {d : Char} (ascii : d.toNat < 128) (null : d ≠ '\x00')
    (text : List Char) : leading text = d ↔ text.head? = some d := by
  have hclass : ∀ c, (c == d) → c.toNat < 128 := by
    intro c hc
    rwa [beq_iff_eq.mp hc]
  have hlead := leading_iff hclass (by simpa using null.symm) text
  simpa using hlead

end Text

/-! ## Classes of characters below 128 -/

theorem toNat_lt_of_isWhitespace {c : Char} (h : c.isWhitespace) : c.toNat < 128 := by
  simp only [Char.isWhitespace, Bool.or_eq_true, decide_eq_true_eq] at h
  rcases h with ((rfl | rfl) | rfl) | rfl <;> decide

theorem toNat_lt_of_ofChar? {c : Char} {op : Operator} (h : Operator.ofChar? c = some op) :
    c.toNat < 128 := by
  unfold Operator.ofChar? at h
  split at h <;> first | decide | contradiction

theorem toNat_lt_of_isAlphanum {c : Char} (h : c.isAlphanum) : c.toNat < 128 := by
  have hbound (d : Char) (hd : d.toNat < 128) (hc : c.val ≤ d.val) : c.toNat < 128 :=
    Nat.lt_of_le_of_lt hc hd
  rcases Bool.or_eq_true_iff.mp h with alpha | digit
  · rcases Bool.or_eq_true_iff.mp alpha with upper | lower
    · exact hbound 'Z' (by decide) (of_decide_eq_true upper).2
    · exact hbound 'z' (by decide) (of_decide_eq_true (Bool.and_eq_true_iff.mp lower).2)
  · exact hbound '9' (by decide) (of_decide_eq_true (Bool.and_eq_true_iff.mp digit).2)

theorem toNat_lt_of_isDigit {c : Char} (h : c.isDigit) : c.toNat < 128 :=
  toNat_lt_of_isAlphanum (isAlphanum_of_isDigit h)

theorem isStray_of_isLead {c : Char} (h : Text.isLead c) : IsStray c where
  not_blank hc := Text.not_isLead_of_ascii (toNat_lt_of_isWhitespace hc) h
  not_operator := by
    cases hop : Operator.ofChar? c with
    | none => rfl
    | some op => exact absurd h (Text.not_isLead_of_ascii (toNat_lt_of_ofChar? hop))
  not_quote hc := by
    subst hc
    exact absurd h (by decide)
  not_alphanum hc := Text.not_isLead_of_ascii (toNat_lt_of_isAlphanum hc) h

theorem exists_octets_of_isStray {c : Char} (h : IsStray c) :
    ∃ first later, Text.octets [c] = first :: later ∧ IsStray first ∧
      ∀ d ∈ later, Text.isContinuation d := by
  rcases Text.octets_singleton c with ⟨-, hsame⟩ | ⟨-, first, later, hsame, lead, all⟩
  · exact ⟨c, [], hsame, h, List.forall_mem_nil _⟩
  · exact ⟨first, later, hsame, isStray_of_isLead lead, all⟩

end Lexis
