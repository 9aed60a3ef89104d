import Lexis.Number.Numeral
import Lexis.Token

/-!
# Segments of a source text

A source text is cut from the front into segments, each as long as its rule allows. Some segments
are tokens, some are faults, blanks and comments are neither.
-/

namespace Lexis

inductive Fault where
  | unexpectedCharacter
  | unterminatedString
  deriving Repr, DecidableEq

def Fault.message : Fault → String
  | .unexpectedCharacter => "Unexpected character."
  | .unterminatedString => "Unterminated string."

inductive Segment where
  | blank (c : Char)
  | comment (body : List Char)
  | operator (op : Operator)
  | string (contents : List Char)
  | number (numeral : Numeral)
  | word (letters : List Char)
  /-- A character that starts no other segment. -/
  | stray (c : Char)
  /-- A quote without a second one behind it, and all that follows it. -/
  | openString (contents : List Char)
  deriving Repr, DecidableEq

namespace Segment

def text : Segment → List Char
  | .blank c => [c]
  | .comment body => '/' :: '/' :: body
  | .operator op => op.spelling
  | .string contents => '"' :: (contents ++ ['"'])
  | .number numeral => numeral.text
  | .word letters => letters
  | .stray c => [c]
  | .openString contents => '"' :: contents

/-- The operator at the front of a text, one character of which has been read as `op`. -/
def operatorAt (op : Operator) (later : List Char) : Operator :=
  match op.withEqual?, later with
  | some long, '=' :: _ => long
  | _, _ => op

def first (c : Char) (later : List Char) : Segment :=
  if c.isWhitespace then .blank c
  else if c = '/' ∧ later.head? = some '/' then .comment (later.tail.takeWhile (· != '\n'))
  else
    match Operator.ofChar? c with
    | some op => .operator (operatorAt op later)
    | none =>
        if c = '"' then
          if '"' ∈ later then .string (later.takeWhile (· != '"')) else .openString later
        else if c.isDigit then .number (Numeral.atFront (c :: later))
        else if c.isAlpha then .word (c :: later.takeWhile Char.isAlphanum)
        else .stray c

theorem operatorAt_spelling_isPrefix {c : Char} {op : Operator} (later : List Char)
    (h : Operator.ofChar? c = some op) : (operatorAt op later).spelling <+: c :: later := by
  have one := Operator.spelling_of_ofChar? h
  unfold operatorAt
  split
  · rename_i long rest hlong
    rw [Operator.spelling_of_withEqual? hlong, one]
    simp
  · rw [one]
    simp

theorem takeWhile_quote {later : List Char} (h : '"' ∈ later) :
    later.takeWhile (· != '"') ++ ['"'] <+: later := by
  induction later with
  | nil => simp at h
  | cons d later ih =>
      by_cases hd : d = '"'
      · simp [hd]
      · have : '"' ∈ later := by
          rcases List.mem_cons.mp h with h | h
          · exact absurd h.symm hd
          · exact h
        simpa [hd] using ih this

theorem first_text_isPrefix (c : Char) (later : List Char) :
    (first c later).text <+: c :: later := by
  unfold first
  split
  · simp [text]
  split
  · rename_i hslash
    obtain ⟨rfl, hhead⟩ := hslash
    cases later with
    | nil => simp at hhead
    | cons d later =>
        simp only [List.head?_cons, Option.some.injEq] at hhead
        simp [text, hhead, List.takeWhile_prefix]
  split
  · rename_i op hop
    exact operatorAt_spelling_isPrefix later hop
  split
  · rename_i hquote
    subst hquote
    split
    · rename_i hmem
      simpa [text] using takeWhile_quote hmem
    · simp [text]
  split
  · exact Numeral.atFront_text_isPrefix _
  split
  · simp [text, List.takeWhile_prefix]
  · simp [text]

theorem spelling_ne_nil (op : Operator) : op.spelling ≠ [] := by
  cases op <;> simp [Operator.spelling]

theorem first_text_ne_nil (c : Char) (later : List Char) : (first c later).text ≠ [] := by
  unfold first
  split
  · simp [text]
  split
  · simp [text]
  split
  · exact spelling_ne_nil _
  split
  · split <;> simp [text]
  split
  · rename_i hdigit
    exact Numeral.text_ne_nil (Numeral.atFront_wellFormed later hdigit)
  split
  · simp [text]
  · simp [text]

theorem length_drop_first_lt (c : Char) (later : List Char) :
    ((c :: later).drop (first c later).text.length).length < (c :: later).length := by
  have := List.length_pos_iff.mpr (first_text_ne_nil c later)
  rw [List.length_drop, List.length_cons]
  omega

def token? (segment : Segment) (offset : Nat) : Option Token :=
  let lexeme := String.ofList segment.text
  match segment with
  | .operator op => some ⟨.operator op, lexeme, offset, none⟩
  | .string contents => some ⟨.string, lexeme, offset, some (.string (String.ofList contents))⟩
  | .number numeral =>
      let value := Binary64.ofRatio numeral.digitsValue numeral.scale
      some ⟨.number, lexeme, offset, some (.number value)⟩
  | .word _ => some ⟨Kind.ofWord lexeme, lexeme, offset, none⟩
  | _ => none

def fault? : Segment → Option Fault
  | .stray _ => some .unexpectedCharacter
  | .openString _ => some .unterminatedString
  | _ => none

theorem token?_shift (segment : Segment) (offset distance : Nat) :
    segment.token? (offset + distance) = (segment.token? offset).map (·.shift distance) := by
  cases segment <;> rfl

theorem token?_text {segment : Segment} {offset : Nat} {token : Token}
    (h : segment.token? offset = some token) :
    token.lexeme = String.ofList segment.text ∧ token.offset = offset := by
  cases segment <;> simp [token?] at h <;> subst h <;> simp

theorem token?_eq_none_of_fault? {segment : Segment} {fault : Fault} (offset : Nat)
    (h : segment.fault? = some fault) : segment.token? offset = none := by
  cases segment <;> simp [fault?] at h <;> rfl

end Segment

end Lexis
