import Lexis.Proofs.Octets
import Lexis.Scan

/-!
# Scanning with a cursor

A scan that moves through the bytes of a text one at a time. What it takes out of the text it asks
for by byte offsets, and where the text does not have it, the scan breaks off. Its loops move
forward whatever the text is, so they end.
-/

namespace Lexis

/-- The byte offset lies between two characters of the text or at one of its ends. -/
def IsBoundary (source : String) (offset : Nat) : Prop := String.Pos.Raw.IsValid source ⟨offset⟩

instance (source : String) (offset : Nat) : Decidable (IsBoundary source offset) :=
  inferInstanceAs (Decidable (String.Pos.Raw.IsValid source ⟨offset⟩))

theorem ok_bind {α β ε : Type} (a : α) (f : α → Except ε β) : (Except.ok a >>= f) = f a := rfl

theorem bind_eq_ok {α β ε : Type} {x : Except ε α} {f : α → Except ε β} {b : β} :
    (x >>= f) = .ok b ↔ ∃ a, x = .ok a ∧ f a = .ok b := by
  cases x with
  | error e => simp [bind, Except.bind]
  | ok a => simp [ok_bind]

/-- What is taken out of a text by byte offsets: one byte, a range of bytes, or a range of text. -/
inductive Access where
  | byte (offset : Nat)
  | bytes (start stop : Nat)
  | text (start stop : Nat)
  deriving Repr, DecidableEq

namespace Access

/-- The text has what is taken out of it: the byte is one of its bytes, the ends of a range are in
order and in the text, and those of a range of text are between characters. -/
def IsSound (source : String) : Access → Prop
  | .byte offset => offset < source.utf8ByteSize
  | .bytes start stop => start ≤ stop ∧ stop ≤ source.utf8ByteSize
  | .text start stop => start ≤ stop ∧ IsBoundary source start ∧ IsBoundary source stop

instance (source : String) (access : Access) : Decidable (access.IsSound source) :=
  match access with
  | .byte offset => inferInstanceAs (Decidable (offset < _))
  | .bytes start stop => inferInstanceAs (Decidable (start ≤ stop ∧ stop ≤ _))
  | .text start stop => inferInstanceAs (Decidable (start ≤ stop ∧ IsBoundary _ _ ∧ IsBoundary _ _))

end Access

def octetAt? (source : String) (offset : Nat) : Option Char :=
  source.toUTF8.data[offset]?.map Char.ofUInt8

theorem octetAt?_eq (source : String) (offset : Nat) :
    octetAt? source offset = (Text.octets source.toList)[offset]? := by
  rw [octetAt?, Text.octets, ← Text.toList_toUTF8, List.getElem?_map, Array.getElem?_toList]

theorem lt_of_octetAt? {source : String} {offset : Nat} {c : Char}
    (h : octetAt? source offset = some c) : offset < source.utf8ByteSize := by
  rw [octetAt?_eq] at h
  obtain ⟨inside, -⟩ := List.getElem?_eq_some_iff.mp h
  rwa [Text.length_octets, Text.byteLength_toList] at inside

def bytesBetween (source : String) (start stop : Nat) : Except Access (List UInt8) :=
  if (Access.bytes start stop).IsSound source then
    .ok (source.toUTF8.data.toList.extract start stop)
  else .error (.bytes start stop)

def textBetween (source : String) (start stop : Nat) : Except Access String :=
  if sound : (Access.text start stop).IsSound source then
    .ok (source.extract ⟨⟨start⟩, sound.2.1⟩ ⟨⟨stop⟩, sound.2.2⟩)
  else .error (.text start stop)

/-- Searches for the line around a byte offset, backward from it and forward. -/
def locate (source : String) (offset : Nat) : Except Access Location := do
  let size := source.utf8ByteSize
  let here := min offset size
  let before ← bytesBetween source 0 here
  let behind ← bytesBetween source here size
  let start := here - (before.reverse.takeWhile (· != '\n'.toUInt8)).length
  let stop := here + (behind.takeWhile (· != '\n'.toUInt8)).length
  let line ← textBetween source start stop
  return ⟨⟨before.count '\n'.toUInt8 + 1, here - start + 1⟩, line.toList⟩

/-- A double read from a numeral, and a NaN from a text that is none. -/
def readDouble (text : String) : Binary64 :=
  let numeral := Numeral.atFront text.toList
  if numeral.whole ≠ [] ∧ numeral.text = text.toList then
    Binary64.ofRatio numeral.digitsValue numeral.scale
  else Binary64.ofBits 0x7FF8000000000000

/-- Where a scan is and what it has found: the first byte of the segment under way, the next byte
to be read, the tokens and the diagnostics. -/
structure Cursor where
  start : Nat
  current : Nat
  tokens : List Token
  records : List Diagnostic
  deriving Repr, DecidableEq

namespace Cursor

variable (source : String)

def atFront : Cursor := ⟨0, 0, [], []⟩

def forward (cursor : Cursor) (count : Nat) : Cursor :=
  { cursor with current := cursor.current + count }

def restart (cursor : Cursor) : Cursor := { cursor with start := cursor.current }

def atEnd (cursor : Cursor) : Bool := source.utf8ByteSize ≤ cursor.current

/-- The byte as far behind the next one; the null character beyond the end. -/
def peekAt (cursor : Cursor) (distance : Nat) : Char :=
  (octetAt? source (cursor.current + distance)).getD '\x00'

def peek (cursor : Cursor) : Char := cursor.peekAt source 0

def advance (cursor : Cursor) : Except Access (Char × Cursor) :=
  match octetAt? source cursor.current with
  | some c => .ok (c, cursor.forward 1)
  | none => .error (.byte cursor.current)

def accept? (cursor : Cursor) (expected : Char) : Option Cursor :=
  if cursor.atEnd source ∨ cursor.peek source ≠ expected then none else some (cursor.forward 1)

/-! ## Loops over bytes -/

theorem advance_eq_ok {source : String} {cursor next : Cursor} {c : Char}
    (h : cursor.advance source = .ok (c, next)) :
    cursor.current < source.utf8ByteSize ∧ next = cursor.forward 1 := by
  unfold advance at h
  split at h
  · next d hoctet =>
    cases h
    exact ⟨lt_of_octetAt? hoctet, rfl⟩
  · contradiction

def advanceWhile (test : Cursor → Bool) (cursor : Cursor) : Except Access Cursor :=
  if test cursor then
    match h : cursor.advance source with
    | .ok (_, next) =>
        have := advance_eq_ok h
        advanceWhile test next
    | .error access => .error access
  else .ok cursor
termination_by source.utf8ByteSize - cursor.current
decreasing_by
  obtain ⟨inside, rfl⟩ := this
  show source.utf8ByteSize - (cursor.current + 1) < _
  omega

/-- Reads on to the next byte that is the stop, or to the end. -/
def advanceUntil (stop : Char) (cursor : Cursor) : Except Access Cursor :=
  cursor.advanceWhile source fun cursor => cursor.peek source != stop && !cursor.atEnd source

/-- Reads on as long as the next byte is in the class, with no test for the end. -/
def advanceOver (belongs : Char → Bool) (cursor : Cursor) : Except Access Cursor :=
  cursor.advanceWhile source fun cursor => belongs (cursor.peek source)

/-! ## What is found -/

def lexeme (cursor : Cursor) : Except Access String :=
  textBetween source cursor.start cursor.current

def add (kind : Kind) (literal : Option Literal) (cursor : Cursor) : Except Access Cursor := do
  let text ← cursor.lexeme source
  return { cursor with tokens := cursor.tokens ++ [⟨kind, text, cursor.start, literal⟩] }

def report (fault : Fault) (cursor : Cursor) : Except Access Cursor := do
  let location ← locate source cursor.start
  let record := ⟨location.position, fault.message, some (String.ofList location.lineText)⟩
  return { cursor with records := cursor.records ++ [record] }

/-- One of two operators, the longer of which ends in the expected byte. -/
def addEither (expected : Char) (long short : Operator) (cursor : Cursor) : Except Access Cursor :=
  match cursor.accept? source expected with
  | some next => next.add source (.operator long) none
  | none => cursor.add source (.operator short) none

def readString (cursor : Cursor) : Except Access Cursor := do
  let behind ← cursor.advanceUntil source '"'
  if behind.atEnd source then
    behind.report source .unterminatedString
  else
    let contents ← textBetween source (behind.start + 1) behind.current
    let (_, closed) ← behind.advance source
    closed.add source .string (some (.string contents))

/-- Digits behind a point; a point without a digit behind it is left. -/
def readFraction (cursor : Cursor) : Except Access Cursor :=
  if cursor.peek source = '.' ∧ (cursor.peekAt source 1).isDigit then do
    let (_, behind) ← cursor.advance source
    behind.advanceOver source Char.isDigit
  else .ok cursor

def readNumber (cursor : Cursor) : Except Access Cursor := do
  let whole ← cursor.advanceOver source Char.isDigit
  let behind ← whole.readFraction source
  let text ← behind.lexeme source
  behind.add source .number (some (.number (readDouble text)))

def readWord (cursor : Cursor) : Except Access Cursor := do
  let behind ← cursor.advanceOver source Char.isAlphanum
  let text ← behind.lexeme source
  behind.add source (Kind.ofWord text) none

def readBehind (c : Char) (cursor : Cursor) : Except Access Cursor :=
  if c.isWhitespace then .ok cursor
  else
    match Operator.ofChar? c with
    | some .slash =>
        match cursor.accept? source '/' with
        | some next => next.advanceUntil source '\n'
        | none => cursor.add source (.operator .slash) none
    | some op =>
        match op.withEqual? with
        | some long => cursor.addEither source '=' long op
        | none => cursor.add source (.operator op) none
    | none =>
        if c = '"' then cursor.readString source
        else if c.isDigit then cursor.readNumber source
        else if c.isAlpha then cursor.readWord source
        else do
          let behind ← cursor.advanceOver source Text.isContinuation
          behind.report source .unexpectedCharacter

/-- One round of a scan: the segment that starts at the next byte. -/
def round (cursor : Cursor) : Except Access Cursor := do
  let (c, next) ← cursor.restart.advance source
  next.readBehind source c

/-! ## The cursor moves forward -/

def Forward (step : Cursor → Except Access Cursor) : Prop :=
  ∀ ⦃cursor next⦄, step cursor = .ok next → cursor.current ≤ next.current

variable {source}

theorem Forward.advanceWhile (test : Cursor → Bool) : Forward (advanceWhile source test) := by
  intro cursor next
  fun_induction Cursor.advanceWhile source test cursor with
  | case1 cursor _ c later h _ ih =>
      obtain ⟨-, rfl⟩ := advance_eq_ok h
      intro hnext
      exact (Nat.le_succ _).trans (ih hnext)
  | case2 => intro h; contradiction
  | case3 cursor =>
      intro h
      cases h
      exact Nat.le_refl _

theorem Forward.add (kind : Kind) (literal : Option Literal) :
    Forward (add source kind literal) := by
  intro cursor next h
  obtain ⟨text, -, hnext⟩ := bind_eq_ok.mp h
  cases hnext
  exact Nat.le_refl _

theorem Forward.report (fault : Fault) : Forward (report source fault) := by
  intro cursor next h
  obtain ⟨location, -, hnext⟩ := bind_eq_ok.mp h
  cases hnext
  exact Nat.le_refl _

theorem le_of_accept? {cursor next : Cursor} {expected : Char}
    (h : cursor.accept? source expected = some next) : cursor.current ≤ next.current := by
  unfold accept? at h
  split at h
  · contradiction
  · cases h
    exact Nat.le_succ _

theorem Forward.addEither (expected : Char) (long short : Operator) :
    Forward (addEither source expected long short) := by
  intro cursor next h
  unfold Cursor.addEither at h
  split at h
  · next behind hbehind => exact (le_of_accept? hbehind).trans (Forward.add _ _ h)
  · exact Forward.add _ _ h

theorem Forward.readString : Forward (readString source) := by
  intro cursor next h
  obtain ⟨behind, hbehind, h⟩ := bind_eq_ok.mp h
  refine (Forward.advanceWhile _ hbehind).trans ?_
  split at h
  · exact Forward.report _ h
  · obtain ⟨contents, -, h⟩ := bind_eq_ok.mp h
    obtain ⟨⟨c, closed⟩, hclosed, h⟩ := bind_eq_ok.mp h
    obtain ⟨-, rfl⟩ := advance_eq_ok hclosed
    exact (Nat.le_succ _).trans (Forward.add _ _ h)

theorem Forward.readFraction : Forward (readFraction source) := by
  intro cursor next h
  unfold Cursor.readFraction at h
  split at h
  · obtain ⟨⟨c, behind⟩, hbehind, h⟩ := bind_eq_ok.mp h
    obtain ⟨-, rfl⟩ := advance_eq_ok hbehind
    exact (Nat.le_succ _).trans (Forward.advanceWhile _ h)
  · cases h
    exact Nat.le_refl _

theorem Forward.readNumber : Forward (readNumber source) := by
  intro cursor next h
  obtain ⟨whole, hwhole, h⟩ := bind_eq_ok.mp h
  obtain ⟨behind, hbehind, h⟩ := bind_eq_ok.mp h
  obtain ⟨text, -, h⟩ := bind_eq_ok.mp h
  calc cursor.current ≤ whole.current := Forward.advanceWhile _ hwhole
    _ ≤ behind.current := Forward.readFraction hbehind
    _ ≤ next.current := Forward.add _ _ h

theorem Forward.readWord : Forward (readWord source) := by
  intro cursor next h
  obtain ⟨behind, hbehind, h⟩ := bind_eq_ok.mp h
  obtain ⟨text, -, h⟩ := bind_eq_ok.mp h
  exact (Forward.advanceWhile _ hbehind).trans (Forward.add _ _ h)

theorem Forward.readBehind (c : Char) : Forward (readBehind source c) := by
  intro cursor next h
  unfold Cursor.readBehind at h
  split at h
  · cases h
    exact Nat.le_refl _
  split at h
  · split at h
    · next behind hbehind => exact (le_of_accept? hbehind).trans (Forward.advanceWhile _ h)
    · exact Forward.add _ _ h
  · split at h
    · exact Forward.addEither _ _ _ h
    · exact Forward.add _ _ h
  · split at h
    · exact Forward.readString h
    split at h
    · exact Forward.readNumber h
    split at h
    · exact Forward.readWord h
    · obtain ⟨behind, hbehind, h⟩ := bind_eq_ok.mp h
      exact (Forward.advanceWhile _ hbehind).trans (Forward.report _ h)

theorem round_lt {cursor next : Cursor} (h : cursor.round source = .ok next) :
    cursor.current < source.utf8ByteSize ∧ cursor.current < next.current := by
  obtain ⟨⟨c, behind⟩, hbehind, h⟩ := bind_eq_ok.mp h
  obtain ⟨inside, rfl⟩ := advance_eq_ok hbehind
  exact ⟨inside, Forward.readBehind c h⟩

variable (source)

def rounds (cursor : Cursor) : Except Access Cursor :=
  if cursor.atEnd source then .ok cursor
  else
    match h : cursor.round source with
    | .ok next =>
        have := round_lt h
        rounds next
    | .error access => .error access
termination_by source.utf8ByteSize - cursor.current
decreasing_by
  omega

/-- Scans a text from its first byte on and closes the list of its tokens. -/
def scan : Except Access Scan := do
  let last ← atFront.rounds source
  let closed ← last.restart.add source .endOfFile none
  return ⟨closed.tokens, closed.records⟩

/-- The state of the cursor before a round, and how many rounds there were before. -/
inductive Begins : Nat → Cursor → Prop
  | first : Begins 0 atFront
  | next {count : Nat} {cursor next : Cursor} :
      Begins count cursor → ¬ cursor.atEnd source → cursor.round source = .ok next →
        Begins (count + 1) next

end Cursor

end Lexis
