import Lexis.Proofs.Segmentation
import Mathlib.Data.List.Forall2

/-!
# The lexical grammar and longest match

The grammar is a handful of rules, each with a language of its own. Reading a text by the grammar
means to take, again and again, the longest text at the front that any rule accepts; where no rule
accepts one, an open string runs to the end and any other character stands alone. A scan finds
the tokens of exactly that reading.
-/

namespace Lexis

inductive Rule where
  | whitespace
  | comment
  | operator
  | string
  | number
  | word
  deriving Repr, DecidableEq

namespace Rule

/-- The language of each rule. -/
inductive Accepts : Rule → List Char → Prop
  | whitespace {c : Char} (blank : c = ' ' ∨ c = '\t' ∨ c = '\r' ∨ c = '\n') :
      Accepts .whitespace [c]
  | comment {body : List Char} (oneLine : '\n' ∉ body) : Accepts .comment ('/' :: '/' :: body)
  | operator (op : Operator) : Accepts .operator op.spelling
  | string {contents : List Char} (closed : '"' ∉ contents) :
      Accepts .string ('"' :: (contents ++ ['"']))
  | whole {digits : List Char} (filled : digits ≠ []) (all : ∀ d ∈ digits, d.isDigit) :
      Accepts .number digits
  | decimal {whole fraction : List Char} (filled : whole ≠ []) (all : ∀ d ∈ whole, d.isDigit)
      (filledBehind : fraction ≠ []) (allBehind : ∀ d ∈ fraction, d.isDigit) :
      Accepts .number (whole ++ '.' :: fraction)
  | word {c : Char} {letters : List Char} (alpha : c.isAlpha) (all : ∀ d ∈ letters, d.isAlphanum) :
      Accepts .word (c :: letters)

def makesToken : Rule → Bool
  | .whitespace => false
  | .comment => false
  | _ => true

end Rule

/-- A stretch of a text from byte `offset` on, with the rule that accepts it if there is one. -/
structure LexicalUnit where
  offset : Nat
  rule : Option Rule
  text : List Char

namespace LexicalUnit

/-- The rule and the text of the unit at the front of a text. -/
inductive Front (source : List Char) : Option Rule → List Char → Prop
  | longest {rule : Rule} {text : List Char} (accepted : rule.Accepts text)
      (front : text <+: source)
      (longest : ∀ (other : Rule) (longer : List Char), other.Accepts longer → longer <+: source →
        longer.length ≤ text.length) : Front source (some rule) text
  | openString (unmatched : ∀ (other : Rule) (text : List Char), other.Accepts text →
        ¬ text <+: source) (quote : source.head? = some '"') : Front source none source
  | single {c : Char} (unmatched : ∀ (other : Rule) (text : List Char), other.Accepts text →
        ¬ text <+: source) (noQuote : c ≠ '"') (front : source.head? = some c) :
      Front source none [c]

/-- The units of a text that starts at byte `offset`, each from the end of the one before. -/
inductive Reading : Nat → List Char → List LexicalUnit → Prop
  | done (offset : Nat) : Reading offset [] []
  | next {offset : Nat} {source text rest : List Char} {rule : Option Rule}
      {units : List LexicalUnit} (front : Front source rule text) (split : text ++ rest = source)
      (later : Reading (offset + Text.byteLength text) rest units) :
      Reading offset source (⟨offset, rule, text⟩ :: units)

/-- The kind and the value that the text of a unit has by its spelling. -/
inductive Reads : Rule → List Char → Kind → Option Literal → Prop
  | operator (op : Operator) : Reads .operator op.spelling (.operator op) none
  | string (contents : List Char) : Reads .string ('"' :: (contents ++ ['"'])) .string
      (some (.string (String.ofList contents)))
  | number {numeral : Numeral} (form : numeral.WellFormed) : Reads .number numeral.text .number
      (some (.number (Binary64.ofRatio numeral.digitsValue numeral.scale)))
  | keyword (word : Keyword) : Reads .word word.spelling.toList (.keyword word) none
  | identifier {letters : List Char} (free : ∀ word : Keyword, word.spelling.toList ≠ letters) :
      Reads .word letters .identifier none

/-- The token of a unit: its text and offset, and what it reads as. -/
structure Makes (unit : LexicalUnit) (token : Token) : Prop where
  lexeme : token.lexeme = String.ofList unit.text
  offset : token.offset = unit.offset
  reads : ∃ rule, unit.rule = some rule ∧ Reads rule unit.text token.kind token.literal

def isToken (unit : LexicalUnit) : Bool := unit.rule.any Rule.makesToken

def isFaulty (unit : LexicalUnit) : Bool := unit.rule.isNone

def fault (unit : LexicalUnit) : Fault :=
  if unit.text.head? = some '"' then .unterminatedString else .unexpectedCharacter

end LexicalUnit

/-! ## Rules and segments -/

namespace Segment

def rule? : Segment → Option Rule
  | .blank _ => some .whitespace
  | .comment _ => some .comment
  | .operator _ => some .operator
  | .string _ => some .string
  | .number _ => some .number
  | .word _ => some .word
  | .stray _ => none
  | .openString _ => none

theorem accepts_of_wellFormed {segment : Segment} {rule : Rule} (form : segment.WellFormed)
    (h : segment.rule? = some rule) : rule.Accepts segment.text := by
  cases segment with
  | blank c =>
      cases h
      have blank : c.isWhitespace := form
      simp only [Char.isWhitespace, Bool.or_eq_true, decide_eq_true_eq] at blank
      exact .whitespace (by simpa only [or_assoc] using blank)
  | comment body =>
      cases h
      exact .comment form
  | operator op =>
      cases h
      exact .operator op
  | string contents =>
      cases h
      exact .string form
  | number numeral =>
      cases h
      by_cases whole : numeral.fraction = []
      · rw [text, Numeral.text_of_fraction_eq_nil whole]
        exact .whole form.whole_ne_nil form.whole_digits
      · rw [text, Numeral.text_of_fraction_ne_nil whole]
        exact .decimal form.whole_ne_nil form.whole_digits whole form.fraction_digits
  | word letters =>
      cases h
      obtain ⟨c, rest, rfl, alpha, all⟩ := form
      exact .word alpha all
  | stray c => simp [rule?] at h
  | openString contents => simp [rule?] at h

theorem exists_wellFormed_of_accepts {rule : Rule} {word : List Char} (h : rule.Accepts word) :
    ∃ segment : Segment, segment.WellFormed ∧ segment.rule? = some rule ∧ segment.text = word := by
  cases h with
  | @whitespace c blank =>
      have form : c.isWhitespace := by
        rcases blank with rfl | rfl | rfl | rfl <;> decide
      exact ⟨.blank c, form, rfl, rfl⟩
  | @comment body oneLine => exact ⟨.comment body, oneLine, rfl, rfl⟩
  | operator op => exact ⟨.operator op, trivial, rfl, rfl⟩
  | @string contents closed => exact ⟨.string contents, closed, rfl, rfl⟩
  | whole filled all =>
      have form : Numeral.WellFormed ⟨word, []⟩ := ⟨filled, all, by simp⟩
      exact ⟨.number ⟨word, []⟩, form, rfl, rfl⟩
  | @decimal whole fraction filled all filledBehind allBehind =>
      have form : Numeral.WellFormed ⟨whole, fraction⟩ := ⟨filled, all, allBehind⟩
      exact ⟨.number ⟨whole, fraction⟩, form, rfl, Numeral.text_of_fraction_ne_nil filledBehind⟩
  | @word c letters alpha all =>
      have form : (Segment.word (c :: letters)).WellFormed := ⟨c, letters, rfl, alpha, all⟩
      exact ⟨.word (c :: letters), form, rfl, rfl⟩

theorem endsBefore_nil (segment : Segment) : segment.EndsBefore [] := by
  cases segment <;> simp [EndsBefore, Numeral.fractionAt]

end Segment

theorem Rule.ne_nil_of_accepts {rule : Rule} {text : List Char} (h : rule.Accepts text) :
    text ≠ [] := by
  obtain ⟨segment, form, -, rfl⟩ := Segment.exists_wellFormed_of_accepts h
  exact Segment.text_ne_nil_of_wellFormed form

theorem Rule.eq_of_accepts {a b : Rule} {text : List Char} (ha : a.Accepts text)
    (hb : b.Accepts text) : a = b := by
  obtain ⟨segmentA, formA, hruleA, htextA⟩ := Segment.exists_wellFormed_of_accepts ha
  obtain ⟨segmentB, formB, hruleB, htextB⟩ := Segment.exists_wellFormed_of_accepts hb
  obtain ⟨c, later, rfl⟩ := List.exists_cons_of_ne_nil (Rule.ne_nil_of_accepts ha)
  have frontA := Segment.first_of_endsBefore formA segmentA.endsBefore_nil
    (by rw [htextA, List.append_nil])
  have frontB := Segment.first_of_endsBefore formB segmentB.endsBefore_nil
    (by rw [htextB, List.append_nil])
  rw [← frontA] at hruleA
  rw [← frontB] at hruleB
  exact Option.some.inj (hruleA.symm.trans hruleB)

/-! ## The segment at the front is the longest match -/

namespace Segment

theorem length_le_takeWhile {p : Char → Bool} {front : List Char} (rest : List Char)
    (all : ∀ c ∈ front, p c) :
    front.length ≤ ((front ++ rest).takeWhile p).length := by
  rw [List.takeWhile_append_of_pos all, List.length_append]
  omega

theorem length_le_atFront_text {source front : List Char}
    (h : front.length ≤ (source.takeWhile Char.isDigit).length) :
    front.length ≤ (Numeral.atFront source).text.length := by
  by_cases whole : (Numeral.atFront source).fraction = []
  · rw [Numeral.text_of_fraction_eq_nil whole]
    exact h
  · rw [Numeral.text_of_fraction_ne_nil whole, List.length_append]
    exact Nat.le_add_right_of_le h

/-- Whatever a rule accepts at the front of a text, the segment there is accepted too and is at
least as long. -/
theorem length_le_first_text {rule : Rule} {word later : List Char} {c : Char}
    (h : rule.Accepts word) (front : word <+: c :: later) :
    (first c later).rule?.isSome ∧ word.length ≤ (first c later).text.length := by
  have filled : 1 ≤ (first c later).text.length :=
    List.length_pos_iff.mpr (first_text_ne_nil c later)
  obtain ⟨rest, split⟩ := front
  cases h with
  | @whitespace d blank =>
      obtain ⟨rfl, rfl⟩ := List.cons.inj split
      have form : d.isWhitespace := by
        rcases blank with rfl | rfl | rfl | rfl <;> decide
      rw [first_of_isWhitespace _ form] at filled ⊢
      exact ⟨rfl, filled⟩
  | @comment body oneLine =>
      obtain ⟨rfl, rfl⟩ := List.cons.inj split
      have all : ∀ d ∈ body, d != '\n' := forall_bne_of_not_mem oneLine
      have longer := length_le_takeWhile rest all
      simp only [List.append_eq, List.cons_append, first_slash_slash]
      refine ⟨rfl, ?_⟩
      simp only [text, List.length_cons]
      omega
  | operator op =>
      rcases op.spelling_cases with ⟨d, spelled, hchar⟩ | ⟨d, base, spelled, hchar, hlong⟩
      · rw [spelled] at split
        obtain ⟨rfl, rfl⟩ := List.cons.inj split
        refine ⟨?_, by simpa [spelled] using filled⟩
        by_cases slash : op = .slash → (List.append [] rest).head? ≠ some '/'
        · rw [first_of_ofChar? hchar slash]
          rfl
        · simp only [Classical.not_imp, not_not] at slash
          obtain ⟨rfl, hhead⟩ := slash
          obtain ⟨more, hmore⟩ := List.head?_eq_some_iff.mp hhead
          rw [Operator.eq_slash_of_ofChar? hchar, hmore, first_slash_slash]
          rfl
      · rw [spelled] at split
        obtain ⟨rfl, rfl⟩ := List.cons.inj split
        rw [first_of_ofChar? hchar (by simp)]
        refine ⟨rfl, ?_⟩
        simp [operatorAt, hlong, text]
  | @string contents closed =>
      have ends : (Segment.string contents).EndsBefore rest := trivial
      have hfirst : first c later = .string contents := first_of_endsBefore closed ends split
      rw [hfirst]
      exact ⟨rfl, Nat.le_refl _⟩
  | whole nonempty all =>
      obtain ⟨d, digits, rfl⟩ := List.exists_cons_of_ne_nil nonempty
      obtain ⟨rfl, rfl⟩ := List.cons.inj split
      rw [first_of_isDigit _ (all d (by simp))]
      refine ⟨rfl, length_le_atFront_text ?_⟩
      exact length_le_takeWhile rest all
  | @decimal whole fraction nonempty all filledBehind allBehind =>
      have longer := length_le_takeWhile rest allBehind
      have source : c :: later = whole ++ '.' :: (fraction ++ rest) := by
        rw [← split, List.append_assoc, List.cons_append]
      have digit : c.isDigit := by
        obtain ⟨d, digits, rfl⟩ := List.exists_cons_of_ne_nil nonempty
        obtain ⟨rfl, -⟩ := List.cons.inj source
        exact all c (by simp)
      have behind : (fraction ++ rest).takeWhile Char.isDigit ≠ [] := by
        have := List.length_pos_iff.mpr filledBehind
        exact List.length_pos_iff.mp (by omega)
      rw [first_of_isDigit later digit, source, Numeral.atFront_point _ all]
      refine ⟨rfl, ?_⟩
      rw [text, Numeral.text_of_fraction_ne_nil behind]
      simp only [List.length_append, List.length_cons]
      omega
  | @word d letters alpha all =>
      obtain ⟨rfl, rfl⟩ := List.cons.inj split
      rw [first_of_isAlpha _ alpha]
      have longer := length_le_takeWhile rest all
      refine ⟨rfl, ?_⟩
      simpa [text] using longer

end Segment

namespace LexicalUnit

open Segment

/-! ## The reading of a text -/

theorem front_of_endsBefore {segment : Segment} {rest : List Char} (form : segment.WellFormed)
    (ends : segment.EndsBefore rest) : Front (segment.text ++ rest) segment.rule? segment.text := by
  obtain ⟨c, later, split⟩ := List.exists_cons_of_ne_nil
    (List.append_ne_nil_of_left_ne_nil (text_ne_nil_of_wellFormed form) rest)
  have hfirst : first c later = segment := first_of_endsBefore form ends split
  have longest : ∀ (other : Rule) (longer : List Char), other.Accepts longer →
      longer <+: segment.text ++ rest →
        segment.rule?.isSome ∧ longer.length ≤ segment.text.length := by
    intro other longer accepted front
    rw [split] at front
    rw [← hfirst]
    exact length_le_first_text accepted front
  cases hrule : segment.rule? with
  | some rule =>
      refine .longest (accepts_of_wellFormed form hrule) (List.prefix_append _ _) ?_
      intro other longer accepted front
      exact (longest other longer accepted front).2
  | none =>
      have unmatched : ∀ (other : Rule) (text : List Char), other.Accepts text →
          ¬ text <+: segment.text ++ rest := by
        intro other text accepted front
        have matched := (longest other text accepted front).1
        rw [hrule] at matched
        exact absurd matched (by decide)
      cases segment with
      | stray d => exact .single unmatched form.not_quote rfl
      | openString contents =>
          obtain rfl : rest = [] := ends
          rw [List.append_nil] at unmatched ⊢
          exact .openString unmatched rfl
      | _ => simp [rule?] at hrule

theorem Front.unique {source textA textB : List Char} {ruleA ruleB : Option Rule}
    (a : Front source ruleA textA) (b : Front source ruleB textB) :
    ruleA = ruleB ∧ textA = textB := by
  cases a with
  | longest acceptedA frontA longestA =>
      cases b with
      | longest acceptedB frontB longestB =>
          have length := Nat.le_antisymm (longestB _ _ acceptedA frontA)
            (longestA _ _ acceptedB frontB)
          obtain rfl := List.IsPrefix.eq_of_length
            (List.prefix_of_prefix_length_le frontA frontB (Nat.le_of_eq length)) length
          exact ⟨congrArg some (Rule.eq_of_accepts acceptedA acceptedB), rfl⟩
      | openString unmatched => exact absurd frontA (unmatched _ _ acceptedA)
      | single unmatched => exact absurd frontA (unmatched _ _ acceptedA)
  | openString unmatched quote =>
      cases b with
      | longest accepted front => exact absurd front (unmatched _ _ accepted)
      | openString => exact ⟨rfl, rfl⟩
      | single _ noQuote front => exact absurd (Option.some.inj (front.symm.trans quote)) noQuote
  | single unmatched noQuote front =>
      cases b with
      | longest accepted front => exact absurd front (unmatched _ _ accepted)
      | openString _ quote => exact absurd (Option.some.inj (front.symm.trans quote)) noQuote
      | single _ _ other =>
          obtain rfl := Option.some.inj (front.symm.trans other)
          exact ⟨rfl, rfl⟩

theorem Front.source_ne_nil {source text : List Char} {rule : Option Rule}
    (h : Front source rule text) : source ≠ [] := by
  rintro rfl
  cases h with
  | longest accepted front =>
      exact Rule.ne_nil_of_accepts accepted (List.prefix_nil.mp front)
  | openString _ quote => simp at quote
  | single _ _ front => simp at front

theorem Reading.unique {offset : Nat} {source : List Char} {a b : List LexicalUnit}
    (ha : Reading offset source a) (hb : Reading offset source b) : a = b := by
  induction ha generalizing b with
  | done offset =>
      cases hb with
      | done => rfl
      | next front split => exact absurd rfl front.source_ne_nil
  | next frontA splitA laterA ih =>
      cases hb with
      | done => exact absurd rfl frontA.source_ne_nil
      | next frontB splitB laterB =>
          obtain ⟨rfl, rfl⟩ := frontA.unique frontB
          obtain rfl := List.append_cancel_left (splitB.trans splitA.symm)
          rw [ih laterB]

def ofPlaced (placed : Placed) : LexicalUnit :=
  ⟨placed.offset, placed.segment.rule?, placed.segment.text⟩

theorem reading_of_isCut {segments : List Segment} (offset : Nat) (cut : IsCut segments) :
    Reading offset (textOf segments) ((Placed.line offset segments).map ofPlaced) := by
  induction segments generalizing offset with
  | nil => exact .done offset
  | cons segment later ih =>
      obtain ⟨form, ends, cut⟩ := cut
      exact .next (front_of_endsBefore form ends) rfl (ih _ cut)

theorem reading_cut (offset : Nat) (source : List Char) :
    Reading offset source ((Placed.cut offset source).map ofPlaced) := by
  have reading := reading_of_isCut offset (isCut_cutOf source)
  rwa [textOf_cutOf, ← Segment.cut_eq_line] at reading

/-! ## The tokens and the faults of a reading -/

theorem reads_word (letters : List Char) :
    Reads .word letters (Kind.ofWord (String.ofList letters)) none := by
  unfold Kind.ofWord
  split
  · rename_i word hword
    have spelled := Keyword.spelling_of_ofSpelling? hword
    obtain rfl : word.spelling.toList = letters := by rw [spelled, String.toList_ofList]
    exact .keyword word
  · rename_i unknown
    refine .identifier fun word hword => ?_
    rw [← hword, String.ofList_toList, Keyword.ofSpelling?_spelling] at unknown
    contradiction

theorem makes_of_token? {placed : Placed} {token : Token} (form : placed.segment.WellFormed)
    (h : placed.token? = some token) : Makes (ofPlaced placed) token := by
  obtain ⟨hlexeme, hoffset⟩ := token?_text h
  refine ⟨hlexeme, hoffset, ?_⟩
  obtain ⟨offset, segment⟩ := placed
  cases segment with
  | operator op =>
      cases h
      exact ⟨.operator, rfl, .operator op⟩
  | string contents =>
      cases h
      exact ⟨.string, rfl, .string contents⟩
  | number numeral =>
      cases h
      exact ⟨.number, rfl, .number form⟩
  | word letters =>
      cases h
      exact ⟨.word, rfl, reads_word letters⟩
  | _ => cases h

theorem isToken_ofPlaced (placed : Placed) :
    (ofPlaced placed).isToken = placed.token?.isSome := by
  obtain ⟨offset, segment⟩ := placed
  cases segment <;> rfl

theorem forall₂_makes {list : List Placed} (form : ∀ placed ∈ list, placed.segment.WellFormed) :
    List.Forall₂ Makes ((list.map ofPlaced).filter isToken)
      (list.filterMap Placed.token?) := by
  induction list with
  | nil => exact .nil
  | cons placed later ih =>
      have ih := ih fun other member => form other (List.mem_cons_of_mem placed member)
      have isToken := isToken_ofPlaced placed
      cases htoken : placed.token? with
      | none =>
          rw [htoken] at isToken
          rw [List.map_cons, List.filter_cons_of_neg (by simp [isToken]),
            List.filterMap_cons_none htoken]
          exact ih
      | some token =>
          rw [htoken] at isToken
          rw [List.map_cons, List.filter_cons_of_pos (by simp [isToken]),
            List.filterMap_cons_some htoken]
          exact .cons (makes_of_token? (form placed (by simp)) htoken) ih

theorem fault?_eq (placed : Placed) (form : placed.segment.WellFormed) :
    placed.fault? = if (ofPlaced placed).isFaulty then
      some (placed.offset, (ofPlaced placed).fault) else none := by
  obtain ⟨offset, segment⟩ := placed
  cases segment with
  | stray c =>
      have noQuote : c ≠ '"' := IsStray.not_quote form
      simp [Placed.fault?, fault?, ofPlaced, rule?, isFaulty, fault, Segment.text, noQuote]
  | openString contents =>
      simp [Placed.fault?, fault?, ofPlaced, rule?, isFaulty, fault, Segment.text]
  | _ => rfl

theorem filterMap_fault? {list : List Placed}
    (form : ∀ placed ∈ list, placed.segment.WellFormed) :
    list.filterMap Placed.fault? =
      ((list.map ofPlaced).filter isFaulty).map fun unit => (unit.offset, unit.fault) := by
  induction list with
  | nil => rfl
  | cons placed later ih =>
      have ih := ih fun other member => form other (List.mem_cons_of_mem placed member)
      have hfault := fault?_eq placed (form placed (by simp))
      by_cases bad : (ofPlaced placed).isFaulty
      · rw [if_pos bad] at hfault
        rw [List.filterMap_cons_some hfault, List.map_cons, List.filter_cons_of_pos bad, ih]
        rfl
      · rw [if_neg bad] at hfault
        rw [List.filterMap_cons_none hfault, List.map_cons, List.filter_cons_of_neg bad, ih]

theorem Reading.flatMap_text {offset : Nat} {source : List Char} {units : List LexicalUnit}
    (h : Reading offset source units) : units.flatMap (·.text) = source := by
  induction h with
  | done => rfl
  | next front split later ih => rw [List.flatMap_cons, ih, split]

theorem Reading.offset_eq {offset : Nat} {source : List Char} {before after : List LexicalUnit}
    {unit : LexicalUnit} (h : Reading offset source (before ++ unit :: after)) :
    unit.offset = offset + Text.byteLength (before.flatMap (·.text)) := by
  induction before generalizing offset source with
  | nil =>
      cases h
      simp
  | cons first before ih =>
      cases h with
      | next front split later =>
          rw [ih later]
          simp [Nat.add_assoc]

end LexicalUnit

open LexicalUnit in
/-- Every text has one reading by longest match, its units tile the text, and a scan returns one
token for each of them that an operator, string, number or word rule accepts, and one record for
each that no rule accepts, in their order. -/
theorem scan_eq_longestMatch (log : ErrorLog) (source : String) :
    ∃ units : List LexicalUnit,
      Reading 0 source.toList units ∧
      (∀ others, Reading 0 source.toList others → others = units) ∧
      units.flatMap (·.text) = source.toList ∧
      (∀ before unit after, units = before ++ unit :: after →
        unit.offset = Text.byteLength (before.flatMap (·.text))) ∧
      (∃ tokens, (log.scanText source).2 = tokens ++ [Token.endOfFile source.utf8ByteSize] ∧
        List.Forall₂ Makes (units.filter isToken) tokens) ∧
      (log.scanText source).1.records = log.records ++ (units.filter isFaulty).map
        fun unit => Diagnostic.ofFault source.toList unit.offset unit.fault := by
  have reading := reading_cut 0 source.toList
  have form : ∀ placed ∈ Placed.cut 0 source.toList, placed.segment.WellFormed := by
    intro placed member
    exact (Segment.isCut_cutOf source.toList).wellFormed _ (List.mem_map_of_mem member)
  refine ⟨_, reading, fun others h => h.unique reading, reading.flatMap_text, ?_, ?_, ?_⟩
  · intro before unit after split
    rw [split] at reading
    simpa using reading.offset_eq
  · exact ⟨_, Scan.ofText_tokens source, forall₂_makes form⟩
  · have found := filterMap_fault? form
    simp [ErrorLog.scanText, Scan.ofText, Scan.faults, found, Function.comp_def]

end Lexis
