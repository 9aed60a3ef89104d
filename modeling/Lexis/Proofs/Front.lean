import Lexis.Placed

/-!
# The segment at the front of a text

A segment has a shape of its own and a condition on the text behind it. The two together say when
it is the one at the front of a text. Statements about segments are drawn from this, never from
the order in which the rules are tried.
-/

namespace Lexis

/-! ## Runs of characters -/

theorem takeWhile_append_of_stop {α : Type} {p : α → Bool} {front rest : List α}
    (all : ∀ c ∈ front, p c) (stop : ∀ c ∈ rest.head?, ¬ p c) :
    (front ++ rest).takeWhile p = front := by
  rw [List.takeWhile_append_of_pos all]
  cases rest with
  | nil => simp
  | cons c rest =>
      have : ¬ p c := stop c rfl
      simp [this]

theorem dropWhile_append_of_stop {p : Char → Bool} {front rest : List Char}
    (all : ∀ c ∈ front, p c) (stop : ∀ c ∈ rest.head?, ¬ p c) :
    (front ++ rest).dropWhile p = rest := by
  rw [List.dropWhile_append_of_pos all]
  cases rest with
  | nil => rfl
  | cons c rest =>
      have : ¬ p c := stop c rfl
      simp [this]

theorem forall_takeWhile (p : Char → Bool) (text : List Char) :
    ∀ c ∈ text.takeWhile p, p c := by
  intro c hc
  exact List.all_eq_true.mp List.all_takeWhile c hc

theorem forall_bne_of_not_mem {α : Type} [BEq α] [LawfulBEq α] {d : α} {text : List α}
    (h : d ∉ text) :
    ∀ c ∈ text, c != d := by
  intro c hc
  have hne : c ≠ d := by
    intro hsame
    rw [hsame] at hc
    exact h hc
  simpa using hne

theorem not_mem_takeWhile_bne (d : Char) (text : List Char) :
    d ∉ text.takeWhile (· != d) := by
  intro hd
  simpa using forall_takeWhile (· != d) text d hd

theorem stop_of_takeWhile_append {p : Char → Bool} {text rest : List Char}
    (h : text.takeWhile p ++ rest = text) : ∀ c ∈ rest.head?, ¬ p c := by
  intro c hc
  have split : text.takeWhile p ++ rest = text.takeWhile p ++ text.dropWhile p := by
    rw [h, List.takeWhile_append_dropWhile]
  have hrest : rest = text.dropWhile p := List.append_cancel_left split
  have hnot := List.head?_dropWhile_not p text
  rw [← hrest, Option.mem_def.mp hc] at hnot
  simpa using hnot

/-! ## Classes of characters -/

theorem not_isWhitespace_of_isAlphanum {c : Char} (h : c.isAlphanum) : ¬ c.isWhitespace := by
  intro hc
  simp only [Char.isWhitespace, Bool.or_eq_true, decide_eq_true_eq] at hc
  rcases hc with ((rfl | rfl) | rfl) | rfl <;> exact absurd h (by decide)

theorem isAlphanum_of_isDigit {c : Char} (h : c.isDigit) : c.isAlphanum := by
  simp [Char.isAlphanum, h]

theorem isAlphanum_of_isAlpha {c : Char} (h : c.isAlpha) : c.isAlphanum := by
  simp [Char.isAlphanum, h]

theorem ne_of_isAlphanum {c d : Char} (h : c.isAlphanum) (hd : ¬ d.isAlphanum) : c ≠ d := by
  intro hsame
  rw [hsame] at h
  exact hd h

theorem not_isDigit_of_isAlpha {c : Char} (h : c.isAlpha) : ¬ c.isDigit := by
  intro hc
  have hnine : c.val ≤ '9'.val := of_decide_eq_true (Bool.and_eq_true_iff.mp hc).2
  have hletter : 'A'.val ≤ c.val ∨ 'a'.val ≤ c.val := by
    rcases Bool.or_eq_true_iff.mp h with upper | lower
    · exact .inl (of_decide_eq_true upper).1
    · exact .inr (of_decide_eq_true (Bool.and_eq_true_iff.mp lower).1)
  rcases hletter with hletter | hletter
  · exact absurd (UInt32.le_trans hletter hnine) (by decide)
  · exact absurd (UInt32.le_trans hletter hnine) (by decide)

theorem Operator.ofChar?_of_isAlphanum {c : Char} (h : c.isAlphanum) : ofChar? c = none := by
  unfold ofChar?
  split <;> first | rfl | exact absurd h (by decide)

theorem Operator.ofChar?_of_isWhitespace {c : Char} (h : c.isWhitespace) : ofChar? c = none := by
  unfold ofChar?
  split <;> first | rfl | exact absurd h (by decide)

theorem Operator.eq_slash_of_ofChar? {c : Char} (h : ofChar? c = some .slash) : c = '/' := by
  have spelled : ['/'] = [c] := spelling_of_ofChar? h
  simpa using spelled.symm

/-- An operator is spelled by one character, or by that of a shorter one and an equals sign. -/
theorem Operator.spelling_cases (op : Operator) :
    (∃ c, op.spelling = [c] ∧ ofChar? c = some op) ∨
      ∃ c base, op.spelling = [c, '='] ∧ ofChar? c = some base ∧ base.withEqual? = some op := by
  cases op with
  | bangEqual => exact .inr ⟨_, .bang, rfl, rfl, rfl⟩
  | equalEqual => exact .inr ⟨_, .equal, rfl, rfl, rfl⟩
  | greaterEqual => exact .inr ⟨_, .greater, rfl, rfl, rfl⟩
  | lessEqual => exact .inr ⟨_, .less, rfl, rfl, rfl⟩
  | _ => exact .inl ⟨_, rfl, rfl⟩

/-- No segment but a stray one starts with the character. -/
structure IsStray (c : Char) : Prop where
  not_blank : ¬ c.isWhitespace
  not_operator : Operator.ofChar? c = none
  not_quote : c ≠ '"'
  not_alphanum : ¬ c.isAlphanum

namespace Segment

/-! ## The segment at the front, by the first character -/

theorem first_of_isWhitespace {c : Char} (later : List Char) (h : c.isWhitespace) :
    first c later = .blank c := by
  simp [first, h]

theorem first_slash_slash (later : List Char) :
    first '/' ('/' :: later) = .comment (later.takeWhile (· != '\n')) := by
  simp [first, show '/'.isWhitespace = false by decide]

theorem first_of_ofChar? {c : Char} {op : Operator} {later : List Char}
    (h : Operator.ofChar? c = some op) (slash : op = .slash → later.head? ≠ some '/') :
    first c later = .operator (operatorAt op later) := by
  have blank : ¬ c.isWhitespace := by
    intro hc
    simp [Operator.ofChar?_of_isWhitespace hc] at h
  have comment : ¬ (c = '/' ∧ later.head? = some '/') := by
    intro hboth
    rw [hboth.1] at h
    exact slash (Option.some.inj h).symm hboth.2
  simp only [first, blank, comment, h, if_false, Bool.false_eq_true]

theorem first_quote_of_mem {later : List Char} (h : '"' ∈ later) :
    first '"' later = .string (later.takeWhile (· != '"')) := by
  simp [first, show '"'.isWhitespace = false by decide, Operator.ofChar?, h]

theorem first_quote_of_not_mem {later : List Char} (h : '"' ∉ later) :
    first '"' later = .openString later := by
  simp [first, show '"'.isWhitespace = false by decide, Operator.ofChar?, h]

theorem first_of_isDigit {c : Char} (later : List Char) (h : c.isDigit) :
    first c later = .number (Numeral.atFront (c :: later)) := by
  have alphanum := isAlphanum_of_isDigit h
  have blank := not_isWhitespace_of_isAlphanum alphanum
  have operator := Operator.ofChar?_of_isAlphanum alphanum
  have slash : c ≠ '/' := ne_of_isAlphanum alphanum (by decide)
  have quote : c ≠ '"' := ne_of_isAlphanum alphanum (by decide)
  simp [first, blank, operator, slash, quote, h]

theorem first_of_isAlpha {c : Char} (later : List Char) (h : c.isAlpha) :
    first c later = .word (c :: later.takeWhile Char.isAlphanum) := by
  have alphanum := isAlphanum_of_isAlpha h
  have blank := not_isWhitespace_of_isAlphanum alphanum
  have operator := Operator.ofChar?_of_isAlphanum alphanum
  have slash : c ≠ '/' := ne_of_isAlphanum alphanum (by decide)
  have quote : c ≠ '"' := ne_of_isAlphanum alphanum (by decide)
  simp [first, blank, operator, slash, quote, not_isDigit_of_isAlpha h, h]

theorem first_of_isStray {c : Char} (later : List Char) (h : IsStray c) :
    first c later = .stray c := by
  have slash : c ≠ '/' := by
    intro hc
    have operator := h.not_operator
    rw [hc] at operator
    contradiction
  have digit : ¬ c.isDigit := fun hc => h.not_alphanum (isAlphanum_of_isDigit hc)
  have alpha : ¬ c.isAlpha := fun hc => h.not_alphanum (isAlphanum_of_isAlpha hc)
  simp [first, h.not_blank, h.not_operator, h.not_quote, slash, digit, alpha]

theorem front_cases (c : Char) (later : List Char) :
    c.isWhitespace ∨ (∃ more, c = '/' ∧ later = '/' :: more) ∨
      (∃ op, Operator.ofChar? c = some op ∧ (op = .slash → later.head? ≠ some '/')) ∨
      (c = '"' ∧ '"' ∈ later) ∨ (c = '"' ∧ '"' ∉ later) ∨ c.isDigit ∨ c.isAlpha ∨ IsStray c := by
  by_cases blank : c.isWhitespace
  · simp [blank]
  cases operator : Operator.ofChar? c with
  | some op =>
      by_cases comment : op = .slash ∧ later.head? = some '/'
      · obtain ⟨rfl, hhead⟩ := comment
        obtain ⟨more, rfl⟩ := List.head?_eq_some_iff.mp hhead
        have slash : c = '/' := Operator.eq_slash_of_ofChar? operator
        simp [slash]
      · have slash : op = .slash → later.head? ≠ some '/' := fun hop hhead => comment ⟨hop, hhead⟩
        exact .inr (.inr (.inl ⟨op, rfl, slash⟩))
  | none =>
      by_cases quote : c = '"'
      · by_cases closed : '"' ∈ later <;> simp [quote, closed]
      by_cases alphanum : c.isAlphanum
      · simp only [Char.isAlphanum, Bool.or_eq_true] at alphanum
        rcases alphanum with alpha | digit
        · simp [alpha]
        · simp [digit]
      · have stray : IsStray c := ⟨blank, operator, quote, alphanum⟩
        simp [stray]

/-! ## Shape, and where a segment ends -/

/-- What a segment looks like, whatever stands around it. -/
def WellFormed : Segment → Prop
  | .blank c => c.isWhitespace
  | .comment body => '\n' ∉ body
  | .operator _ => True
  | .string contents => '"' ∉ contents
  | .number numeral => numeral.WellFormed
  | .word letters => ∃ c rest, letters = c :: rest ∧ c.isAlpha ∧ ∀ d ∈ rest, d.isAlphanum
  | .stray c => IsStray c
  | .openString contents => '"' ∉ contents

/-- The text behind a segment does not make it longer. -/
def EndsBefore : Segment → List Char → Prop
  | .comment _, rest => ∀ c ∈ rest.head?, c = '\n'
  | .operator op, rest =>
      (op = .slash → rest.head? ≠ some '/') ∧ (op.withEqual?.isSome → rest.head? ≠ some '=')
  | .number numeral, rest =>
      (∀ c ∈ rest.head?, ¬ c.isDigit) ∧ (numeral.fraction = [] → Numeral.fractionAt rest = [])
  | .word _, rest => ∀ c ∈ rest.head?, ¬ c.isAlphanum
  | .openString _, rest => rest = []
  | _, _ => True

end Segment

namespace Numeral

theorem text_of_fraction_eq_nil {numeral : Numeral} (h : numeral.fraction = []) :
    numeral.text = numeral.whole := by
  simp [text, h]

theorem text_of_fraction_ne_nil {numeral : Numeral} (h : numeral.fraction ≠ []) :
    numeral.text = numeral.whole ++ '.' :: numeral.fraction := by
  obtain ⟨d, ds, hfraction⟩ := List.exists_cons_of_ne_nil h
  simp [text, hfraction]

theorem fractionAt_eq_nil_of_head? {rest : List Char} (h : rest.head? ≠ some '.') :
    fractionAt rest = [] := by
  unfold fractionAt
  split
  · simp at h
  · rfl

theorem atFront_point {whole : List Char} (later : List Char) (all : ∀ d ∈ whole, d.isDigit) :
    atFront (whole ++ '.' :: later) = ⟨whole, later.takeWhile Char.isDigit⟩ := by
  have stop : ∀ d ∈ ('.' :: later).head?, ¬ d.isDigit := by
    intro d hd
    have hpoint : '.' = d := Option.some.inj hd
    subst hpoint
    decide
  rw [atFront, takeWhile_append_of_stop all stop, dropWhile_append_of_stop all stop, fractionAt]

theorem atFront_append {numeral : Numeral} {rest : List Char} (form : numeral.WellFormed)
    (stop : ∀ c ∈ rest.head?, ¬ c.isDigit)
    (point : numeral.fraction = [] → fractionAt rest = []) :
    atFront (numeral.text ++ rest) = numeral := by
  obtain ⟨whole, fraction⟩ := numeral
  by_cases h : fraction = []
  · subst h
    rw [text_of_fraction_eq_nil rfl, atFront, takeWhile_append_of_stop form.whole_digits stop,
      dropWhile_append_of_stop form.whole_digits stop, point rfl]
  · rw [text_of_fraction_ne_nil h, List.append_assoc, List.cons_append,
      atFront_point _ form.whole_digits, takeWhile_append_of_stop form.fraction_digits stop]

theorem stop_of_atFront_append {source rest : List Char}
    (h : (atFront source).text ++ rest = source) :
    (∀ c ∈ rest.head?, ¬ c.isDigit) ∧ ((atFront source).fraction = [] → fractionAt rest = []) := by
  have split := List.takeWhile_append_dropWhile (p := Char.isDigit) (l := source)
  by_cases hfraction : (atFront source).fraction = []
  · rw [text_of_fraction_eq_nil hfraction] at h
    have hrest : rest = source.dropWhile Char.isDigit :=
      List.append_cancel_left (h.trans split.symm)
    refine ⟨stop_of_takeWhile_append h, fun _ => ?_⟩
    rw [hrest]
    exact hfraction
  · rw [text_of_fraction_ne_nil hfraction] at h
    refine ⟨?_, fun hnil => absurd hnil hfraction⟩
    have htail : '.' :: ((atFront source).fraction ++ rest) = source.dropWhile Char.isDigit := by
      refine List.append_cancel_left (Eq.trans ?_ split.symm)
      simpa [atFront] using h
    have hrun : (atFront source).fraction = ((atFront source).fraction ++ rest).takeWhile
        Char.isDigit := by
      conv => lhs; rw [atFront, ← htail, fractionAt]
    have hsplit : ((atFront source).fraction ++ rest).takeWhile Char.isDigit ++ rest =
        (atFront source).fraction ++ rest := by
      rw [← hrun]
    exact stop_of_takeWhile_append hsplit

end Numeral

namespace Segment

/-! ## The segment at the front is well formed and ends before the rest -/

theorem operatorAt_of_not_longer {op : Operator} {later : List Char}
    (h : op.withEqual?.isSome → later.head? ≠ some '=') : operatorAt op later = op := by
  unfold operatorAt
  split
  · rename_i long rest hlong
    rw [hlong] at h
    exact absurd rfl (h rfl)
  · rfl

theorem operatorAt_endsBefore {c : Char} {op : Operator} {later rest : List Char}
    (h : Operator.ofChar? c = some op) (slash : op = .slash → later.head? ≠ some '/')
    (split : (operatorAt op later).spelling ++ rest = c :: later) :
    (Segment.operator (operatorAt op later)).EndsBefore rest := by
  have one := Operator.spelling_of_ofChar? h
  by_cases longer : op.withEqual?.isSome ∧ later.head? = some '='
  · obtain ⟨long, hlong⟩ := Option.isSome_iff_exists.mp longer.1
    obtain ⟨more, rfl⟩ := List.head?_eq_some_iff.mp longer.2
    simp only [operatorAt, hlong, EndsBefore]
    cases op <;> simp only [Operator.withEqual?, reduceCtorEq, Option.some.injEq] at hlong <;>
      (subst hlong; simp [Operator.withEqual?])
  · have short : op.withEqual?.isSome → later.head? ≠ some '=' := by
      intro hop hhead
      exact longer ⟨hop, hhead⟩
    rw [operatorAt_of_not_longer short, one] at split
    obtain rfl : rest = later := by simpa using split
    rw [operatorAt_of_not_longer short]
    exact ⟨slash, short⟩

theorem first_wellFormed (c : Char) (later : List Char) : (first c later).WellFormed := by
  rcases front_cases c later with blank | ⟨more, rfl, rfl⟩ | ⟨op, operator, slash⟩ |
    ⟨rfl, closed⟩ | ⟨rfl, unclosed⟩ | digit | alpha | stray
  · rw [first_of_isWhitespace later blank]
    exact blank
  · rw [first_slash_slash]
    exact not_mem_takeWhile_bne '\n' more
  · rw [first_of_ofChar? operator slash]
    trivial
  · rw [first_quote_of_mem closed]
    exact not_mem_takeWhile_bne '"' later
  · rw [first_quote_of_not_mem unclosed]
    exact unclosed
  · rw [first_of_isDigit later digit]
    exact Numeral.atFront_wellFormed later digit
  · rw [first_of_isAlpha later alpha]
    exact ⟨c, _, rfl, alpha, forall_takeWhile Char.isAlphanum later⟩
  · rw [first_of_isStray later stray]
    exact stray

theorem first_endsBefore {c : Char} {later rest : List Char}
    (split : (first c later).text ++ rest = c :: later) : (first c later).EndsBefore rest := by
  rcases front_cases c later with blank | ⟨more, rfl, rfl⟩ | ⟨op, operator, slash⟩ |
    ⟨rfl, closed⟩ | ⟨rfl, unclosed⟩ | digit | alpha | stray
  · rw [first_of_isWhitespace later blank]
    trivial
  · rw [first_slash_slash] at split ⊢
    intro d hd
    have stop := stop_of_takeWhile_append (by simpa [text] using split) d hd
    simpa using stop
  · rw [first_of_ofChar? operator slash] at split ⊢
    exact operatorAt_endsBefore operator slash split
  · rw [first_quote_of_mem closed]
    trivial
  · rw [first_quote_of_not_mem unclosed] at split ⊢
    have hrest : rest = [] := by simpa [text] using split
    exact hrest
  · rw [first_of_isDigit later digit] at split ⊢
    exact Numeral.stop_of_atFront_append split
  · rw [first_of_isAlpha later alpha] at split ⊢
    exact stop_of_takeWhile_append (by simpa [text] using split)
  · rw [first_of_isStray later stray]
    trivial

/-! ## A well-formed segment that ends before the rest is the one at the front -/

theorem first_operator_append {op : Operator} {rest later : List Char} {c : Char}
    (ends : (Segment.operator op).EndsBefore rest) (split : op.spelling ++ rest = c :: later) :
    first c later = .operator op := by
  obtain ⟨slash, short⟩ := ends
  rcases op.spelling_cases with ⟨d, hspelling, hchar⟩ | ⟨d, base, hspelling, hchar, hlong⟩
  · rw [hspelling] at split
    obtain ⟨rfl, rfl⟩ := List.cons.inj split
    rw [first_of_ofChar? hchar (by simpa using slash)]
    exact congrArg _ (operatorAt_of_not_longer short)
  · rw [hspelling] at split
    obtain ⟨rfl, rfl⟩ := List.cons.inj split
    rw [first_of_ofChar? hchar (by simp)]
    simp [operatorAt, hlong]

theorem first_of_endsBefore {segment : Segment} {c : Char} {later rest : List Char}
    (form : segment.WellFormed) (ends : segment.EndsBefore rest)
    (split : segment.text ++ rest = c :: later) : first c later = segment := by
  cases segment with
  | blank d =>
      simp only [text, List.cons_append, List.cons.injEq] at split
      obtain ⟨rfl, rfl⟩ := split
      exact first_of_isWhitespace _ form
  | comment body =>
      simp only [text, List.cons_append, List.cons.injEq] at split
      obtain ⟨rfl, rfl⟩ := split
      have all : ∀ d ∈ body, d != '\n' := forall_bne_of_not_mem form
      have stop : ∀ d ∈ rest.head?, ¬ (d != '\n') := by
        intro d hd
        simp [ends d hd]
      rw [first_slash_slash, takeWhile_append_of_stop all stop]
  | operator op => exact first_operator_append ends split
  | string contents =>
      simp only [text, List.cons_append, List.cons.injEq] at split
      obtain ⟨rfl, rfl⟩ := split
      have all : ∀ d ∈ contents, d != '"' := forall_bne_of_not_mem form
      rw [first_quote_of_mem (by simp), List.append_assoc, List.singleton_append,
        takeWhile_append_of_stop all (by simp)]
  | number numeral =>
      obtain ⟨d, digits, hwhole⟩ := List.exists_cons_of_ne_nil form.whole_ne_nil
      have digit : c.isDigit := by
        have hc : numeral.text.head? = some d := by
          by_cases h : numeral.fraction = []
          · simp [Numeral.text_of_fraction_eq_nil h, hwhole]
          · simp [Numeral.text_of_fraction_ne_nil h, hwhole]
        obtain ⟨more, htext⟩ := List.head?_eq_some_iff.mp hc
        rw [text, htext] at split
        obtain ⟨rfl, -⟩ := List.cons.inj split
        exact form.whole_digits d (by simp [hwhole])
      rw [first_of_isDigit later digit, ← split]
      exact congrArg _ (Numeral.atFront_append form ends.1 ends.2)
  | word letters =>
      obtain ⟨d, more, rfl, alpha, all⟩ := form
      simp only [text, List.cons_append, List.cons.injEq] at split
      obtain ⟨rfl, rfl⟩ := split
      rw [first_of_isAlpha _ alpha, takeWhile_append_of_stop all ends]
  | stray d =>
      simp only [text, List.cons_append, List.cons.injEq] at split
      obtain ⟨rfl, rfl⟩ := split
      exact first_of_isStray _ form
  | openString contents =>
      obtain rfl : rest = [] := ends
      simp only [text, List.append_nil, List.cons.injEq] at split
      obtain ⟨rfl, rfl⟩ := split
      exact first_quote_of_not_mem form

/-! ## A blank ends what stands before it -/

/-- A character of a class that no blank belongs to is not added by a blank. -/
theorem not_of_mem_head?_append {p : Char → Prop} {rest : List Char} {c : Char} (tail : List Char)
    (stop : ∀ d ∈ rest.head?, ¬ p d) (hc : ¬ p c) : ∀ d ∈ (rest ++ c :: tail).head?, ¬ p d := by
  cases rest with
  | nil =>
      intro d hd
      have hsame : c = d := Option.some.inj hd
      subst hsame
      exact hc
  | cons e rest => exact stop

theorem head?_append_ne {rest : List Char} {c d : Char} (tail : List Char)
    (stop : rest.head? ≠ some d) (hc : c ≠ d) : (rest ++ c :: tail).head? ≠ some d := by
  cases rest with
  | nil =>
      intro h
      exact hc (Option.some.inj h)
  | cons e rest => exact stop

theorem fractionAt_append_eq_nil {rest : List Char} {c : Char} (tail : List Char)
    (point : Numeral.fractionAt rest = []) (digit : ¬ c.isDigit) (dot : c ≠ '.') :
    Numeral.fractionAt (rest ++ c :: tail) = [] := by
  by_cases h : rest.head? = some '.'
  · obtain ⟨later, rfl⟩ := List.head?_eq_some_iff.mp h
    rw [Numeral.fractionAt] at point
    rw [List.cons_append, Numeral.fractionAt]
    cases later with
    | nil => simp [digit]
    | cons d later =>
        by_cases hd : d.isDigit
        · simp [hd] at point
        · simp [hd]
  · exact Numeral.fractionAt_eq_nil_of_head? (head?_append_ne tail h dot)

/-- Behind a text that ends a segment a blank may follow; behind a comment that runs to the end of
the text it has to be a line feed, and an open string has no end. -/
theorem EndsBefore.append_blank {segment : Segment} {rest : List Char} {c : Char}
    (tail : List Char) (ends : segment.EndsBefore rest) (blank : c.isWhitespace)
    (feed : ∀ body, segment = .comment body → c = '\n')
    (closed : ∀ contents, segment ≠ .openString contents) :
    segment.EndsBefore (rest ++ c :: tail) := by
  have alphanum : ¬ c.isAlphanum := fun h => not_isWhitespace_of_isAlphanum h blank
  have digit : ¬ c.isDigit := fun h => alphanum (isAlphanum_of_isDigit h)
  have noOperator := Operator.ofChar?_of_isWhitespace blank
  have hne {d : Char} {op : Operator} (h : Operator.ofChar? d = some op) : c ≠ d := by
    intro hsame
    rw [hsame, h] at noOperator
    contradiction
  cases segment with
  | comment body =>
      have hstop : ∀ d ∈ rest.head?, ¬ d ≠ '\n' := fun d hd hd' => hd' (ends d hd)
      have hc : ¬ c ≠ '\n' := not_not_intro (feed body rfl)
      intro d hd
      exact Classical.not_not.mp (not_of_mem_head?_append tail hstop hc d hd)
  | operator op =>
      constructor
      · intro hop
        exact head?_append_ne tail (ends.1 hop) (hne (show _ = some .slash by rfl))
      · intro hop
        exact head?_append_ne tail (ends.2 hop) (hne (show _ = some .equal by rfl))
  | number numeral =>
      constructor
      · exact not_of_mem_head?_append tail ends.1 digit
      · intro hwhole
        exact fractionAt_append_eq_nil tail (ends.2 hwhole) digit (hne (show _ = some .dot by rfl))
  | word letters => exact not_of_mem_head?_append tail ends alphanum
  | openString contents => exact absurd rfl (closed contents)
  | _ => trivial

end Segment

end Lexis
