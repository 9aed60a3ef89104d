import Lexis.Proofs.Grammar

/-!
# Scanning undoes printing

Lexemes that are written one behind the other, with a blank after each, are found again as the
tokens they are by themselves, whatever blanks and comments stand between them.
-/

namespace Lexis

/-- What an operator, string, number or word rule accepts. -/
def IsLexeme (text : List Char) : Prop := ∃ rule : Rule, rule.makesToken ∧ rule.Accepts text

/-- Blanks and complete line comments in any order. -/
inductive IsFiller : List Char → Prop
  | nil : IsFiller []
  | blank {c : Char} {later : List Char} (blank : Rule.whitespace.Accepts [c])
      (filler : IsFiller later) : IsFiller (c :: later)
  | comment {text later : List Char} (comment : Rule.comment.Accepts text)
      (filler : IsFiller later) : IsFiller (text ++ '\n' :: later)

/-- What may stand behind a lexeme: a blank, and then any filler. -/
inductive IsSeparator : List Char → Prop
  | blank {c : Char} {later : List Char} (blank : Rule.whitespace.Accepts [c])
      (filler : IsFiller later) : IsSeparator (c :: later)

/-- Lexemes with a separator after each, as they stand in a text. -/
def printed (entries : List (List Char × List Char)) : List Char :=
  entries.flatMap fun entry => entry.1 ++ entry.2

/-- What a token is apart from where it stands. -/
def Token.content (token : Token) : Kind × String × Option Literal :=
  (token.kind, token.lexeme, token.literal)

/-- A text without faults has the tokens of another text, up to where they stand. -/
def Respells (text source : String) : Prop :=
  ∃ tokens, tokensOf text = .ok tokens ∧
    tokens.map Token.content = (Scan.ofText source).tokens.map Token.content

namespace Segment

/-! ## Separators as segments -/

def IsSkipped : Segment → Prop
  | .blank _ => True
  | .comment _ => True
  | _ => False

theorem isWhitespace_of_accepts {c : Char} (h : Rule.whitespace.Accepts [c]) :
    c.isWhitespace := by
  obtain ⟨segment, form, hrule, htext⟩ := exists_wellFormed_of_accepts h
  cases segment with
  | blank d =>
      have hd : d = c := List.head_eq_of_cons_eq htext
      rw [← hd]
      exact form
  | _ => simp [rule?] at hrule

theorem exists_comment_of_accepts {word : List Char} (h : Rule.comment.Accepts word) :
    ∃ body, '\n' ∉ body ∧ (Segment.comment body).text = word := by
  obtain ⟨segment, form, hrule, htext⟩ := exists_wellFormed_of_accepts h
  cases segment with
  | comment body => exact ⟨body, form, htext⟩
  | _ => simp [rule?] at hrule

theorem exists_segments_of_filler {filler : List Char} (h : IsFiller filler) :
    ∃ segments, textOf segments = filler ∧ (∀ segment ∈ segments, segment.IsSkipped) ∧
      ∀ later, IsCut later → IsCut (segments ++ later) := by
  induction h with
  | nil =>
      refine ⟨[], rfl, ?_, fun later cut => cut⟩
      intro segment hsegment
      contradiction
  | @blank c later blank filler ih =>
      obtain ⟨segments, htext, hskipped, hcut⟩ := ih
      refine ⟨.blank c :: segments, ?_, List.forall_mem_cons.mpr ⟨trivial, hskipped⟩, ?_⟩
      · rw [textOf_cons, htext]
        rfl
      · intro later cut
        exact ⟨isWhitespace_of_accepts blank, trivial, hcut later cut⟩
  | @comment word later comment filler ih =>
      obtain ⟨segments, htext, hskipped, hcut⟩ := ih
      obtain ⟨body, oneLine, hbody⟩ := exists_comment_of_accepts comment
      have hboth : ∀ segment ∈ .blank '\n' :: segments, segment.IsSkipped :=
        List.forall_mem_cons.mpr ⟨trivial, hskipped⟩
      refine ⟨.comment body :: .blank '\n' :: segments, ?_,
        List.forall_mem_cons.mpr ⟨trivial, hboth⟩, ?_⟩
      · rw [textOf_cons, textOf_cons, htext, hbody]
        rfl
      · intro later cut
        have hfeed : '\n'.isWhitespace := by decide
        have hends : ∀ c ∈ ('\n' :: textOf (segments ++ later)).head?, c = '\n' := by
          intro c hc
          exact (Option.some.inj hc).symm
        exact ⟨oneLine, hends, hfeed, trivial, hcut later cut⟩

/-! ## Lexemes and their separators as segments -/

/-- The segment of a lexeme, with those of the separator behind it. -/
structure IsSpaced (pair : Segment × List Segment) : Prop where
  form : pair.1.WellFormed
  token : pair.1.rule?.any Rule.makesToken
  blank : ∃ c later, c.isWhitespace ∧ textOf pair.2 = c :: later
  skipped : ∀ segment ∈ pair.2, segment.IsSkipped
  cut : ∀ later, IsCut later → IsCut (pair.2 ++ later)

def spaced (pairs : List (Segment × List Segment)) : List Segment :=
  pairs.flatMap fun pair => pair.1 :: pair.2

theorem spaced_cons (pair : Segment × List Segment) (pairs : List (Segment × List Segment)) :
    spaced (pair :: pairs) = pair.1 :: (pair.2 ++ spaced pairs) := rfl

theorem textOf_spaced (pairs : List (Segment × List Segment)) :
    textOf (spaced pairs) = printed (pairs.map fun pair => (pair.1.text, textOf pair.2)) := by
  induction pairs with
  | nil => rfl
  | cons pair pairs ih =>
      rw [spaced_cons, textOf_cons, textOf_append, ih, ← List.append_assoc]
      rfl

/-- No lexeme goes on into its separator, so the segments are not cut in another way. -/
theorem isCut_spaced {pairs : List (Segment × List Segment)} {later : List Segment}
    (h : ∀ pair ∈ pairs, IsSpaced pair) (hlater : IsCut later) :
    IsCut (spaced pairs ++ later) := by
  induction pairs with
  | nil => exact hlater
  | cons pair pairs ih =>
      obtain ⟨hpair, hpairs⟩ := List.forall_mem_cons.mp h
      have hrest := ih hpairs
      obtain ⟨c, more, hblank, htext⟩ := hpair.blank
      have hfeed : ∀ body, pair.1 = .comment body → c = '\n' := by
        intro body hbody
        have htoken := hpair.token
        rw [hbody] at htoken
        contradiction
      have hclosed : ∀ contents, pair.1 ≠ .openString contents := by
        intro contents hopen
        have htoken := hpair.token
        rw [hopen] at htoken
        contradiction
      rw [spaced_cons, List.cons_append, List.append_assoc]
      refine ⟨hpair.form, ?_, hpair.cut _ hrest⟩
      rw [textOf_append, htext]
      exact (endsBefore_nil pair.1).append_blank _ hblank hfeed hclosed

theorem isSpaced_of_text {lexeme separator : List Char} (hlexeme : IsLexeme lexeme)
    (hseparator : IsSeparator separator) :
    ∃ pair, IsSpaced pair ∧ (pair.1.text, textOf pair.2) = (lexeme, separator) := by
  obtain ⟨rule, hmakes, haccepts⟩ := hlexeme
  obtain ⟨segment, form, hrule, htext⟩ := exists_wellFormed_of_accepts haccepts
  cases hseparator with
  | @blank c later blank filler =>
      have hblank := isWhitespace_of_accepts blank
      obtain ⟨gap, hgap, hskipped, hcut⟩ := exists_segments_of_filler filler
      have hseparator : textOf (.blank c :: gap) = c :: later := by
        rw [textOf_cons, hgap]
        rfl
      have hgapSkipped : ∀ other ∈ .blank c :: gap, other.IsSkipped :=
        List.forall_mem_cons.mpr ⟨trivial, hskipped⟩
      refine ⟨(segment, .blank c :: gap),
        ⟨form, ?_, ⟨c, later, hblank, hseparator⟩, hgapSkipped, ?_⟩, ?_⟩
      · rw [hrule]
        exact hmakes
      · intro following cut
        exact ⟨hblank, trivial, hcut following cut⟩
      · rw [htext, hseparator]

theorem exists_pairs {entries : List (List Char × List Char)}
    (h : ∀ entry ∈ entries, IsLexeme entry.1 ∧ IsSeparator entry.2) :
    ∃ pairs : List (Segment × List Segment), (∀ pair ∈ pairs, IsSpaced pair) ∧
      pairs.map (fun pair => (pair.1.text, textOf pair.2)) = entries := by
  induction entries with
  | nil =>
      refine ⟨[], ?_, rfl⟩
      intro pair hpair
      contradiction
  | cons entry entries ih =>
      obtain ⟨hentry, hentries⟩ := List.forall_mem_cons.mp h
      obtain ⟨pairs, hpairs, hmap⟩ := ih hentries
      obtain ⟨pair, hpair, htexts⟩ := isSpaced_of_text hentry.1 hentry.2
      refine ⟨pair :: pairs, List.forall_mem_cons.mpr ⟨hpair, hpairs⟩, ?_⟩
      rw [List.map_cons, htexts, hmap]

end Segment

namespace Scan

open Segment

/-! ## Scanning lexemes and separators -/

theorem token?_of_isSkipped {segment : Segment} (h : segment.IsSkipped) (offset : Nat) :
    segment.token? offset = none := by
  cases segment <;> first | rfl | contradiction

theorem fault?_of_isSkipped {segment : Segment} (h : segment.IsSkipped) :
    segment.fault? = none := by
  cases segment <;> first | rfl | contradiction

theorem fault?_of_makesToken {segment : Segment} (h : segment.rule?.any Rule.makesToken) :
    segment.fault? = none := by
  cases segment <;> first | rfl | contradiction

theorem faultsFrom_spaced {pairs : List (Segment × List Segment)} (offset : Nat)
    (h : ∀ pair ∈ pairs, IsSpaced pair) : faultsFrom offset (spaced pairs) = [] := by
  apply faultsFrom_eq_nil
  intro segment hsegment
  obtain ⟨pair, hpair, hmem⟩ := List.mem_flatMap.mp hsegment
  have hspaced := h pair hpair
  rcases List.mem_cons.mp hmem with hsame | hgap
  · rw [hsame]
    exact fault?_of_makesToken hspaced.token
  · exact fault?_of_isSkipped (hspaced.skipped segment hgap)

theorem exists_token {segment : Segment} (h : segment.rule?.any Rule.makesToken) :
    ∃ token : Token, token.lexeme = String.ofList segment.text ∧ token.offset = 0 ∧
      ∀ offset, segment.token? offset = some (token.shift offset) := by
  obtain ⟨token, htoken⟩ : ∃ token, segment.token? 0 = some token := by
    cases segment <;> first | exact ⟨_, rfl⟩ | contradiction
  obtain ⟨hlexeme, hoffset⟩ := token?_text htoken
  refine ⟨token, hlexeme, hoffset, ?_⟩
  intro offset
  have hshift := token?_shift segment 0 offset
  rwa [Nat.zero_add, htoken, Option.map_some] at hshift

theorem tokensFrom_spaced_cons {pair : Segment × List Segment} (offset : Nat)
    (pairs : List (Segment × List Segment)) (h : IsSpaced pair) :
    tokensFrom offset (spaced (pair :: pairs)) = (pair.1.token? offset).toList ++
      tokensFrom (offset + Text.byteLength (pair.1.text ++ textOf pair.2)) (spaced pairs) := by
  have hgap (next : Nat) : tokensFrom next pair.2 = [] :=
    tokensFrom_eq_nil next fun segment hsegment => token?_of_isSkipped (h.skipped segment hsegment)
  rw [spaced_cons, tokensFrom_cons, tokensFrom_append, hgap, List.nil_append,
    Text.byteLength_append, Nat.add_assoc]

theorem length_tokensFrom_spaced {pairs : List (Segment × List Segment)} (offset : Nat)
    (h : ∀ pair ∈ pairs, IsSpaced pair) :
    (tokensFrom offset (spaced pairs)).length = pairs.length := by
  induction pairs generalizing offset with
  | nil => rfl
  | cons pair pairs ih =>
      obtain ⟨hpair, hpairs⟩ := List.forall_mem_cons.mp h
      obtain ⟨token, -, -, htoken⟩ := exists_token hpair.token
      rw [tokensFrom_spaced_cons offset pairs hpair, htoken, Option.toList_some, List.length_append,
        ih _ hpairs, List.length_singleton, List.length_cons]
      omega

theorem tokensOf_lexeme {segment : Segment} {token : Token} (form : segment.WellFormed)
    (h : segment.rule?.any Rule.makesToken) (htoken : segment.token? 0 = some token) :
    tokensOf (String.ofList segment.text) =
      .ok [token, Token.endOfFile (Text.byteLength segment.text)] := by
  have htext : textOf [segment] = segment.text := by simp
  have hcut : IsCut [segment] := ⟨form, endsBefore_nil segment, trivial⟩
  have hfault : faultsFrom 0 [segment] = [] :=
    faultsFrom_eq_nil 0 (List.forall_mem_singleton.mpr (fault?_of_makesToken h))
  have hscan := tokensOf_textOf hcut hfault
  rw [tokensFrom_cons, htoken, htext] at hscan
  exact hscan

theorem getElem?_tokensFrom_spaced {front behind : List (Segment × List Segment)}
    {pair : Segment × List Segment} {token : Token}
    (h : ∀ other ∈ front ++ pair :: behind, IsSpaced other)
    (htoken : ∀ offset, pair.1.token? offset = some (token.shift offset)) :
    (tokensFrom 0 (spaced (front ++ pair :: behind)))[front.length]? =
      some (token.shift (Text.byteLength (textOf (spaced front)))) := by
  obtain ⟨hfront, hbehind⟩ := List.forall_mem_append.mp h
  have hpair : IsSpaced pair := hbehind pair List.mem_cons_self
  have happend : spaced (front ++ pair :: behind) = spaced front ++ spaced (pair :: behind) := by
    rw [spaced, List.flatMap_append, spaced, spaced]
  have hlength := length_tokensFrom_spaced 0 hfront
  rw [happend, tokensFrom_append, ← hlength, List.getElem?_append_right (Nat.le_refl _),
    Nat.sub_self, tokensFrom_spaced_cons _ _ hpair, htoken, Nat.zero_add]
  rfl

/-! ## Scanning the lexemes of a scan -/

def contents (segments : List Segment) : List (Kind × String × Option Literal) :=
  segments.filterMap fun segment => (segment.token? 0).map Token.content

theorem contents_cons (segment : Segment) (later : List Segment) :
    contents (segment :: later) =
      ((segment.token? 0).map Token.content).toList ++ contents later := by
  rw [contents, List.filterMap_cons, contents]
  cases (segment.token? 0).map Token.content <;> rfl

theorem contents_append (a b : List Segment) : contents (a ++ b) = contents a ++ contents b := by
  rw [contents, List.filterMap_append, contents, contents]

theorem map_content_tokensFrom (offset : Nat) (segments : List Segment) :
    (tokensFrom offset segments).map Token.content = contents segments := by
  induction segments generalizing offset with
  | nil => rfl
  | cons segment later ih =>
      have hshift := token?_shift segment 0 offset
      rw [Nat.zero_add] at hshift
      rw [tokensFrom_cons, List.map_append, ih, hshift, contents_cons]
      cases segment.token? 0 <;> rfl

theorem contents_spaced (lexemes : List Segment) :
    contents (spaced (lexemes.map fun segment => (segment, [.blank ' ']))) = contents lexemes := by
  induction lexemes with
  | nil => rfl
  | cons segment later ih =>
      have hblank : contents [.blank ' '] = [] := rfl
      rw [List.map_cons, spaced_cons, ← List.singleton_append, contents_append, contents_append, ih,
        hblank, List.nil_append, ← contents_append]
      rfl

theorem isSpaced_blank {segment : Segment} (form : segment.WellFormed)
    (h : segment.rule?.any Rule.makesToken) : IsSpaced (segment, [.blank ' ']) where
  form := form
  token := h
  blank := ⟨' ', [], by decide, rfl⟩
  skipped := List.forall_mem_singleton.mpr trivial
  cut := by
    intro later cut
    have hblank : ' '.isWhitespace := by decide
    exact ⟨hblank, trivial, cut⟩

def lexemesOf (source : List Char) : List Segment :=
  (cutOf source).filter fun segment => segment.rule?.any Rule.makesToken

theorem contents_lexemesOf (source : List Char) :
    contents (lexemesOf source) = contents (cutOf source) := by
  rw [contents, lexemesOf, List.filterMap_filter, contents]
  congr 1
  funext segment
  cases segment <;> rfl

theorem map_lexeme_contents {segments : List Segment}
    (h : ∀ segment ∈ segments, segment.rule?.any Rule.makesToken) :
    (contents segments).map (·.2.1) =
      segments.map fun segment => String.ofList segment.text := by
  induction segments with
  | nil => rfl
  | cons segment later ih =>
      obtain ⟨hsegment, hlater⟩ := List.forall_mem_cons.mp h
      obtain ⟨token, htext, -, htoken⟩ := exists_token hsegment
      have hlater := ih hlater
      rw [contents_cons, htoken, List.map_append, hlater, List.map_cons, ← htext]
      rfl

theorem map_lexeme_properTokens (source : List Char) :
    (properTokens source).map (·.lexeme) =
      (lexemesOf source).map fun segment => String.ofList segment.text := by
  have hmakes : ∀ segment ∈ lexemesOf source, segment.rule?.any Rule.makesToken :=
    fun segment hsegment => (List.mem_filter.mp hsegment).2
  rw [← map_lexeme_contents hmakes, contents_lexemesOf, ← map_content_tokensFrom 0,
    ← properTokens_eq, List.map_map]
  rfl

theorem toList_intercalate_concat (words : List String) (last : String) :
    (" ".intercalate (words ++ [last])).toList =
      printed (words.map fun word => (word.toList, [' '])) ++ last.toList := by
  induction words with
  | nil => rw [List.nil_append, String.intercalate_singleton]; rfl
  | cons word words ih =>
      rw [List.cons_append, String.intercalate_cons_of_ne_nil (by simp), String.toList_append,
        String.toList_append, ih]
      simp [printed]

theorem tokensOf_respaced {lexemes final : List Segment}
    (h : ∀ segment ∈ lexemes, segment.WellFormed ∧ segment.rule?.any Rule.makesToken)
    (cut : IsCut final) (faultless : ∀ offset, faultsFrom offset final = []) :
    ∃ tokens, tokensOf (String.ofList
        (printed (lexemes.map fun segment => (segment.text, [' '])) ++ textOf final)) =
          .ok tokens ∧
      tokens.map Token.content = contents (lexemes ++ final) ++ [(.endOfFile, "", none)] := by
  have hpairs : ∀ pair ∈ lexemes.map fun segment => (segment, [Segment.blank ' ']),
      IsSpaced pair := by
    intro pair hpair
    obtain ⟨segment, hsegment, rfl⟩ := List.mem_map.mp hpair
    exact isSpaced_blank (h segment hsegment).1 (h segment hsegment).2
  have hscan := tokensOf_textOf (isCut_spaced hpairs cut) (by
    rw [faultsFrom_append, faultsFrom_spaced 0 hpairs, faultless, List.nil_append])
  have htext : textOf (spaced (lexemes.map fun segment => (segment, [Segment.blank ' ']))) =
      printed (lexemes.map fun segment => (segment.text, [' '])) := by
    rw [textOf_spaced, List.map_map]
    rfl
  rw [textOf_append, htext] at hscan
  refine ⟨_, hscan, ?_⟩
  rw [List.map_append, map_content_tokensFrom, contents_append, contents_spaced, ← contents_append]
  rfl

theorem intercalate_lexemes (lexemes : List Segment) (last : String) :
    " ".intercalate ((lexemes.map fun segment => String.ofList segment.text) ++ [last]) =
      String.ofList
        (printed (lexemes.map fun segment => (segment.text, [' '])) ++ last.toList) := by
  have hwords : (lexemes.map fun segment => String.ofList segment.text).map
      (fun word => (word.toList, [' '])) = lexemes.map fun segment => (segment.text, [' ']) := by
    rw [List.map_map]
    apply List.map_congr_left
    intro segment hsegment
    simp
  rw [← hwords, ← toList_intercalate_concat, String.ofList_toList]

theorem wellFormed_of_mem_lexemesOf (source : List Char) :
    ∀ segment ∈ lexemesOf source, segment.WellFormed ∧ segment.rule?.any Rule.makesToken := by
  intro segment hsegment
  obtain ⟨hmem, hmakes⟩ := List.mem_filter.mp hsegment
  exact ⟨(isCut_cutOf source).wellFormed segment hmem, hmakes⟩

theorem map_content_tokens (source : String) :
    (ofText source).tokens.map Token.content =
      contents (lexemesOf source.toList) ++ [(.endOfFile, "", none)] := by
  rw [ofText_tokens, List.map_append, properTokens_eq, map_content_tokensFrom, contents_lexemesOf]
  rfl

theorem respells_lexemes (source : String) :
    Respells (" ".intercalate ((ofText source).tokens.map (·.lexeme))) source := by
  have hnil : IsCut [] := trivial
  obtain ⟨tokens, hscan, hcontent⟩ :=
    tokensOf_respaced (wellFormed_of_mem_lexemesOf source.toList) hnil fun _ => rfl
  have htext : " ".intercalate ((ofText source).tokens.map (·.lexeme)) = String.ofList
      (printed ((lexemesOf source.toList).map fun segment => (segment.text, [' '])) ++
        textOf []) := by
    rw [ofText_tokens, List.map_append, map_lexeme_properTokens]
    exact intercalate_lexemes _ ""
  refine ⟨tokens, by rw [htext, hscan], ?_⟩
  rw [hcontent, List.append_nil, map_content_tokens]

/-- The lexemes of the tokens before the closing one, so that no space stands behind the last. -/
theorem respells_lexemes_dropLast (source : String) :
    Respells (" ".intercalate ((ofText source).tokens.dropLast.map (·.lexeme))) source := by
  have hform := wellFormed_of_mem_lexemesOf source.toList
  rw [Respells, map_content_tokens, ofText_tokens, List.dropLast_concat, map_lexeme_properTokens]
  rcases List.eq_nil_or_concat (lexemesOf source.toList) with hempty | ⟨front, last, hlast⟩
  · rw [hempty, List.map_nil, String.intercalate_nil]
    refine ⟨[Token.endOfFile 0], ?_, rfl⟩
    rw [tokensOf_eq_ok_iff, ofText_empty]
    exact ⟨rfl, rfl⟩
  · rw [List.concat_eq_append] at hlast
    rw [hlast] at hform ⊢
    obtain ⟨hwell, hmakes⟩ := hform last (by simp)
    have hcut : IsCut [last] := ⟨hwell, endsBefore_nil last, trivial⟩
    have hfault (offset : Nat) : faultsFrom offset [last] = [] :=
      faultsFrom_eq_nil offset (List.forall_mem_singleton.mpr (fault?_of_makesToken hmakes))
    obtain ⟨tokens, hscan, hcontent⟩ := tokensOf_respaced
      (fun segment hsegment => hform segment (List.mem_append_left _ hsegment)) hcut hfault
    refine ⟨tokens, ?_, hcontent⟩
    rw [List.map_append, List.map_singleton, intercalate_lexemes, String.toList_ofList, ← hscan]
    simp

end Scan

/-- A text of lexemes with a separator after each is scanned without a fault into one token for
each lexeme, which is the token of the lexeme by itself, moved to where it stands. The lexemes of
any scan, with single spaces between them, are such a text. -/
theorem scan_undoes_printing (entries : List (List Char × List Char)) (source : String)
    (h : ∀ entry ∈ entries, IsLexeme entry.1 ∧ IsSeparator entry.2) :
    (∃ tokens : List Token,
      tokensOf (String.ofList (printed entries)) =
        .ok (tokens ++ [Token.endOfFile (Text.byteLength (printed entries))]) ∧
      tokens.length = entries.length ∧
      ∀ before entry after, entries = before ++ entry :: after →
        ∃ token, tokensOf (String.ofList entry.1) =
            .ok [token, Token.endOfFile (Text.byteLength entry.1)] ∧
          token.lexeme = String.ofList entry.1 ∧ token.offset = 0 ∧
          tokens[before.length]? = some (token.shift (Text.byteLength (printed before)))) ∧
    Respells (" ".intercalate ((Scan.ofText source).tokens.map (·.lexeme))) source ∧
    Respells (" ".intercalate ((Scan.ofText source).tokens.dropLast.map (·.lexeme))) source := by
  refine ⟨?_, Scan.respells_lexemes source, Scan.respells_lexemes_dropLast source⟩
  obtain ⟨pairs, hpairs, hmap⟩ := Segment.exists_pairs h
  have hnil : Segment.IsCut [] := trivial
  have hcut := Segment.isCut_spaced hpairs hnil
  rw [List.append_nil] at hcut
  have hscan := Scan.tokensOf_textOf hcut (Scan.faultsFrom_spaced 0 hpairs)
  rw [Segment.textOf_spaced, hmap] at hscan
  refine ⟨Scan.tokensFrom 0 (Segment.spaced pairs), hscan, ?_, ?_⟩
  · rw [Scan.length_tokensFrom_spaced 0 hpairs, ← hmap, List.length_map]
  · intro before entry after hentries
    rw [hentries] at hmap
    obtain ⟨front, rest, hsplit, hfront, hrest⟩ := List.map_eq_append_iff.mp hmap
    obtain ⟨pair, behind, hcons, hpair, -⟩ := List.map_eq_cons_iff.mp hrest
    rw [hsplit, hcons] at hpairs ⊢
    have hspaced : Segment.IsSpaced pair := hpairs pair (by simp)
    obtain ⟨token, hlexeme, hoffset, htoken⟩ := Scan.exists_token hspaced.token
    have hplace := Scan.getElem?_tokensFrom_spaced hpairs htoken
    rw [Segment.textOf_spaced, hfront] at hplace
    have hlength : front.length = before.length := by
      rw [← hfront, List.length_map]
    have halone := Scan.tokensOf_lexeme hspaced.form hspaced.token (htoken 0)
    have hentry : pair.1.text = entry.1 := congrArg Prod.fst hpair
    rw [hentry] at halone hlexeme
    rw [hlength] at hplace
    exact ⟨token, halone, hlexeme, hoffset, hplace⟩

theorem scan_undoes_printing_slash_before_comment :
    (∀ entry ∈ [(['/'], [' ', '/', '/', 'x', '\n']), (['1', '.', '5'], ['\t'])],
      IsLexeme entry.1 ∧ IsSeparator entry.2) ∧
    ∃ tokens, tokensOf "/ //x\n1.5\t" = .ok (tokens ++ [Token.endOfFile 10]) ∧
      tokens.length = 2 ∧ tokens[1]?.map (·.offset) = some 6 := by
  have slash : IsLexeme ['/'] := ⟨.operator, rfl, .operator .slash⟩
  have one : ∀ d ∈ ['1'], d.isDigit := List.forall_mem_singleton.mpr rfl
  have five : ∀ d ∈ ['5'], d.isDigit := List.forall_mem_singleton.mpr rfl
  have decimal : Rule.number.Accepts (['1'] ++ '.' :: ['5']) :=
    .decimal (List.cons_ne_nil _ _) one (List.cons_ne_nil _ _) five
  have comment : IsFiller (['/', '/', 'x'] ++ '\n' :: []) := .comment (.comment (by decide)) .nil
  have behindSlash : IsSeparator (' ' :: (['/', '/', 'x'] ++ '\n' :: [])) :=
    .blank (.whitespace (by decide)) comment
  have behindNumber : IsSeparator ['\t'] := .blank (.whitespace (by decide)) .nil
  have h : ∀ entry ∈ [(['/'], [' ', '/', '/', 'x', '\n']), (['1', '.', '5'], ['\t'])],
      IsLexeme entry.1 ∧ IsSeparator entry.2 := by
    intro entry hentry
    rcases List.mem_cons.mp hentry with rfl | hentry
    · exact ⟨slash, behindSlash⟩
    · rw [List.mem_singleton] at hentry
      subst hentry
      exact ⟨⟨.number, rfl, decimal⟩, behindNumber⟩
  obtain ⟨⟨tokens, hscan, hlength, htokens⟩, -⟩ := scan_undoes_printing _ "" h
  obtain ⟨token, -, -, hoffset, htoken⟩ := htokens [_] _ [] rfl
  have hsecond : tokens[1]? = some (token.shift 6) := htoken
  refine ⟨h, tokens, hscan, hlength, ?_⟩
  rw [hsecond]
  simp [Token.shift, hoffset]

end Lexis
