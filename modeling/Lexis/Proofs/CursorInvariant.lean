import Lexis.Proofs.CursorRounds
import Mathlib.Data.List.Induction

/-!
# The invariant of a cursor

Before each round of a scan the cursor stands behind as many segments of the text as there were
rounds before. So it is between two characters whenever a round begins, the rounds come to the end
of the text, and none of them breaks off. What they find is what a scan finds.
-/

namespace Lexis

namespace Cursor

variable {source : String} {cursor : Cursor}

/-! ## Behind several segments -/

def passed (source : String) (cursor : Cursor) (segments : List Segment) : Cursor :=
  segments.foldl (past source) cursor

theorem passed_cons (segment : Segment) (later : List Segment) :
    cursor.passed source (segment :: later) = (cursor.past source segment).passed source later :=
  rfl

theorem passed_concat (segments : List Segment) (last : Segment) :
    cursor.passed source (segments ++ [last]) = (cursor.passed source segments).past source last :=
  List.foldl_append

theorem passed_current (segments : List Segment) :
    (cursor.passed source segments).current =
      cursor.current + Text.byteLength (Segment.textOf segments) := by
  induction segments generalizing cursor with
  | nil => rfl
  | cons segment later ih =>
      rw [passed_cons, ih, Segment.textOf_cons, Text.byteLength_append, past, Nat.add_assoc]

theorem passed_tokens (segments : List Segment) :
    (cursor.passed source segments).tokens =
      cursor.tokens ++ Scan.tokensFrom cursor.current segments := by
  induction segments generalizing cursor with
  | nil => exact (List.append_nil _).symm
  | cons segment later ih =>
      rw [passed_cons, ih, Scan.tokensFrom_cons, past, List.append_assoc]

theorem passed_records (segments : List Segment) :
    (cursor.passed source segments).records =
      cursor.records ++ (Scan.faultsFrom cursor.current segments).map
        fun error => Diagnostic.ofFault source.toList error.1 error.2 := by
  induction segments generalizing cursor with
  | nil => exact (List.append_nil _).symm
  | cons segment later ih =>
      rw [passed_cons, ih, Scan.faultsFrom_cons, past, List.append_assoc, List.map_append,
        Placed.fault?]
      cases segment.fault? <;> rfl

/-- Behind the first segments of a text the cursor stands before the others. -/
theorem stands_passed {done later : List Segment}
    (h : Segment.cutOf source.toList = done ++ later) :
    Stands source (Segment.textOf done) (Segment.textOf later) (atFront.passed source done) where
  split := by rw [← Segment.textOf_append, ← h, Segment.textOf_cutOf]
  place := by
    rw [passed_current]
    exact Nat.zero_add _

/-! ## The states before the rounds -/

theorem round_passed {done later : List Segment} {segment : Segment}
    (h : Segment.cutOf source.toList = done ++ segment :: later) :
    ¬ (atFront.passed source done).atEnd source ∧ (atFront.passed source done).round source =
      .ok (atFront.passed source (done ++ [segment])) := by
  obtain ⟨form, ends, -⟩ := (h ▸ Segment.isCut_cutOf source.toList).of_append
  have hround := round_eq form ends (stands_passed h)
  rw [passed_concat]
  refine ⟨?_, hround⟩
  rw [atEnd, decide_eq_true_eq]
  exact Nat.not_le_of_lt (round_lt hround).1

/-- The states before the rounds are those behind the first segments of the text, one segment for
each round. -/
theorem begins_iff {count : Nat} : Begins source count cursor ↔
    ∃ done later, Segment.cutOf source.toList = done ++ later ∧ done.length = count ∧
      cursor = atFront.passed source done := by
  constructor
  · intro begins
    induction begins with
    | first => exact ⟨[], _, rfl, rfl, rfl⟩
    | next begins inside hround ih =>
        obtain ⟨done, later, hcut, rfl, rfl⟩ := ih
        cases later with
        | nil => exact absurd (atEnd_iff.mpr (stands_passed hcut).ahead) inside
        | cons segment later =>
            cases (round_passed hcut).2.symm.trans hround
            refine ⟨done ++ [segment], later, ?_, List.length_append, rfl⟩
            rw [hcut, List.append_assoc, List.singleton_append]
  · rintro ⟨done, later, hcut, rfl, rfl⟩
    -- A round adds its segment behind the others, so the induction takes segments off the back.
    induction done using List.reverseRecOn generalizing later with
    | nil => exact .first
    | append_singleton done segment ih =>
        rw [List.append_assoc, List.singleton_append] at hcut
        obtain ⟨inside, hround⟩ := round_passed hcut
        rw [List.length_append, List.length_singleton]
        exact (ih _ hcut).next inside hround

/-- The rounds go on as they do from each state before one of them. -/
theorem Begins.rounds_eq {count : Nat} (h : Begins source count cursor) :
    atFront.rounds source = cursor.rounds source := by
  induction h with
  | first => rfl
  | next begins inside hround ih =>
      rw [ih, rounds, if_neg inside]
      split
      · next h =>
        cases hround.symm.trans h
        rfl
      · next h => cases hround.symm.trans h

theorem exists_round {done later : List Segment}
    (h : Segment.cutOf source.toList = done ++ later)
    (inside : (atFront.passed source done).current < source.utf8ByteSize) :
    ∃ next, (atFront.passed source done).round source = .ok next ∧
      next.start = (atFront.passed source done).current ∧ IsBoundary source next.current := by
  cases later with
  | nil =>
      have hend : (atFront.passed source done).atEnd source :=
        atEnd_iff.mpr (stands_passed h).ahead
      rw [atEnd, decide_eq_true_eq] at hend
      exact absurd inside (Nat.not_lt_of_le hend)
  | cons segment later =>
      refine ⟨_, (round_passed h).2, ?_, ?_⟩
      · rw [passed_concat, past]
      · rw [passed_concat]
        exact (stands_passed h).past.isBoundary

theorem length_le_length_textOf {segments : List Segment}
    (form : ∀ segment ∈ segments, segment.WellFormed) :
    segments.length ≤ (Segment.textOf segments).length := by
  induction segments with
  | nil => exact Nat.le_refl 0
  | cons segment later ih =>
      obtain ⟨hsegment, hlater⟩ := List.forall_mem_cons.mp form
      have hfilled := List.length_pos_iff.mpr (Segment.text_ne_nil_of_wellFormed hsegment)
      have hlength := ih hlater
      rw [Segment.textOf_cons, List.length_append, List.length_cons]
      omega

theorem length_le_of_split {done later : List Segment}
    (h : Segment.cutOf source.toList = done ++ later) : done.length ≤ source.length := by
  have hform := (Segment.isCut_cutOf source.toList).wellFormed
  have hall := length_le_length_textOf hform
  rw [Segment.textOf_cutOf, String.length_toList, h, List.length_append] at hall
  omega

/-! ## The whole scan -/

def atBack (source : String) : Cursor := atFront.passed source (Segment.cutOf source.toList)

theorem atBack_current (source : String) : (atBack source).current = source.utf8ByteSize := by
  rw [atBack, passed_current, Segment.textOf_cutOf, Text.byteLength_toList]
  exact Nat.zero_add _

theorem begins_atBack (source : String) :
    Begins source (Segment.cutOf source.toList).length (atBack source) :=
  begins_iff.mpr ⟨_, [], (List.append_nil _).symm, rfl, rfl⟩

theorem rounds_atFront (source : String) : atFront.rounds source = .ok (atBack source) := by
  have hend : (atBack source).atEnd source := by
    rw [atEnd, decide_eq_true_eq]
    exact Nat.le_of_eq (atBack_current source).symm
  rw [(begins_atBack source).rounds_eq, rounds, if_pos hend]

theorem scan_eq (source : String) : scan source = .ok (Scan.ofText source) := by
  have hback : Stands source source.toList ([] ++ []) (atBack source) :=
    ⟨(List.append_nil _).symm, by rw [atBack_current, Text.byteLength_toList]⟩
  have hclose : (atBack source).restart.add source .endOfFile none =
      .ok { (atBack source).restart with
        tokens := (atBack source).tokens ++ [Token.endOfFile source.utf8ByteSize] } := by
    rw [← atBack_current]
    exact hback.add .endOfFile none
  have htokens : (atBack source).tokens = Scan.properTokens source.toList := by
    rw [atBack, passed_tokens, Scan.properTokens_eq]
    rfl
  have hrecords : (atBack source).records = (Scan.ofText source).diagnostics := by
    rw [atBack, passed_records, Scan.ofText_diagnostics, Scan.faults_eq]
    rfl
  rw [scan, rounds_atFront, ok_bind, hclose, ok_bind, htokens, ← Scan.ofText_tokens]
  exact congrArg Except.ok (congrArg (Scan.mk _) hrecords)

end Cursor

open Cursor in
/-- Before each round of a scan the cursor is between two characters of the text or at one of its
ends, and a round that starts inside the text moves it forward to another such place, with the start
of the segment where the round began. No round reads a byte at the end of the text or takes a range
of it whose ends are not in order and between characters: there it would break off. A text has at
least as many characters as its scan has rounds, and what they find is what a scan finds. -/
theorem cursor_stays_between_characters (source : String) :
    (∀ cursor : Cursor, (∃ read, cursor.advance source = .ok read) ↔
        cursor.current < source.utf8ByteSize) ∧
      (∀ start stop, (∃ bytes, bytesBetween source start stop = .ok bytes) ↔
        start ≤ stop ∧ stop ≤ source.utf8ByteSize) ∧
      (∀ start stop, (∃ text, textBetween source start stop = .ok text) ↔
        start ≤ stop ∧ IsBoundary source start ∧ IsBoundary source stop) ∧
      (∀ count cursor, Begins source count cursor →
        count ≤ source.length ∧ cursor.current ≤ source.utf8ByteSize ∧
          IsBoundary source cursor.current ∧
          (cursor.current < source.utf8ByteSize →
            ∃ next, cursor.round source = .ok next ∧ next.start = cursor.current ∧
              cursor.current < next.current ∧ next.current ≤ source.utf8ByteSize ∧
              IsBoundary source next.current)) ∧
      (∃ count last, Begins source count last ∧ last.current = source.utf8ByteSize ∧
        atFront.rounds source = .ok last) ∧
      Cursor.scan source = .ok (Scan.ofText source) := by
  refine ⟨fun _ => exists_advance_iff, fun _ _ => exists_bytesBetween_iff,
    fun _ _ => exists_textBetween_iff, ?_, ?_, scan_eq source⟩
  · intro count cursor begins
    obtain ⟨done, later, hcut, rfl, rfl⟩ := begins_iff.mp begins
    have hboundary := (stands_passed hcut).isBoundary
    refine ⟨length_le_of_split hcut, hboundary.le, hboundary, ?_⟩
    intro inside
    obtain ⟨next, hround, hstart, hnext⟩ := exists_round hcut inside
    exact ⟨next, hround, hstart, (round_lt hround).2, hnext.le, hnext⟩
  · exact ⟨_, atBack source, begins_atBack source, atBack_current source, rounds_atFront source⟩

end Lexis
