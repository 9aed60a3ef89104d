import Lexis.ErrorLog.Step
import Lexis.Proofs.Writing

/-!
# The history of an error log

A log is its own records and, behind them, what each step adds by itself. No step takes a record
away or lets an earlier one show in a later scan, whether it succeeds or not.
-/

namespace Lexis.ErrorLog

/-! ## One step -/

theorem step_empty (filename : Option String) (s : Step) :
    ((empty filename).step s).1 = ⟨filename, s.added⟩ := by
  rw [step_log, append, empty, List.nil_append]

theorem step_scan_answer (log : ErrorLog) (source : String) :
    (log.step (.scan source)).2 = .tokens ((empty none).scanText source).2 := rfl

theorem step_list_answer (log : ErrorLog) (source : String) (limit : Option Nat) :
    (log.step (.list source limit)).2 = ((empty none).step (.list source limit)).2 := by
  simp only [step, list_empty_sink]

/-! ## Runs of steps -/

theorem run_log_eq (log : ErrorLog) (steps : List Step) :
    (log.run steps).1 = ⟨log.filename, log.records ++ steps.flatMap Step.added⟩ := run_log log steps

/-- The answer to a step comes at its place, and is the answer of the log that the steps before it
leave. -/
theorem run_answers_getElem? (log : ErrorLog) (before after : List Step) (s : Step) :
    (log.run (before ++ s :: after)).2[before.length]? = some ((log.run before).1.step s).2 := by
  induction before generalizing log with
  | nil => rfl
  | cons first before ih => exact ih (log.step first).1

theorem count_run_append (log : ErrorLog) (before after : List Step) :
    (log.run (before ++ after)).1.count =
      (log.run before).1.count + (after.flatMap Step.added).length := by
  rw [run_log, run_log, append_count, append_count, List.flatMap_append, List.length_append,
    Nat.add_assoc]

/-! ## Reports -/

theorem CaretsInRange.of_append {log : ErrorLog} {records : List Diagnostic}
    (h : (log.append records).CaretsInRange) :
    log.CaretsInRange ∧ (⟨log.filename, records⟩ : ErrorLog).CaretsInRange := by
  obtain ⟨hold, hnew⟩ := List.forall_mem_append.mp h
  exact ⟨hold, hnew⟩

theorem reportText_append (log : ErrorLog) (records : List Diagnostic) :
    (log.append records).reportText =
      log.reportText ++ (⟨log.filename, records⟩ : ErrorLog).reportText := by
  simp only [reportText, append, List.map_append, String.join_append]

theorem exists_reports {filename : Option String} {steps : List Step}
    (h : (⟨filename, steps.flatMap Step.added⟩ : ErrorLog).CaretsInRange) :
    ∃ texts, List.Forall₂ (fun s text => ((empty filename).step s).1.Renders text) steps texts ∧
      String.join texts = (⟨filename, steps.flatMap Step.added⟩ : ErrorLog).reportText := by
  induction steps with
  | nil => exact ⟨[], .nil, rfl⟩
  | cons s later ih =>
      have hsplit : (⟨filename, (s :: later).flatMap Step.added⟩ : ErrorLog) =
          append ⟨filename, s.added⟩ (later.flatMap Step.added) := rfl
      rw [hsplit] at h ⊢
      obtain ⟨hfirst, hlater⟩ := h.of_append
      obtain ⟨texts, htexts, hjoin⟩ := ih hlater
      have hrenders : ((empty filename).step s).1.Renders
          (⟨filename, s.added⟩ : ErrorLog).reportText := by
        rw [step_empty]
        exact renders_of_caretsInRange hfirst
      refine ⟨_ :: texts, .cons hrenders htexts, ?_⟩
      rw [String.join_cons, hjoin, reportText_append]

/-- After any steps a log holds its old records and behind them, step by step, what each of them
adds to an empty log. Each step is answered by the log as it then is: a count is the number of its
records, which never goes down, while scans and listings give what they give with an empty log. The
report is that of the old records and those of the steps one behind the other. -/
theorem run_only_appends (log : ErrorLog) (steps : List Step) :
    (log.run steps).1 = ⟨log.filename, log.records ++ steps.flatMap Step.added⟩ ∧
      (∀ filename s, ((empty filename).step s).1 = ⟨filename, s.added⟩) ∧
      (∀ source limit,
        (Step.scan source).added = ((empty none).scanText source).1.records ∧
        (Step.list source limit).added = ((empty none).scanText source).1.records) ∧
      (∀ before after, steps = before ++ after →
        (log.run before).1.count ≤ (log.run steps).1.count) ∧
      (∀ before s after, steps = before ++ s :: after → ∃ answer,
        (log.run steps).2[before.length]? = some answer ∧
        answer = (step ⟨log.filename, log.records ++ before.flatMap Step.added⟩ s).2 ∧
        (s = .count → answer = .count (log.records ++ before.flatMap Step.added).length) ∧
        (∀ source, s = .scan source →
          answer = .tokens ((empty none).scanText source).2) ∧
        (∀ source limit, s = .list source limit →
          answer = ((empty none).step (.list source limit)).2)) ∧
      ((log.run steps).1.CaretsInRange → ∃ first texts,
        log.Renders first ∧
        List.Forall₂ (fun s text => ((empty log.filename).step s).1.Renders text) steps texts ∧
        (log.run steps).1.Renders (first ++ String.join texts)) := by
  refine ⟨run_log_eq log steps, step_empty, ?_, ?_, ?_, ?_⟩
  · intro source limit
    exact ⟨(List.nil_append _).symm, (List.nil_append _).symm⟩
  · rintro before after rfl
    rw [count_run_append]
    exact Nat.le_add_right _ _
  · rintro before s after rfl
    refine ⟨_, run_answers_getElem? log before after s, by rw [run_log_eq], ?_, ?_, ?_⟩
    · rintro rfl
      rw [run_log_eq]
      rfl
    · rintro source rfl
      exact step_scan_answer _ source
    · rintro source limit rfl
      exact step_list_answer _ source limit
  · intro hcarets
    have hrenders := renders_of_caretsInRange hcarets
    rw [run_log] at hcarets hrenders ⊢
    obtain ⟨hold, hnew⟩ := hcarets.of_append
    obtain ⟨texts, htexts, hjoin⟩ := exists_reports hnew
    refine ⟨log.reportText, texts, renders_of_caretsInRange hold, htexts, ?_⟩
    rwa [hjoin, ← reportText_append]

/-- A listing and a report that their sinks cut off, and a record whose column no caret reaches but
that has no line. -/
theorem run_only_appends_past_full_sinks :
    ((empty (some "f")).run [.list "\"é" (some 3), .report (some 2), .count,
        .add ⟨⟨7, 70000⟩, "m", none⟩]).1.CaretsInRange ∧
      ((empty (some "f")).run [.list "\"é" (some 3), .report (some 2)]).1.count ≤
        ((empty (some "f")).run [.list "\"é" (some 3), .report (some 2), .count,
          .add ⟨⟨7, 70000⟩, "m", none⟩]).1.count ∧
      ((empty (some "f")).run [.list "\"é" (some 3), .report (some 2), .count,
        .add ⟨⟨7, 70000⟩, "m", none⟩]).2[2]? = some (.count 1) ∧
      ∃ first texts, (empty (some "f")).Renders first ∧
        List.Forall₂ (fun s text => ((empty (some "f")).step s).1.Renders text)
          [.list "\"é" (some 3), .report (some 2), .count, .add ⟨⟨7, 70000⟩, "m", none⟩] texts ∧
        ((empty (some "f")).run [.list "\"é" (some 3), .report (some 2), .count,
          .add ⟨⟨7, 70000⟩, "m", none⟩]).1.Renders (first ++ String.join texts) := by
  let front : List Step := [.list "\"é" (some 3), .report (some 2)]
  let steps := front ++ .count :: [.add ⟨⟨7, 70000⟩, "m", none⟩]
  obtain ⟨hlog, -, -, hcount, hanswer, hreport⟩ := run_only_appends (empty (some "f")) steps
  have hcarets : ((empty (some "f")).run steps).1.CaretsInRange := by
    have hall : ∀ record ∈ (empty (some "f")).records ++ steps.flatMap Step.added,
        record.context.isSome → record.position.column ≤ Diagnostic.lastCaretColumn := by
      decide +kernel
    rw [hlog]
    exact hall
  obtain ⟨answer, hplace, -, hvalue, -⟩ := hanswer front .count _ rfl
  have hfront : ((empty (some "f")).records ++ front.flatMap Step.added).length = 1 := by
    decide +kernel
  refine ⟨hcarets, hcount front _ rfl, ?_, hreport hcarets⟩
  rw [← hfront, ← hvalue rfl]
  exact hplace

end Lexis.ErrorLog
