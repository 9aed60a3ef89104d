import Lexis.Listing

/-!
# Working with one error log

The things that can be done with a log one after the other. Each adds its own records at the end,
whatever was recorded before.
-/

namespace Lexis.ErrorLog

inductive Step where
  | add (record : Diagnostic)
  /-- Scans a text with the log, by whichever of the two entry points. -/
  | scan (source : String)
  | list (source : String) (limit : Option Nat)
  | report (limit : Option Nat)
  | records
  | count
  | isEmpty
  | filename
  deriving Repr, DecidableEq

inductive Answer where
  | nothing
  | tokens (tokens : List Token)
  | listed (sink : Sink) (result : Except WriteError (List Token))
  | reported (sink : Sink) (cause : Option WriteError)
  | records (records : List Diagnostic)
  | count (count : Nat)
  | isEmpty (empty : Bool)
  | filename (name : Option String)

namespace Step

def added : Step → List Diagnostic
  | .add record => [record]
  | .scan source => (Scan.ofText source).diagnostics
  | .list source _ => (Scan.ofText source).diagnostics
  | _ => []

end Step

def step (log : ErrorLog) : Step → ErrorLog × Answer
  | .add record => (log.append [record], .nothing)
  | .scan source =>
      let (log, tokens) := log.scanText source
      (log, .tokens tokens)
  | .list source limit =>
      let (log, sink, result) := log.list source (Sink.empty limit)
      (log, .listed sink result)
  | .report limit =>
      let (sink, cause) := log.writeReport (Sink.empty limit)
      (log, .reported sink cause)
  | .records => (log, .records log.records)
  | .count => (log, .count log.count)
  | .isEmpty => (log, .isEmpty log.isEmpty)
  | .filename => (log, .filename log.filename)

theorem step_log (log : ErrorLog) (s : Step) : (log.step s).1 = log.append s.added := by
  cases s with
  | add record => rfl
  | scan source => rfl
  | list source limit => exact list_log log source _
  | _ => exact log.append_nil.symm

/-- Takes steps in order; the answers come in the same order. -/
def run (log : ErrorLog) : List Step → ErrorLog × List Answer
  | [] => (log, [])
  | s :: later =>
      let (next, answer) := log.step s
      let (last, answers) := next.run later
      (last, answer :: answers)

theorem run_log (log : ErrorLog) (steps : List Step) :
    (log.run steps).1 = log.append (steps.flatMap Step.added) := by
  induction steps generalizing log with
  | nil => simp [run, append]
  | cons s later ih =>
      rw [run, ih, step_log]
      simp [append]

end Lexis.ErrorLog
