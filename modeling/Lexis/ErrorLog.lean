import Lexis.Scan

/-!
# Error logs

An error log keeps diagnostics in the order in which they were recorded. Nothing takes a record out
of it again.
-/

namespace Lexis

structure ErrorLog where
  filename : Option String
  records : List Diagnostic
  deriving Repr, DecidableEq

namespace ErrorLog

def empty (filename : Option String) : ErrorLog := ⟨filename, []⟩

def count (log : ErrorLog) : Nat := log.records.length

def isEmpty (log : ErrorLog) : Bool := log.records.isEmpty

def append (log : ErrorLog) (records : List Diagnostic) : ErrorLog :=
  { log with records := log.records ++ records }

@[simp] theorem append_nil (log : ErrorLog) : log.append [] = log := by
  simp [append]

@[simp] theorem append_records (log : ErrorLog) (records : List Diagnostic) :
    (log.append records).records = log.records ++ records := rfl

@[simp] theorem append_count (log : ErrorLog) (records : List Diagnostic) :
    (log.append records).count = log.count + records.length := by
  simp [count]

def scanText (log : ErrorLog) (source : String) : ErrorLog × List Token :=
  let found := Scan.ofText source
  (log.append found.diagnostics, found.tokens)

end ErrorLog

/-- The tokens of a text without faults, or the log of its faults. -/
def tokensOf (source : String) : Except ErrorLog (List Token) :=
  let (log, tokens) := (ErrorLog.empty none).scanText source
  if log.isEmpty then .ok tokens else .error log

theorem tokensOf_eq_ok_iff {source : String} {tokens : List Token} :
    tokensOf source = .ok tokens ↔
      (Scan.ofText source).diagnostics = [] ∧ (Scan.ofText source).tokens = tokens := by
  unfold tokensOf
  dsimp only [ErrorLog.scanText]
  split <;> simp_all [ErrorLog.isEmpty, ErrorLog.empty, ErrorLog.append]

end Lexis
