import SelfTypeLint.Diagnostic.Basic

/-!
# The diagnostic queue

Collects the findings of several documents, drops repeated ones if asked to, stops at a limit, counts
errors and warnings, and gives the findings back in the order of their places.
-/

namespace SelfTypeLint

/-- What a queue accepts. -/
structure QueueConfig where
  /-- The most diagnostics that are kept; zero sets no limit. -/
  limit : Nat
  /-- Whether a diagnostic equal to one in the queue is dropped. -/
  deduplicate : Bool
  deriving DecidableEq, Repr

/-- No limit, and no repetition. -/
def QueueConfig.standard : QueueConfig := ⟨0, true⟩

/-- Diagnostics waiting to be reported. -/
structure DiagnosticQueue where
  config : QueueConfig
  /-- The diagnostics in the order of arrival. -/
  queued : List Diagnostic
  /-- Those that a repetition is compared with, the last one first. -/
  seen : List Diagnostic
  errorCount : Nat
  warningCount : Nat
  deriving DecidableEq, Repr

namespace DiagnosticQueue

/-- A queue without diagnostics. -/
def empty (config : QueueConfig) : DiagnosticQueue := ⟨config, [], [], 0, 0⟩

/-- Number of diagnostics in the queue. -/
def size (q : DiagnosticQueue) : Nat := q.queued.length

/-- Holds if the queue takes no more. -/
def limitReached (q : DiagnosticQueue) : Bool :=
  0 < q.config.limit && q.config.limit ≤ q.queued.length

/-- Adds a diagnostic and says whether it was taken. The limit is tested before repetition. -/
def add (q : DiagnosticQueue) (d : Diagnostic) : Bool × DiagnosticQueue :=
  if q.limitReached then (false, q)
  else if q.config.deduplicate && q.seen.contains d then (false, q)
  else
    (true,
      { q with
        queued := q.queued ++ [d]
        seen := if q.config.deduplicate then d :: q.seen else q.seen
        errorCount := if d.severity = .error then q.errorCount + 1 else q.errorCount
        warningCount := if d.severity = .warning then q.warningCount + 1 else q.warningCount })

/-- Adds several diagnostics, one after the other. -/
def addAll (q : DiagnosticQueue) (ds : List Diagnostic) : DiagnosticQueue :=
  ds.foldl (fun q d => (q.add d).2) q

/-- The order of reports: by document, start, end and code. -/
def reportsBefore (a b : Diagnostic) : Bool :=
  let key (d : Diagnostic) : List Nat :=
    [d.location.file, d.location.span.start, d.location.span.stop, d.rule.rank]
  keyBefore (key a) (key b)

/-- The diagnostics in the order of reports, and the emptied queue. Those with the same place and code
keep the order of arrival. -/
def flush (q : DiagnosticQueue) : List Diagnostic × DiagnosticQueue :=
  (q.queued.mergeSort reportsBefore, empty q.config)

@[simp] theorem size_empty (config : QueueConfig) : (empty config).size = 0 := rfl

/-- A flush loses nothing and adds nothing. -/
theorem flush_perm (q : DiagnosticQueue) : q.flush.1.Perm q.queued := List.mergeSort_perm _ _

end DiagnosticQueue

end SelfTypeLint
