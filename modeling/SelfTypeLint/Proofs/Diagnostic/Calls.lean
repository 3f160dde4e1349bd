import SelfTypeLint.Proofs.Diagnostic.Queue

/-!
# Calls to a queue

A queue is called to add diagnostics and to give them back. What one call preserves is `Collects`: the queue
holds what was added since it last gave back, as far as its configuration keeps it. The main statement,
`run_empty`, says of every run of calls what the queue holds and counts, when it takes one more, and what it
gives back.
-/

namespace SelfTypeLint

namespace Diagnostic

/-- The numbers that say where a diagnostic is reported: document, start, end and rule. -/
def reportKey (d : Diagnostic) : List Nat :=
  [d.location.file, d.location.span.start, d.location.span.stop, d.rule.rank]

/-- Holds of two diagnostics in the order of reports, which goes by the document, then by the start, the end
and the rule. -/
def InReportOrder (a b : Diagnostic) : Prop :=
  a.location.file < b.location.file ∨ a.location.file = b.location.file ∧
    (a.location.span.start < b.location.span.start ∨
      a.location.span.start = b.location.span.start ∧
        (a.location.span.stop < b.location.span.stop ∨
          a.location.span.stop = b.location.span.stop ∧ a.rule.rank ≤ b.rule.rank))

end Diagnostic

/-! ## What a configuration keeps -/

namespace QueueConfig

variable (config : QueueConfig)

/-- Diagnostics without the repetitions that a queue drops. -/
def once (ds : List Diagnostic) : List Diagnostic := if config.deduplicate then ds.eraseDups else ds

/-- What a queue keeps of diagnostics that are added one after another: of those that are no dropped
repetitions the first ones up to the limit. -/
def keep (ds : List Diagnostic) : List Diagnostic :=
  if 0 < config.limit then (config.once ds).take config.limit else config.once ds

/-- Holds if no more can be kept. -/
def Full (ds : List Diagnostic) : Prop := 0 < config.limit ∧ config.limit ≤ (config.keep ds).length

variable {config} {ds : List Diagnostic} {d : Diagnostic}

theorem mem_once : d ∈ config.once ds ↔ d ∈ ds := by
  unfold once
  split
  · exact List.mem_eraseDups
  · exact Iff.rfl

theorem once_concat_of_repeated (h : config.deduplicate = true) (hd : d ∈ ds) :
    config.once (ds ++ [d]) = config.once ds := by
  simp [once, h, List.eraseDups_append, List.removeAll, hd]

theorem once_concat (h : config.deduplicate = true → d ∉ ds) :
    config.once (ds ++ [d]) = config.once ds ++ [d] := by
  cases hdrop : config.deduplicate with
  | true => simp [once, hdrop, List.eraseDups_append, List.eraseDups_cons, List.removeAll, h hdrop]
  | false => simp [once, hdrop]

/-- Of what is no repetition all is kept that comes before the limit. -/
theorem keep_of_not_full (h : ¬ config.Full ds) : config.keep ds = config.once ds := by
  unfold keep
  split
  · next hlimit =>
    apply List.take_of_length_le
    have hlength : (config.keep ds).length < config.limit :=
      Nat.lt_of_not_le fun hle => h ⟨hlimit, hle⟩
    rw [keep, if_pos hlimit, List.length_take] at hlength
    omega
  · rfl

theorem mem_of_mem_keep (h : d ∈ config.keep ds) : d ∈ ds := by
  unfold keep at h
  split at h
  · exact mem_once.1 (List.mem_of_mem_take h)
  · exact mem_once.1 h

/-- Once the limit is reached nothing more is kept. -/
theorem keep_concat_of_full (h : config.Full ds) : config.keep (ds ++ [d]) = config.keep ds := by
  obtain ⟨hlimit, hlength⟩ := h
  rw [keep, if_pos hlimit, List.length_take] at hlength
  have hmore : config.once ds <+: config.once (ds ++ [d]) := by
    by_cases hrepeated : config.deduplicate = true ∧ d ∈ ds
    · exact (once_concat_of_repeated hrepeated.1 hrepeated.2).symm ▸ List.prefix_rfl
    · exact (once_concat fun hdrop hd => hrepeated ⟨hdrop, hd⟩).symm ▸ List.prefix_append _ _
  obtain ⟨more, hmore⟩ := hmore
  rw [keep, keep, if_pos hlimit, if_pos hlimit, ← hmore, List.take_append_of_le_length (by omega)]

theorem keep_concat_of_repeated (h : config.deduplicate = true) (hd : d ∈ ds) :
    config.keep (ds ++ [d]) = config.keep ds := by
  simp only [keep, once_concat_of_repeated h hd]

theorem keep_concat (hfull : ¬ config.Full ds) (h : config.deduplicate = true → d ∉ ds) :
    config.keep (ds ++ [d]) = config.keep ds ++ [d] := by
  have hlength : 0 < config.limit → (config.once ds).length < config.limit := by
    intro hlimit
    rw [← keep_of_not_full hfull]
    exact Nat.lt_of_not_le fun hle => hfull ⟨hlimit, hle⟩
  rw [keep_of_not_full hfull, keep, once_concat h]
  split
  · next hlimit =>
    apply List.take_of_length_le
    rw [List.length_append, List.length_singleton]
    exact hlength hlimit
  · rfl

end QueueConfig

namespace DiagnosticQueue

/-! ## Runs -/

/-- A call that changes a queue. -/
inductive Call
  | add (d : Diagnostic)
  | extend (ds : List Diagnostic)
  | flush
  deriving DecidableEq, Repr

/-- The queue after a call. -/
def call (q : DiagnosticQueue) : Call → DiagnosticQueue
  | .add d => (q.add d).2
  | .extend ds => q.addAll ds
  | .flush => q.flush.2

/-- The queue after some calls, one after the other. -/
def run (q : DiagnosticQueue) (calls : List Call) : DiagnosticQueue := calls.foldl call q

/-- What was added and not given back, after a call. -/
def Call.pending (ds : List Diagnostic) : Call → List Diagnostic
  | .add d => ds ++ [d]
  | .extend es => ds ++ es
  | .flush => []

/-- What some calls add after the last flush among them, in the order of adding. -/
def added (calls : List Call) : List Diagnostic := calls.foldl Call.pending []

/-- Holds of a queue to which some diagnostics were added since it was empty. -/
structure Collects (config : QueueConfig) (ds : List Diagnostic) (q : DiagnosticQueue) : Prop where
  configured : q.config = config
  queued : q.queued = config.keep ds
  seen : config.deduplicate = true → ∀ d, d ∈ q.seen ↔ d ∈ q.queued
  errors : q.errorCount = q.queued.countP (·.severity = .error)
  warnings : q.warningCount = q.queued.countP (·.severity = .warning)

variable {config : QueueConfig} {ds : List Diagnostic} {q : DiagnosticQueue} {d : Diagnostic}

theorem collects_empty (config : QueueConfig) : Collects config [] (empty config) where
  configured := rfl
  queued := by simp [empty, QueueConfig.keep, QueueConfig.once]
  seen := fun _ _ => Iff.rfl
  errors := rfl
  warnings := rfl

/-- A diagnostic that is refused leaves the queue as it is. -/
theorem add_of_refused (h : q.limitReached = true ∨ q.config.deduplicate = true ∧ d ∈ q.seen) :
    q.add d = (false, q) := by
  unfold add
  rcases h with hlimit | ⟨hdrop, hseen⟩
  · rw [if_pos hlimit]
  · simp [hdrop, hseen]

/-- A diagnostic that is taken is put at the end and counted. -/
theorem add_of_taken (hlimit : q.limitReached = false)
    (hseen : q.config.deduplicate = true → d ∉ q.seen) :
    q.add d = (true, { q with
      queued := q.queued ++ [d]
      seen := if q.config.deduplicate then d :: q.seen else q.seen
      errorCount := q.errorCount + [d].countP (·.severity = .error)
      warningCount := q.warningCount + [d].countP (·.severity = .warning) }) := by
  unfold add
  rw [if_neg (by simp [hlimit]), if_neg (by simpa using hseen)]
  congr 2
  · by_cases h : d.severity = .error <;> simp [h]
  · by_cases h : d.severity = .warning <;> simp [h]

theorem Collects.limitReached_iff (h : Collects config ds q) :
    q.limitReached = true ↔ config.Full ds := by
  simp [limitReached, QueueConfig.Full, h.configured, h.queued]

theorem Collects.add (h : Collects config ds q) (d : Diagnostic) :
    Collects config (ds ++ [d]) (q.add d).2 := by
  by_cases hrefused : q.limitReached = true ∨ q.config.deduplicate = true ∧ d ∈ q.seen
  · rw [add_of_refused hrefused]
    have hkeep : config.keep (ds ++ [d]) = config.keep ds := by
      rcases hrefused with hlimit | ⟨hdrop, hseen⟩
      · exact QueueConfig.keep_concat_of_full (h.limitReached_iff.1 hlimit)
      · rw [h.configured] at hdrop
        have hqueued : d ∈ config.keep ds := h.queued ▸ (h.seen hdrop d).1 hseen
        exact QueueConfig.keep_concat_of_repeated hdrop (QueueConfig.mem_of_mem_keep hqueued)
    exact { h with queued := h.queued.trans hkeep.symm }
  · rw [not_or, not_and, Bool.not_eq_true, h.configured] at hrefused
    obtain ⟨hlimit, hseen⟩ := hrefused
    have hfull : ¬ config.Full ds := by
      rw [← h.limitReached_iff, hlimit]
      exact Bool.false_ne_true
    have hkeep : config.keep (ds ++ [d]) = config.keep ds ++ [d] := by
      apply QueueConfig.keep_concat hfull
      intro hdrop hd
      apply hseen hdrop
      rw [h.seen hdrop, h.queued, QueueConfig.keep_of_not_full hfull]
      exact QueueConfig.mem_once.2 hd
    rw [add_of_taken hlimit (h.configured ▸ hseen)]
    refine ⟨h.configured, ?_, fun hdrop e => ?_, ?_, ?_⟩
    · rw [hkeep, ← h.queued]
    · simp only [h.configured, hdrop, if_true, List.mem_cons, List.mem_append, h.seen hdrop,
        List.not_mem_nil, or_false]
      exact or_comm
    · rw [List.countP_append, ← h.errors]
    · rw [List.countP_append, ← h.warnings]

theorem Collects.addAll (h : Collects config ds q) (es : List Diagnostic) :
    Collects config (ds ++ es) (q.addAll es) := by
  induction es generalizing ds q with
  | nil => simpa [DiagnosticQueue.addAll] using h
  | cons e es ih =>
    rw [List.append_cons]
    exact ih (h.add e)

/-- A queue is empty again after it gave back. -/
theorem Collects.flush (h : Collects config ds q) : q.flush.2 = empty config :=
  congrArg empty h.configured

theorem Collects.call (h : Collects config ds q) (c : Call) : Collects config (c.pending ds) (q.call c) := by
  cases c with
  | add d => exact h.add d
  | extend es => exact h.addAll es
  | flush =>
    have hempty : q.call .flush = empty config := h.flush
    rw [hempty]
    exact collects_empty config

/-- A run leaves what its calls added after the last flush. -/
theorem Collects.run (h : Collects config ds q) (calls : List Call) :
    Collects config (calls.foldl Call.pending ds) (q.run calls) := by
  induction calls generalizing ds q with
  | nil => exact h
  | cons c calls ih => exact ih (h.call c)

/-! ## Giving back -/

theorem reportsBefore_iff {a b : Diagnostic} : reportsBefore a b = true ↔ a.InReportOrder b := by
  simp [reportsBefore, keyBefore, Diagnostic.InReportOrder, Nat.le_iff_lt_or_eq]

theorem reportsBefore_trans {a b c : Diagnostic} (hab : reportsBefore a b = true)
    (hbc : reportsBefore b c = true) : reportsBefore a c = true := keyBefore_trans hab hbc

theorem reportsBefore_total (a b : Diagnostic) :
    (reportsBefore a b || reportsBefore b a) = true := keyBefore_total _ _

/-- Diagnostics with one key are given back in the order in which they stand in the queue. -/
theorem filter_flush (q : DiagnosticQueue) (key : List Nat) :
    q.flush.1.filter (·.reportKey = key) = q.queued.filter (·.reportKey = key) := by
  have hsorted : (q.queued.filter (·.reportKey = key)).Pairwise fun a b => reportsBefore a b = true := by
    rw [List.pairwise_filter]
    apply List.pairwise_of_forall
    intro a b ha hb
    have hkeys : reportsBefore a b = keyBefore a.reportKey b.reportKey := rfl
    rw [hkeys, of_decide_eq_true ha, of_decide_eq_true hb]
    simpa using keyBefore_total key key
  have hsublist : (q.queued.filter (·.reportKey = key)).Sublist q.flush.1 := by
    refine List.sublist_mergeSort ?_ reportsBefore_total hsorted List.filter_sublist
    intro a b c
    exact reportsBefore_trans
  have hfilter := hsublist.filter (·.reportKey = key)
  rw [List.filter_filter] at hfilter
  simp only [Bool.and_self] at hfilter
  exact (hfilter.eq_of_length ((flush_perm q).filter _).length_eq.symm).symm

/-- Whatever calls are made to an empty queue, it holds what was added since the last flush, as far as it is
kept: without repetitions if these are dropped, and up to the limit if there is one. A diagnostic is taken
just if it is put at the end, and one that is refused changes nothing. The counts are those of the errors and
warnings in the queue. A flush gives back what is in the queue in the order of document, start, end and rule,
where those that agree in these keep their order, and leaves the queue empty with the same configuration. -/
theorem run_empty (config : QueueConfig) (calls : List Call) :
    let q := (empty config).run calls
    q.queued = config.keep (added calls) ∧
      (∀ d, ((q.add d).1 = true ↔ (q.add d).2.queued = q.queued ++ [d]) ∧
        ((q.add d).1 = false → (q.add d).2 = q)) ∧
      q.errorCount = q.queued.countP (·.severity = .error) ∧
      q.warningCount = q.queued.countP (·.severity = .warning) ∧
      q.flush.1.Perm q.queued ∧
      q.flush.1.Pairwise Diagnostic.InReportOrder ∧
      (∀ key, q.flush.1.filter (·.reportKey = key) = q.queued.filter (·.reportKey = key)) ∧
      q.flush.2 = empty config := by
  intro q
  have h : Collects config (added calls) q := (collects_empty config).run calls
  refine ⟨h.queued, fun d => ?_, h.errors, h.warnings, flush_perm q, ?_, filter_flush q, h.flush⟩
  · by_cases hrefused : q.limitReached = true ∨ q.config.deduplicate = true ∧ d ∈ q.seen
    · simp [add_of_refused hrefused]
    · rw [not_or, not_and, Bool.not_eq_true] at hrefused
      simp [add_of_taken hrefused.1 hrefused.2]
  · exact (pairwise_flush q).imp reportsBefore_iff.1

end DiagnosticQueue

end SelfTypeLint
