import SelfTypeLint.Diagnostic.Queue

/-!
# Queues that drop repetitions

The standard queue keeps what is added once and gives it back in the order of reports. So the order of
adding shows only between different diagnostics with the same place and rule: without these, any order
of adding is reported as one list (`flush_addAll_of_perm`).
-/

namespace SelfTypeLint

theorem keyBefore_antisymm {as bs : List Nat} (hab : keyBefore as bs = true)
    (hba : keyBefore bs as = true) : as = bs := by
  induction as generalizing bs with
  | nil =>
    cases bs with
    | nil => rfl
    | cons b bs => simp [keyBefore] at hba
  | cons a as ih =>
    cases bs with
    | nil => simp [keyBefore] at hab
    | cons b bs =>
      simp only [keyBefore, Bool.or_eq_true, decide_eq_true_eq, Bool.and_eq_true, beq_iff_eq]
        at hab hba
      have hhead : a = b := by omega
      subst hhead
      simp only [Nat.lt_irrefl, false_or, true_and] at hab hba
      rw [ih hab hba]

namespace DiagnosticQueue

variable {q : DiagnosticQueue}

/-- What holds of a queue that sets no limit and drops repetitions. -/
structure Deduplicated (q : DiagnosticQueue) : Prop where
  config : q.config = .standard
  nodup : q.queued.Nodup
  seen : ∀ d, d ∈ q.seen ↔ d ∈ q.queued

theorem deduplicated_empty : (empty .standard).Deduplicated where
  config := rfl
  nodup := List.nodup_nil
  seen := fun _ => Iff.rfl

/-- Without a limit a diagnostic is taken unless it was seen. -/
private theorem add_standard (h : q.config = .standard) (d : Diagnostic) :
    ((q.add d).2 = q ∧ d ∈ q.seen) ∨ (d ∉ q.seen ∧ (q.add d).2.config = .standard ∧
      (q.add d).2.queued = q.queued ++ [d] ∧ (q.add d).2.seen = d :: q.seen) := by
  have hlimit : q.limitReached = false := by
    simp [limitReached, h, QueueConfig.standard]
  have hdeduplicate : q.config.deduplicate = true := by
    rw [h]
    rfl
  unfold add
  rw [hlimit, hdeduplicate]
  by_cases hseen : d ∈ q.seen
  · left
    simp [hseen]
  · right
    simp [hseen, h]

/-- A diagnostic that is added is in the queue, and stands there once. -/
theorem Deduplicated.add (h : q.Deduplicated) (d : Diagnostic) :
    (q.add d).2.Deduplicated ∧ ∀ e, e ∈ (q.add d).2.queued ↔ e ∈ q.queued ∨ e = d := by
  obtain ⟨hsame, hseen⟩ | ⟨hseen, hconfig, hqueued, hnext⟩ := add_standard h.config d
  · rw [hsame]
    refine ⟨h, fun e => ⟨Or.inl, ?_⟩⟩
    rintro (he | rfl)
    · exact he
    · exact (h.seen e).1 hseen
  · have hnew : d ∉ q.queued := fun hd => hseen ((h.seen d).2 hd)
    have hmem : ∀ e, e ∈ (q.add d).2.queued ↔ e ∈ q.queued ∨ e = d := by
      intro e
      rw [hqueued, List.mem_append, List.mem_singleton]
    refine ⟨⟨hconfig, ?_, ?_⟩, hmem⟩
    · rw [hqueued, List.nodup_append]
      refine ⟨h.nodup, by simp, ?_⟩
      rintro e he _ hd rfl
      exact hnew (List.mem_singleton.1 hd ▸ he)
    · intro e
      rw [hnext, hmem, List.mem_cons, h.seen, or_comm]

/-- What is added, one after the other, is in the queue, each once. -/
theorem Deduplicated.addAll (h : q.Deduplicated) (ds : List Diagnostic) :
    (q.addAll ds).Deduplicated ∧ ∀ e, e ∈ (q.addAll ds).queued ↔ e ∈ q.queued ∨ e ∈ ds := by
  induction ds generalizing q with
  | nil => exact ⟨h, fun e => by simp [DiagnosticQueue.addAll]⟩
  | cons d ds ih =>
    obtain ⟨hstep, hmem⟩ := h.add d
    obtain ⟨hrun, hall⟩ := ih hstep
    refine ⟨hrun, fun e => ?_⟩
    have := hall e
    rw [hmem] at this
    rw [List.mem_cons, ← or_assoc]
    exact this

/-- Two diagnostics that are reported before each other have one place and one rule. -/
theorem place_eq_of_reportsBefore {a b : Diagnostic} (hab : reportsBefore a b = true)
    (hba : reportsBefore b a = true) : a.location = b.location ∧ a.rule = b.rule := by
  have hkeys := keyBefore_antisymm hab hba
  simp only [List.cons.injEq, and_true, Rule.rank_inj] at hkeys
  obtain ⟨hfile, hstart, hstop, hrule⟩ := hkeys
  refine ⟨?_, hrule⟩
  cases ha : a.location with
  | mk file span =>
    cases hb : b.location with
    | mk file' span' =>
      cases span
      cases span'
      simp_all

/-- What was added is reported, each once, and the queue is empty again. -/
theorem flush_addAll (ds : List Diagnostic) :
    ((empty .standard).addAll ds).flush.1.Nodup ∧
      (∀ d, d ∈ ((empty .standard).addAll ds).flush.1 ↔ d ∈ ds) ∧
        ((empty .standard).addAll ds).flush.2 = empty .standard := by
  obtain ⟨hqueue, hmem⟩ := deduplicated_empty.addAll ds
  refine ⟨(flush_perm _).nodup_iff.2 hqueue.nodup, fun d => ?_, congrArg empty hqueue.config⟩
  rw [(flush_perm _).mem_iff, hmem]
  apply or_iff_right
  exact List.not_mem_nil

/-- A report is in the order of reports. -/
theorem pairwise_flush (q : DiagnosticQueue) :
    q.flush.1.Pairwise fun a b => reportsBefore a b = true := by
  apply List.pairwise_mergeSort
  · intro a b c
    exact keyBefore_trans
  · intro a b
    exact keyBefore_total _ _

/-- Diagnostics that their places and rules tell apart are reported as one list, in whatever order they
are added. -/
theorem flush_addAll_of_perm {as bs : List Diagnostic}
    (hplace : ∀ a ∈ as, ∀ b ∈ as, a.location = b.location → a.rule = b.rule → a = b)
    (hperm : bs.Perm as) :
    ((empty .standard).addAll bs).flush = ((empty .standard).addAll as).flush := by
  obtain ⟨hnodup, hmem, hqueue⟩ := flush_addAll as
  obtain ⟨hnodup', hmem', hqueue'⟩ := flush_addAll bs
  apply Prod.ext
  · refine List.Perm.eq_of_pairwise ?_ (pairwise_flush _) (pairwise_flush _) ?_
    · intro a b ha hb hab hba
      obtain ⟨hlocation, hrule⟩ := place_eq_of_reportsBefore hab hba
      have has : a ∈ as := hperm.mem_iff.1 ((hmem' a).1 ha)
      exact hplace a has b ((hmem b).1 hb) hlocation hrule
    · rw [List.perm_ext_iff_of_nodup hnodup' hnodup]
      intro d
      rw [hmem, hmem', hperm.mem_iff]
  · rw [hqueue, hqueue']

end DiagnosticQueue

end SelfTypeLint
