import SelfTypeLint.Proofs.Text.Splice

/-!
# The order of edits

Edits of a document stand in the order of their places: by start, then by end, then by the order of
adding. The main statement, `applyTo_eq_splice`, says that applying edits gives the text that one pass
over them in this order makes, and that the order of adding matters to insertions at one offset only.
-/

namespace SelfTypeLint

namespace TextEdit

open Text

/-- The order of numbered edits: by start, then by end, then by number. -/
def Precedes (a b : TextEdit × Nat) : Prop :=
  a.1.span.start < b.1.span.start ∨ a.1.span.start = b.1.span.start ∧
    (a.1.span.stop < b.1.span.stop ∨ a.1.span.stop = b.1.span.stop ∧ a.2 < b.2)

/-- The insertions at an offset, in the order of adding. -/
def insertionsAt (offset : Nat) (edits : List TextEdit) : List TextEdit :=
  edits.filter fun e => e.span = .point offset

theorem span_eq_of_before {a b : TextEdit} (hab : a.span.before b.span = true)
    (hba : b.span.before a.span = true) : a.span = b.span := by
  have hends : a.span.start = b.span.start ∧ a.span.stop = b.span.stop := by
    simp only [Span.before, Bool.or_eq_true, Bool.and_eq_true, decide_eq_true_eq, beq_iff_eq] at *
    omega
  cases ha : a.span
  cases hb : b.span
  simp_all

/-! ## Edits in the order of their places -/

/-- The numbered edits of a document by their places. -/
def numbered (edits : List TextEdit) : List (TextEdit × Nat) :=
  edits.zipIdx.mergeSort (List.zipIdxLE fun a b => a.span.before b.span)

theorem numbered_perm (edits : List TextEdit) : (numbered edits).Perm edits.zipIdx :=
  List.mergeSort_perm _ _

/-- Numbering the edits changes nothing: those at one place keep the order of adding. -/
theorem map_fst_numbered (edits : List TextEdit) : (numbered edits).map Prod.fst = placeOrder edits :=
  List.mergeSort_zipIdx

theorem precedes_of_zipIdxLE {a b : TextEdit × Nat} (hne : a.2 ≠ b.2)
    (h : List.zipIdxLE (fun a b => a.span.before b.span) a b = true) : Precedes a b := by
  simp only [List.zipIdxLE, Span.before, Bool.or_eq_true, Bool.and_eq_true, decide_eq_true_eq,
    beq_iff_eq] at h
  simp only [Precedes]
  split at h
  · split at h
    · have hle : a.2 ≤ b.2 := of_decide_eq_true h
      omega
    · omega
  · exact absurd h (by simp)

theorem pairwise_numbered (edits : List TextEdit) : (numbered edits).Pairwise Precedes := by
  have hsorted : (numbered edits).Pairwise fun a b =>
      List.zipIdxLE (fun a b => a.span.before b.span) a b = true :=
    List.pairwise_mergeSort (List.zipIdxLE_trans before_trans) (List.zipIdxLE_total before_total) _
  have hnumbers : ((numbered edits).map Prod.snd).Nodup := by
    refine ((numbered_perm edits).map Prod.snd).nodup_iff.2 ?_
    rw [List.zipIdx_map_snd]
    exact List.nodup_range'
  refine (hsorted.and (List.pairwise_map.1 hnumbers)).imp fun ⟨hle, hne⟩ => ?_
  exact precedes_of_zipIdxLE hne hle

/-- Of two edits at different places, the one whose place comes first stands first. -/
theorem sublist_placeOrder {edits : List TextEdit} {a b : TextEdit} (ha : a ∈ edits) (hb : b ∈ edits)
    (hab : a.span.before b.span = true) (hba : b.span.before a.span = false) :
    [a, b].Sublist (placeOrder edits) := by
  have hperm : (placeOrder edits).Perm edits := List.mergeSort_perm _ _
  have hsorted : (placeOrder edits).Pairwise fun a b => a.span.before b.span = true :=
    List.pairwise_mergeSort before_trans before_total edits
  obtain ⟨front, back, hsplit⟩ := List.append_of_mem (hperm.mem_iff.2 ha)
  rw [hsplit] at hsorted ⊢
  have hmem : b ∈ front ++ a :: back := hsplit ▸ hperm.mem_iff.2 hb
  rcases List.mem_append.1 hmem with hfront | hback
  · have := (List.pairwise_append.1 hsorted).2.2 b hfront a List.mem_cons_self
    rw [this] at hba
    exact absurd hba (by simp)
  · rcases List.mem_cons.1 hback with rfl | hback
    · rw [hab] at hba
      exact absurd hba (by simp)
    · exact ((List.singleton_sublist.2 hback).cons_cons a).trans (List.sublist_append_right _ _)

/-! ## The order of adding -/

/-- Sorting keeps the order of edits that stand in the order of their places already. -/
theorem filter_placeOrder_of_pairwise {edits : List TextEdit} {p : TextEdit → Bool}
    (hsame : (edits.filter p).Pairwise fun a b => a.span.before b.span = true) :
    (placeOrder edits).filter p = edits.filter p := by
  have hperm : (placeOrder edits).Perm edits := List.mergeSort_perm _ _
  have hsub : (edits.filter p).Sublist (placeOrder edits) :=
    List.sublist_mergeSort before_trans before_total hsame List.filter_sublist
  have hkept := hsub.filter p
  rw [List.filter_filter] at hkept
  simp only [Bool.and_self] at hkept
  exact (hkept.eq_of_length ((hperm.filter _).length_eq.symm)).symm

/-- Sorting keeps the order of the edits at one place. -/
theorem filter_placeOrder (edits : List TextEdit) (span : Span) :
    (placeOrder edits).filter (·.span = span) = edits.filter (·.span = span) := by
  refine filter_placeOrder_of_pairwise (List.pairwise_of_forall_mem_list fun a ha b hb => ?_)
  have ha := of_decide_eq_true (List.mem_filter.1 ha).2
  have hb := of_decide_eq_true (List.mem_filter.1 hb).2
  rw [ha, hb]
  simp [Span.before]

/-- Sorted lists of the same edits are one if they agree on the edits at each place. -/
theorem eq_of_filter_eq {as bs : List TextEdit} (hperm : as.Perm bs)
    (ha : as.Pairwise fun a b => a.span.before b.span = true)
    (hb : bs.Pairwise fun a b => a.span.before b.span = true)
    (h : ∀ span, as.filter (·.span = span) = bs.filter (·.span = span)) : as = bs := by
  induction as generalizing bs with
  | nil => exact hperm.nil_eq
  | cons a as ih =>
    cases bs with
    | nil => exact absurd hperm.symm.nil_eq (by simp)
    | cons b bs =>
      obtain ⟨hafter, has⟩ := List.pairwise_cons.1 ha
      obtain ⟨hbfter, hbs⟩ := List.pairwise_cons.1 hb
      -- The first edits have one place, where both lists begin with the same edit.
      have hspan : a.span = b.span := by
        rcases List.mem_cons.1 (hperm.subset List.mem_cons_self) with rfl | hab
        · rfl
        · rcases List.mem_cons.1 (hperm.symm.subset List.mem_cons_self) with rfl | hba
          · rfl
          · exact span_eq_of_before (hafter b hba) (hbfter a hab)
      obtain rfl : a = b := by
        have hheads := congrArg List.head? (h a.span)
        simpa [hspan] using hheads
      refine congrArg (a :: ·) (ih hperm.cons_inv has hbs fun span => ?_)
      have hrest := h span
      simp only [List.filter_cons] at hrest
      split at hrest
      · exact (List.cons.inj hrest).2
      · exact hrest

/-- Edits that do not overlap are at different places, apart from insertions. -/
theorem filter_span_eq_of_perm {as bs : List TextEdit} (hperm : bs.Perm as)
    (hapart : as.Pairwise fun a b => a.overlaps b = false) {span : Span}
    (hspan : span.start < span.stop) :
    bs.filter (·.span = span) = as.filter (·.span = span) := by
  have hsame := hperm.filter (·.span = span)
  cases hc : as.filter (·.span = span) with
  | nil =>
    rw [hc] at hsame
    exact hsame.eq_nil
  | cons a rest =>
    cases rest with
    | nil =>
      rw [hc] at hsame
      exact hsame.eq_singleton
    | cons b rest =>
      have hat : ∀ e ∈ as.filter (·.span = span), e.span = span := fun e he =>
        of_decide_eq_true (List.mem_filter.1 he).2
      have hpairs := hapart.filter (·.span = span)
      rw [hc] at hat hpairs
      have ha := hat a List.mem_cons_self
      have hb := hat b (List.mem_cons_of_mem _ List.mem_cons_self)
      have hno := (List.pairwise_cons.1 hpairs).1 b List.mem_cons_self
      simp [overlaps, isInsert, Span.isEmpty, ha, hb, Span.before, Nat.ne_of_lt hspan, hspan] at hno

/-- The order of adding matters to insertions at one offset only. -/
theorem placeOrder_eq_of_perm {as bs : List TextEdit} (hperm : bs.Perm as)
    (hle : ∀ e ∈ as, e.span.start ≤ e.span.stop)
    (hapart : as.Pairwise fun a b => a.overlaps b = false)
    (hinsertions : ∀ offset, insertionsAt offset bs = insertionsAt offset as) :
    placeOrder bs = placeOrder as := by
  have hsort : ∀ es : List TextEdit,
      (placeOrder es).Pairwise fun a b => a.span.before b.span = true :=
    fun es => List.pairwise_mergeSort before_trans before_total es
  have hall : (placeOrder bs).Perm (placeOrder as) :=
    (List.mergeSort_perm _ _).trans (hperm.trans (List.mergeSort_perm _ _).symm)
  refine eq_of_filter_eq hall (hsort bs) (hsort as) fun span => ?_
  rw [filter_placeOrder, filter_placeOrder]
  rcases Nat.lt_trichotomy span.start span.stop with hlt | heq | hgt
  · exact filter_span_eq_of_perm hperm hapart hlt
  · have hpoint : span = .point span.start := by
      rw [Span.point, Span.mk.injEq]
      exact ⟨rfl, heq.symm⟩
    rw [hpoint]
    exact hinsertions span.start
  · have hnone : ∀ es : List TextEdit, (∀ e ∈ es, e.span.start ≤ e.span.stop) →
        es.filter (·.span = span) = [] := by
      intro es hes
      refine List.filter_eq_nil_iff.2 fun e he hspan => ?_
      have := hes e he
      rw [of_decide_eq_true hspan] at this
      omega
    rw [hnone as hle, hnone bs fun e he => hle e (hperm.subset he)]

end TextEdit

namespace EditSet

open Text TextEdit

/-- Edits that do not overlap and whose ends are between characters give the text that one pass over
them makes, in the order of their starts, ends and numbers: it copies the text between two edits and
puts each new text in its place. Adding them in another order gives the same text, as long as the
insertions at each offset keep theirs. An insertion at the start of a replacement comes before it, and
one at its end after it. -/
theorem applyTo_eq_splice {s : EditSet} {file : FileId} {source : String}
    (hplaced : ∀ e ∈ s.editsFor file, e.span.start ≤ e.span.stop ∧
      e.span.stop ≤ byteSize source.toList ∧ IsBoundary source.toList e.span.start ∧
      IsBoundary source.toList e.span.stop)
    (hapart : (s.editsFor file).Pairwise fun a b => a.overlaps b = false) :
    ∃ (ordered : List (TextEdit × Nat)) (out : List Char),
      ordered.Perm (s.editsFor file).zipIdx ∧ ordered.Pairwise Precedes ∧
      splice? 0 (ordered.map Prod.fst) source.toList = some out ∧
      s.applyTo file source = .ok (String.ofList out) ∧
      (∀ s' : EditSet, (s'.editsFor file).Perm (s.editsFor file) →
        (∀ offset, insertionsAt offset (s'.editsFor file) = insertionsAt offset (s.editsFor file)) →
        s'.applyTo file source = .ok (String.ofList out)) ∧
      ∀ e ∈ s.editsFor file, ∀ r ∈ s.editsFor file, e.isInsert = true → r.isInsert = false →
        (e.span.start = r.span.start → [e, r].Sublist (ordered.map Prod.fst)) ∧
        (e.span.start = r.span.stop → [r, e].Sublist (ordered.map Prod.fst)) := by
  have hle : ∀ e ∈ s.editsFor file, e.span.start ≤ e.span.stop := fun e he => (hplaced e he).1
  have hb : ∀ e ∈ s.editsFor file, IsBoundary source.toList e.span.start ∧
      IsBoundary source.toList e.span.stop := fun e he => (hplaced e he).2.2
  obtain ⟨out, hout⟩ := exists_applyAll? hle hb hapart
  have hsplice := (applyAll?_eq_splice? hle hb hapart).symm.trans hout
  have hok : ∀ s' : EditSet, (s'.editsFor file).Pairwise (fun a b => a.overlaps b = false) →
      applyAll? (s'.editsFor file) source.toList = some out →
      s'.applyTo file source = .ok (String.ofList out) := by
    intro s' hapart' hout'
    rw [applyTo]
    simp only [(EditConflict.first?_eq_none_iff _).2 hapart', hout']
  refine ⟨numbered (s.editsFor file), out, numbered_perm _, pairwise_numbered _, ?_, hok s hapart hout,
    ?_, ?_⟩
  · rw [map_fst_numbered]
    exact hsplice
  · intro s' hperm hinsertions
    have hapart' : (s'.editsFor file).Pairwise fun a b => a.overlaps b = false :=
      (hperm.pairwise_iff fun {a b} hab => overlaps_comm a b ▸ hab).2 hapart
    refine hok s' hapart' ?_
    rw [applyAll?_eq_splice? (fun e he => hle e (hperm.subset he))
      (fun e he => hb e (hperm.subset he)) hapart',
      placeOrder_eq_of_perm hperm hle hapart hinsertions, hsplice]
  · intro e he r hr hinsert hreplace
    rw [map_fst_numbered]
    have hpoint : e.span.start = e.span.stop := (Span.isEmpty_iff _).1 hinsert
    have hrange : r.span.start < r.span.stop := by
      refine Nat.lt_of_le_of_ne (hle r hr) fun heq => ?_
      rw [isInsert, (Span.isEmpty_iff _).2 heq] at hreplace
      exact absurd hreplace (by simp)
    constructor
    · intro hat
      refine sublist_placeOrder he hr ?_ ?_ <;> simp [Span.before] <;> omega
    · intro hat
      refine sublist_placeOrder hr he ?_ ?_ <;> simp [Span.before] <;> omega

/-- Insertions at both ends of a replacement, added from the last place to the first and the other way
round. -/
theorem applyTo_around_replacement :
    ∃ s s' : EditSet, s.editsFor 0 = [.insertAt 2 "z", ⟨⟨1, 2⟩, "y"⟩, .insertAt 1 "x"] ∧
      s'.editsFor 0 = (s.editsFor 0).reverse ∧
      s.applyTo 0 "ab" = .ok "axyz" ∧ s'.applyTo 0 "ab" = .ok "axyz" := by
  let edits : List TextEdit := [.insertAt 2 "z", ⟨⟨1, 2⟩, "y"⟩, .insertAt 1 "x"]
  let s : EditSet := ⟨[(0, edits)]⟩
  let s' : EditSet := ⟨[(0, edits.reverse)]⟩
  have hplaced : ∀ e ∈ s.editsFor 0, e.span.start ≤ e.span.stop ∧
      e.span.stop ≤ byteSize ['a', 'b'] ∧ IsBoundary ['a', 'b'] e.span.start ∧
      IsBoundary ['a', 'b'] e.span.stop := by
    have h1 : IsBoundary ['a', 'b'] 1 := ⟨['a'], ['b'], rfl, rfl⟩
    have h2 : IsBoundary ['a', 'b'] 2 := ⟨['a', 'b'], [], rfl, rfl⟩
    intro e he
    have he : e ∈ edits := he
    simp only [edits, List.mem_cons, List.not_mem_nil, or_false] at he
    rcases he with rfl | rfl | rfl
    · exact ⟨by decide, by decide, h2, h2⟩
    · exact ⟨by decide, by decide, h1, h2⟩
    · exact ⟨by decide, by decide, h1, h1⟩
  obtain ⟨ordered, out, -, -, -, hout, hany, -⟩ :=
    @applyTo_eq_splice s 0 "ab" hplaced (by decide)
  have horder : applicationOrder edits = edits := by
    simp [applicationOrder, edits, List.mergeSort, insertAt, Span.before, Span.point]
  have hnone : EditConflict.first? edits = none := by rfl
  have htext : s.applyTo 0 "ab" = .ok "axyz" := by
    have hedits : s.editsFor 0 = edits := rfl
    rw [applyTo, hedits, hnone]
    dsimp only
    rw [applyAll?, horder]
    rfl
  have hsame : ∀ offset, insertionsAt offset (s'.editsFor 0) = insertionsAt offset (s.editsFor 0) := by
    intro offset
    by_cases h1 : offset = 1
    · subst h1
      rfl
    · by_cases h2 : offset = 2
      · subst h2
        rfl
      · simp [s, s', edits, editsFor, insertionsAt, insertAt, Span.point, Ne.symm h1, Ne.symm h2]
  rw [htext] at hout
  exact ⟨s, s', rfl, rfl, htext, hout ▸ hany s' (List.reverse_perm edits) hsame⟩

end EditSet

end SelfTypeLint
