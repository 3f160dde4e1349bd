import SelfTypeLint.Proofs.Text.Splice

/-!
# Edits that cannot be applied together

Two replacements conflict if they exchange one byte, and an insertion and a replacement if the insertion
stands strictly inside of the replaced text; insertions never conflict. The main statement,
`applyTo_conflict_iff`, says that edits are refused exactly if two of them conflict, and that the two edits
named are the first ones in the order of adding.
-/

namespace SelfTypeLint

namespace TextEdit

variable {a b : TextEdit}

/-- Holds of the bytes that an edit exchanges. -/
def Covers (e : TextEdit) (byte : Nat) : Prop := e.span.start ≤ byte ∧ byte < e.span.stop

/-- Holds of an insertion strictly inside of the text that another edit exchanges. -/
def StandsInside (a b : TextEdit) : Prop :=
  a.span.start = a.span.stop ∧ b.span.start < a.span.start ∧ a.span.start < b.span.stop

/-- Holds of two edits that cannot both be applied. -/
inductive Conflicts (a b : TextEdit) : Prop
  | share (byte : Nat) (left : a.Covers byte) (right : b.Covers byte)
  | inside (h : a.StandsInside b)
  | around (h : b.StandsInside a)

theorem Conflicts.symm : a.Conflicts b → b.Conflicts a
  | .share byte left right => .share byte right left
  | .inside h => .around h
  | .around h => .inside h

/-- Two edits overlap if each begins before the other ends and they are not two insertions. -/
theorem overlaps_iff_lt (ha : a.span.start ≤ a.span.stop) (hb : b.span.start ≤ b.span.stop) :
    a.overlaps b = true ↔ (a.span.start < a.span.stop ∨ b.span.start < b.span.stop) ∧
      a.span.start < b.span.stop ∧ b.span.start < a.span.stop := by
  simp only [overlaps, isInsert, Span.isEmpty, Span.before, Bool.ite_eq_true_distrib,
    Bool.and_eq_true, Bool.or_eq_true, beq_iff_eq, decide_eq_true_eq]
  grind

/-- Edits overlap exactly if they conflict. -/
theorem overlaps_iff_conflicts (ha : a.span.start ≤ a.span.stop) (hb : b.span.start ≤ b.span.stop) :
    a.overlaps b = true ↔ a.Conflicts b := by
  rw [overlaps_iff_lt ha hb]
  constructor
  · rintro ⟨hwide, hab, hba⟩
    rcases Nat.lt_or_ge a.span.start a.span.stop with hlt | hge
    · rcases Nat.lt_or_ge b.span.start b.span.stop with hlt' | hge'
      · -- The later of the two starts is a byte of both.
        refine .share (max a.span.start b.span.start) ⟨?_, ?_⟩ ⟨?_, ?_⟩ <;> omega
      · exact .around ⟨Nat.le_antisymm hb hge', by omega, by omega⟩
    · exact .inside ⟨Nat.le_antisymm ha hge, by omega, by omega⟩
  · rintro (⟨byte, left, right⟩ | ⟨hempty, hstart, hstop⟩ | ⟨hempty, hstart, hstop⟩)
    · obtain ⟨hl, hl'⟩ := left
      obtain ⟨hr, hr'⟩ := right
      omega
    · omega
    · omega

/-- Holds of two edits that conflict and stand at two positions of a list, the first before the second. -/
def ConflictAt (edits : List TextEdit) (i j : Nat) (a b : TextEdit) : Prop :=
  i < j ∧ edits[i]? = some a ∧ edits[j]? = some b ∧ a.Conflicts b

theorem conflictAt_cons_succ {e : TextEdit} {es : List TextEdit} {i j : Nat} :
    ConflictAt (e :: es) (i + 1) (j + 1) a b ↔ ConflictAt es i j a b := by
  simp [ConflictAt]

/-- Edits of which no two overlap are those of which no two conflict. -/
theorem pairwise_iff_not_conflictAt {edits : List TextEdit}
    (hle : ∀ e ∈ edits, e.span.start ≤ e.span.stop) :
    (edits.Pairwise fun a b => a.overlaps b = false) ↔ ¬ ∃ i j a b, ConflictAt edits i j a b := by
  rw [List.pairwise_iff_getElem]
  constructor
  · rintro hapart ⟨i, j, a, b, hij, ha, hb, h⟩
    obtain ⟨hi, rfl⟩ := List.getElem?_eq_some_iff.1 ha
    obtain ⟨hj, rfl⟩ := List.getElem?_eq_some_iff.1 hb
    have hover := (overlaps_iff_conflicts (hle _ (List.getElem_mem hi)) (hle _ (List.getElem_mem hj))).2 h
    rw [hapart i j hi hj hij] at hover
    exact absurd hover (by simp)
  · intro hnone i j hi hj hij
    rw [← Bool.not_eq_true,
      overlaps_iff_conflicts (hle _ (List.getElem_mem hi)) (hle _ (List.getElem_mem hj))]
    intro h
    exact hnone ⟨i, j, _, _, hij, List.getElem?_eq_getElem hi, List.getElem?_eq_getElem hj, h⟩

end TextEdit

namespace EditConflict

open TextEdit

variable {edits : List TextEdit} {c c' : EditConflict}

/-- Holds of the two edits of a list that conflict and whose positions are the least, where the position
of the first counts before that of the second. -/
def IsFirst (c : EditConflict) (edits : List TextEdit) : Prop :=
  ∃ i j, ConflictAt edits i j c.edit1 c.edit2 ∧
    ∀ k l a b, ConflictAt edits k l a b → i < k ∨ i = k ∧ j ≤ l

/-- There are no two first conflicts. -/
theorem IsFirst.eq (h : c.IsFirst edits) (h' : c'.IsFirst edits) : c = c' := by
  obtain ⟨i, j, hat, hmin⟩ := h
  obtain ⟨k, l, hat', hmin'⟩ := h'
  have hle := hmin k l _ _ hat'
  have hge := hmin' i j _ _ hat
  obtain ⟨rfl, rfl⟩ : i = k ∧ j = l := by omega
  obtain ⟨edit1, edit2⟩ := c
  obtain ⟨edit1', edit2'⟩ := c'
  rw [EditConflict.mk.injEq]
  exact ⟨Option.some.inj (hat.2.1.symm.trans hat'.2.1),
    Option.some.inj (hat.2.2.1.symm.trans hat'.2.2.1)⟩

variable {e e' : TextEdit} {es : List TextEdit}

/-- An edit and the first one after it that conflicts with it are the first conflict. -/
theorem isFirst_of_find? (hconflicts : ∀ b ∈ es, (e.overlaps b = true ↔ e.Conflicts b))
    (h : es.find? e.overlaps = some e') : IsFirst ⟨e, e'⟩ (e :: es) := by
  obtain ⟨hover, j, hj, rfl, hbefore⟩ := List.find?_eq_some_iff_getElem.1 h
  refine ⟨0, j + 1, ⟨by omega, rfl, List.getElem?_eq_getElem hj,
    (hconflicts _ (List.getElem_mem hj)).1 hover⟩, ?_⟩
  rintro k l a b ⟨hkl, ha, hb, hab⟩
  rcases Nat.eq_zero_or_pos k with rfl | hk
  · -- The edit at `l` conflicts with the first one, so the search has not passed it.
    obtain rfl : e = a := Option.some.inj ha
    obtain ⟨l, rfl⟩ := Nat.exists_eq_add_of_lt hkl
    simp only [Nat.zero_add, List.getElem?_cons_succ] at hb
    obtain ⟨hl, rfl⟩ := List.getElem?_eq_some_iff.1 hb
    have hover' := (hconflicts _ (List.getElem_mem hl)).2 hab
    refine .inr ⟨rfl, Nat.not_lt.1 fun hlt => ?_⟩
    have := hbefore l (by omega)
    simp [hover'] at this
  · exact .inl hk

/-- An edit that conflicts with none after it leaves the first conflict as it is. -/
theorem IsFirst.cons (h : c.IsFirst es) (hnone : ∀ b ∈ es, ¬ e.Conflicts b) : c.IsFirst (e :: es) := by
  obtain ⟨i, j, hat, hmin⟩ := h
  refine ⟨i + 1, j + 1, conflictAt_cons_succ.2 hat, ?_⟩
  intro k l a b hab
  obtain ⟨l, rfl⟩ : ∃ l', l = l' + 1 := ⟨l - 1, by have := hab.1; omega⟩
  cases k with
  | zero =>
    obtain ⟨-, ha, hb, hab⟩ := hab
    obtain rfl : e = a := Option.some.inj ha
    exact absurd hab (hnone b (List.mem_of_getElem? hb))
  | succ k =>
    have := hmin k l a b (conflictAt_cons_succ.1 hab)
    omega

/-- The conflict that is found is the first one. -/
theorem isFirst_of_first? (hle : ∀ e ∈ edits, e.span.start ≤ e.span.stop)
    (h : first? edits = some c) : c.IsFirst edits := by
  induction edits with
  | nil => simp [first?] at h
  | cons e es ih =>
    have hconflicts : ∀ b ∈ es, (e.overlaps b = true ↔ e.Conflicts b) := fun b hb =>
      overlaps_iff_conflicts (hle e List.mem_cons_self) (hle b (List.mem_cons_of_mem _ hb))
    rw [first?] at h
    cases hfind : es.find? e.overlaps with
    | some e' =>
      rw [hfind] at h
      obtain rfl := Option.some.inj h
      exact isFirst_of_find? hconflicts hfind
    | none =>
      rw [hfind] at h
      refine (ih (fun b hb => hle b (List.mem_cons_of_mem _ hb)) h).cons fun b hb hab => ?_
      exact absurd ((hconflicts b hb).2 hab) (List.find?_eq_none.1 hfind b hb)

/-- A conflict is found exactly if it is the first one. -/
theorem first?_eq_some_iff (hle : ∀ e ∈ edits, e.span.start ≤ e.span.stop) :
    first? edits = some c ↔ c.IsFirst edits := by
  refine ⟨isFirst_of_first? hle, fun h => ?_⟩
  cases hfirst : first? edits with
  | some c' => rw [(isFirst_of_first? hle hfirst).eq h]
  | none =>
    obtain ⟨i, j, hat, -⟩ := h
    rw [first?_eq_none_iff, pairwise_iff_not_conflictAt hle] at hfirst
    exact absurd ⟨i, j, _, _, hat⟩ hfirst

end EditConflict

namespace EditSet

open Text TextEdit

/-- Edits are refused for the conflict that is found among them. -/
theorem applyTo_eq_conflict_iff {s : EditSet} {file : FileId} {source : String} {c : EditConflict} :
    s.applyTo file source = .error (.conflict c) ↔ EditConflict.first? (s.editsFor file) = some c := by
  unfold applyTo
  dsimp only
  cases hfirst : EditConflict.first? (s.editsFor file) with
  | some c' => simp
  | none => cases hall : applyAll? (s.editsFor file) source.toList <;> simp

/-- Edits are refused for a conflict exactly if two of them conflict, and then for the first two that do in
the order of adding. Edits whose ends are between characters of the text are applied otherwise. -/
theorem applyTo_conflict_iff {s : EditSet} {file : FileId}
    (hle : ∀ e ∈ s.editsFor file, e.span.start ≤ e.span.stop) (source : String) :
    (∀ c, s.applyTo file source = .error (.conflict c) ↔ c.IsFirst (s.editsFor file)) ∧
    ((∃ c, s.applyTo file source = .error (.conflict c)) ↔
      ∃ i j a b, ConflictAt (s.editsFor file) i j a b) ∧
    ((∀ e ∈ s.editsFor file, IsBoundary source.toList e.span.start ∧
        IsBoundary source.toList e.span.stop) →
      ((∃ out, s.applyTo file source = .ok out) ↔
        ¬ ∃ i j a b, ConflictAt (s.editsFor file) i j a b)) ∧
    ∀ a ∈ s.editsFor file, ∀ b ∈ s.editsFor file, (a.overlaps b = true ↔ a.Conflicts b) ∧
      (a.Conflicts b ↔ b.Conflicts a) := by
  have hnone : EditConflict.first? (s.editsFor file) = none ↔
      ¬ ∃ i j a b, ConflictAt (s.editsFor file) i j a b :=
    (EditConflict.first?_eq_none_iff _).trans (pairwise_iff_not_conflictAt hle)
  refine ⟨fun c => applyTo_eq_conflict_iff.trans (EditConflict.first?_eq_some_iff hle), ?_, fun hb => ?_,
    fun a ha b hb => ⟨overlaps_iff_conflicts (hle a ha) (hle b hb), .symm, .symm⟩⟩
  · simp only [applyTo_eq_conflict_iff]
    rw [← Option.ne_none_iff_exists', ne_eq, hnone, Classical.not_not]
  · rw [← hnone]
    constructor
    · rintro ⟨out, hout⟩
      rw [Option.eq_none_iff_forall_ne_some]
      intro c hc
      rw [applyTo_eq_conflict_iff.2 hc] at hout
      exact absurd hout (by simp)
    · intro hfirst
      obtain ⟨out, hout⟩ := exists_applyAll? hle hb ((EditConflict.first?_eq_none_iff _).1 hfirst)
      exact ⟨String.ofList out, by simp [applyTo, hfirst, hout]⟩

/-- Of these edits the second conflicts with the last two, of which the later one conflicts with no
other, and the first and third are insertions beside it. -/
theorem applyTo_conflict_twice : ∃ s : EditSet,
    s.editsFor 0 = [.insertAt 5 "a", ⟨⟨5, 10⟩, "b"⟩, .insertAt 10 "c", ⟨⟨8, 9⟩, "d"⟩, .insertAt 7 "e"] ∧
      (∀ e ∈ s.editsFor 0, e.span.start ≤ e.span.stop) ∧
      s.applyTo 0 "hello world" = .error (.conflict ⟨⟨⟨5, 10⟩, "b"⟩, ⟨⟨8, 9⟩, "d"⟩⟩) ∧
      EditConflict.IsFirst ⟨⟨⟨5, 10⟩, "b"⟩, ⟨⟨8, 9⟩, "d"⟩⟩ (s.editsFor 0) := by
  let s : EditSet := ⟨[(0, [.insertAt 5 "a", ⟨⟨5, 10⟩, "b"⟩, .insertAt 10 "c", ⟨⟨8, 9⟩, "d"⟩,
    .insertAt 7 "e"])]⟩
  have hle : ∀ e ∈ s.editsFor 0, e.span.start ≤ e.span.stop := by decide
  exact ⟨s, rfl, hle, rfl, ((applyTo_conflict_iff hle "hello world").1 _).1 rfl⟩

end EditSet

end SelfTypeLint
