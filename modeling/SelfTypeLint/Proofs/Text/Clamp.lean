import SelfTypeLint.Proofs.Text.PlaceOrder

/-!
# Edits past the end

An end of an edit that lies past the end of the text counts as the end of it. As the edits are applied
from the last to the first, this is the end of the text that the later edits have left, which may be longer
than the source. The main statement, `applyTo_eq_splice_clamp`, says that edits are applied as if their ends
past the end of the source were that end, if no edit writes text after one of those that end past it.
-/

namespace SelfTypeLint

namespace TextEdit

open Text

/-- The edit with its ends past an offset moved there. -/
def clamp (n : Nat) (e : TextEdit) : TextEdit := ⟨⟨min e.span.start n, min e.span.stop n⟩, e.newText⟩

variable {n : Nat} {e a b : TextEdit} {es : List TextEdit} {cs : List Char}

theorem clamp_of_le (hle : e.span.start ≤ e.span.stop) (h : e.span.stop ≤ n) : e.clamp n = e := by
  rw [clamp, Nat.min_eq_left h, Nat.min_eq_left (Nat.le_trans hle h)]

theorem clamp_start_le (h : e.span.start ≤ e.span.stop) (n : Nat) :
    (e.clamp n).span.start ≤ (e.clamp n).span.stop := by
  dsimp only [clamp]
  omega

theorem clamp_stop_le (h : a.span.stop ≤ b.span.start) (n : Nat) :
    (a.clamp n).span.stop ≤ (b.clamp n).span.start := by
  dsimp only [clamp]
  omega

/-- In a text of this size an edit and the one with moved ends do the same. -/
theorem applyTo?_clamp (h : byteSize cs = n) : (e.clamp n).applyTo? cs = e.applyTo? cs := by
  simp only [applyTo?, clamp, h, Nat.min_assoc, Nat.min_self]

/-- An edit past the end without text changes nothing. -/
theorem applyTo?_past (hpast : byteSize cs ≤ e.span.start) (hstop : e.span.start ≤ e.span.stop)
    (htext : e.newText = "") : e.applyTo? cs = some cs := by
  rw [← applyTo?_clamp rfl]
  have hclamp : e.clamp (byteSize cs) = insertAt (byteSize cs) "" := by
    rw [clamp, Nat.min_eq_right hpast, Nat.min_eq_right (Nat.le_trans hpast hstop), htext]
    rfl
  have happly := applyTo?_append (insertAt (byteSize cs) "") cs [] [] rfl rfl
  simpa [hclamp, insertAt] using happly

theorem foldlM_past (h : ∀ e ∈ es, byteSize cs ≤ e.span.start ∧ e.span.start ≤ e.span.stop ∧
    e.newText = "") : es.foldlM (fun text e => e.applyTo? text) cs = some cs := by
  induction es with
  | nil => rfl
  | cons e es ih =>
    obtain ⟨hpast, hstop, htext⟩ := h e List.mem_cons_self
    rw [List.foldlM_cons, applyTo?_past hpast hstop htext]
    exact ih fun f hf => h f (List.mem_cons_of_mem e hf)

/-- Edits one after another are applied as those with moved ends, if none writes text after one that
ends past the end. -/
theorem foldlM_reverse_clamp {offset : Nat} (hs : Spaced offset es) (hn : byteSize cs = n)
    (hlast : es.Pairwise fun a b => n < a.span.stop → b.newText = "") :
    es.reverse.foldlM (fun text e => e.applyTo? text) cs =
      (es.map (clamp n)).reverse.foldlM (fun text e => e.applyTo? text) cs := by
  induction es generalizing offset with
  | nil => rfl
  | cons e es ih =>
    obtain ⟨-, hle, hrest⟩ := hs
    obtain ⟨hafter, hlast⟩ := List.pairwise_cons.1 hlast
    have hih := ih hrest hlast
    rw [List.map_cons, List.reverse_cons, List.reverse_cons, List.foldlM_append, List.foldlM_append, ← hih]
    by_cases hstop : e.span.stop ≤ n
    · rw [clamp_of_le hle hstop]
    · -- The edits after this one leave the source as it is.
      have hsame : es.reverse.foldlM (fun text e => e.applyTo? text) cs = some cs := by
        refine foldlM_past fun f hf => ?_
        have hf := List.mem_reverse.1 hf
        obtain ⟨hstart, hstop'⟩ := hrest.le_of_mem hf
        exact ⟨by omega, hstop', hafter f hf (by omega)⟩
      rw [hsame]
      simp only [List.foldlM_cons, List.foldlM_nil, Option.bind_eq_bind, Option.bind_some,
        applyTo?_clamp hn]

theorem Spaced.clamp {offset : Nat} (h : Spaced offset es) (n : Nat) :
    Spaced (min offset n) (es.map (clamp n)) := by
  induction es generalizing offset with
  | nil => trivial
  | cons e es ih =>
    obtain ⟨hstart, hstop, hrest⟩ := h
    have hoffset : min offset n ≤ min e.span.start n := by omega
    exact ⟨hoffset, clamp_start_le hstop n, ih hrest⟩

/-- An end in the text that is a boundary is one after it is moved, and the end of the text is one. -/
theorem isBoundary_min {k : Nat} (hn : byteSize cs = n) (h : k ≤ n → IsBoundary cs k) :
    IsBoundary cs (min k n) := by
  by_cases hk : k ≤ n
  · rw [Nat.min_eq_left hk]
    exact h hk
  · rw [Nat.min_eq_right (by omega), ← hn]
    exact ⟨cs, [], (List.append_nil cs).symm, rfl⟩

/-! ## The order of edits with moved ends -/

theorem before_iff : a.span.before b.span = true ↔ a.span.start < b.span.start ∨
    a.span.start = b.span.start ∧ a.span.stop ≤ b.span.stop := by
  simp only [Span.before, Bool.or_eq_true, Bool.and_eq_true, decide_eq_true_eq, beq_iff_eq]

theorem before_or_before (a b : TextEdit) : a.span.before b.span = true ∨ b.span.before a.span = true :=
  (Bool.or_eq_true _ _).mp (before_total a b)

theorem not_overlaps_of_stop_le (ha : a.span.start ≤ a.span.stop) (hb : b.span.start ≤ b.span.stop)
    (h : a.span.stop ≤ b.span.start) : a.overlaps b = false := by
  simp only [overlaps, isInsert, Span.isEmpty, Span.before]
  grind

/-- Moving ends makes no edits overlap. -/
theorem not_overlaps_clamp (ha : a.span.start ≤ a.span.stop) (hb : b.span.start ≤ b.span.stop)
    (h : a.overlaps b = false) (n : Nat) : (a.clamp n).overlaps (b.clamp n) = false := by
  have ha := clamp_start_le ha n
  have hb := clamp_start_le hb n
  rcases before_or_before a b with hab | hba
  · exact not_overlaps_of_stop_le ha hb (clamp_stop_le (stop_le_of_not_overlaps hab h) n)
  · rw [overlaps_comm] at h ⊢
    exact not_overlaps_of_stop_le hb ha (clamp_stop_le (stop_le_of_not_overlaps hba h) n)

theorem before_clamp (ha : a.span.start ≤ a.span.stop) (hb : b.span.start ≤ b.span.stop)
    (h : a.span.before b.span = true) (n : Nat) :
    (a.clamp n).span.before (b.clamp n).span = true := by
  rw [before_iff] at h ⊢
  dsimp only [clamp]
  omega

/-- Edits that come to stand at one place stood in the order of their places before, if those at the end or
past it did. -/
theorem before_of_clamp_eq (ha : a.span.start ≤ a.span.stop) (hapart : a.overlaps b = false)
    (hpast : n ≤ a.span.start → n ≤ b.span.start → a.span.before b.span = true)
    (h : (a.clamp n).span = (b.clamp n).span) : a.span.before b.span = true := by
  obtain ⟨hstart, hstop⟩ := Span.mk.inj h
  rcases Nat.lt_or_ge a.span.start n with hlt | hge
  · -- Both begin at one offset before the end, so the one that stands first ends where it begins.
    rcases before_or_before a b with hab | hba
    · exact hab
    · rw [overlaps_comm] at hapart
      have hle := stop_le_of_not_overlaps hba hapart
      rw [before_iff]
      omega
  · exact hpast hge (by omega)

/-- With moved ends the edits stand in the order in which they stood, if those at the end or past it were
added in the order of their places. -/
theorem placeOrder_clamp {edits : List TextEdit} (hle : ∀ e ∈ edits, e.span.start ≤ e.span.stop)
    (hapart : edits.Pairwise fun a b => a.overlaps b = false)
    (hpast : edits.Pairwise fun a b => n ≤ a.span.start → n ≤ b.span.start →
      a.span.before b.span = true) :
    placeOrder (edits.map (clamp n)) = (placeOrder edits).map (clamp n) := by
  have hperm : (placeOrder edits).Perm edits := List.mergeSort_perm _ _
  have hsorted : ∀ es : List TextEdit, (placeOrder es).Pairwise fun a b => a.span.before b.span = true :=
    fun es => List.pairwise_mergeSort before_trans before_total es
  have hmapped : ((placeOrder edits).map (clamp n)).Pairwise fun a b =>
      a.span.before b.span = true := by
    refine List.pairwise_map.2 ((hsorted edits).imp_of_mem fun {a b} ha hb hab => ?_)
    exact before_clamp (hle a (hperm.subset ha)) (hle b (hperm.subset hb)) hab n
  refine eq_of_filter_eq ((List.mergeSort_perm _ _).trans (hperm.map _).symm) (hsorted _) hmapped
    fun span => ?_
  rw [filter_placeOrder, List.filter_map, List.filter_map, filter_placeOrder_of_pairwise]
  refine List.pairwise_filter.2 ((hapart.and hpast).imp_of_mem fun {a b} ha hb hab hspan hspan' => ?_)
  exact before_of_clamp_eq (hle a ha) hab.1 hab.2
    ((of_decide_eq_true hspan).trans (of_decide_eq_true hspan').symm)

end TextEdit

namespace EditSet

open Text TextEdit

theorem applyTo_of_apart {s : EditSet} {file : FileId}
    (hapart : (s.editsFor file).Pairwise fun a b => a.overlaps b = false) (source : String) :
    s.applyTo file source = match applyAll? (s.editsFor file) source.toList with
      | some cs => .ok (String.ofList cs)
      | none => .error .splitsCharacter := by
  have hnone := (EditConflict.first?_eq_none_iff _).2 hapart
  cases hall : applyAll? (s.editsFor file) source.toList with
  | some cs => simp only [applyTo, hnone, hall]
  | none => simp only [applyTo, hnone, hall]

/-- Edits that do not overlap and whose ends in the text are between characters are applied as if their
ends past the end of the text were that end, if none writes text after one that ends past it: the new texts
stand in the order of the starts, ends and numbers of their edits, and none is deleted. It is the text that
the edits with their ends moved give, if those at the end of the text or past it were added in the order of
their places. -/
theorem applyTo_eq_splice_clamp {s : EditSet} {file : FileId} {source : String}
    (hplaced : ∀ e ∈ s.editsFor file, e.span.start ≤ e.span.stop ∧
      (e.span.start ≤ byteSize source.toList → IsBoundary source.toList e.span.start) ∧
      (e.span.stop ≤ byteSize source.toList → IsBoundary source.toList e.span.stop))
    (hapart : (s.editsFor file).Pairwise fun a b => a.overlaps b = false)
    (hlast : (placeOrder (s.editsFor file)).Pairwise fun a b =>
      byteSize source.toList < a.span.stop → b.newText = "") :
    ∃ (ordered : List (TextEdit × Nat)) (out : List Char),
      ordered.Perm (s.editsFor file).zipIdx ∧ ordered.Pairwise Precedes ∧
      splice? 0 (ordered.map fun e => e.1.clamp (byteSize source.toList)) source.toList = some out ∧
      s.applyTo file source = .ok (String.ofList out) ∧
      ∀ s' : EditSet, s'.editsFor file = (s.editsFor file).map (clamp (byteSize source.toList)) →
        ((s.editsFor file).Pairwise fun a b => byteSize source.toList ≤ a.span.start →
          byteSize source.toList ≤ b.span.start → a.span.before b.span = true) →
        s'.applyTo file source = .ok (String.ofList out) := by
  let n := byteSize source.toList
  let edits := s.editsFor file
  have hle : ∀ e ∈ edits, e.span.start ≤ e.span.stop := fun e he => (hplaced e he).1
  have hperm : (placeOrder edits).Perm edits := List.mergeSort_perm _ _
  have hspaced := spaced_placeOrder hle hapart
  have hb : ∀ e ∈ edits.map (clamp n),
      IsBoundary source.toList e.span.start ∧ IsBoundary source.toList e.span.stop := by
    intro e he
    obtain ⟨f, hf, rfl⟩ := List.mem_map.1 he
    exact ⟨isBoundary_min rfl (hplaced f hf).2.1, isBoundary_min rfl (hplaced f hf).2.2⟩
  have hmoved : Spaced 0 ((placeOrder edits).map (clamp n)) :=
    (hspaced.clamp n).mono (Nat.zero_le _)
  obtain ⟨out, hout⟩ := exists_splice? [] hmoved fun e he =>
    hb e ((hperm.map _).subset he)
  refine ⟨numbered edits, out, numbered_perm _, pairwise_numbered _, ?_, ?_, ?_⟩
  · rw [← hout, ← map_fst_numbered, List.map_map]
    rfl
  · have hall : applyAll? edits source.toList = some out := by
      rw [applyAll?, show applicationOrder edits = (placeOrder edits).reverse from rfl,
        foldlM_reverse_clamp hspaced rfl hlast]
      exact foldlM_reverse_eq [] hmoved hout
    rw [applyTo_of_apart hapart, hall]
  · intro s' hs' hpast
    have hle' : ∀ e ∈ edits.map (clamp n), e.span.start ≤ e.span.stop := by
      intro e he
      obtain ⟨f, hf, rfl⟩ := List.mem_map.1 he
      exact clamp_start_le (hle f hf) n
    have hapart' : (edits.map (clamp n)).Pairwise fun a b => a.overlaps b = false :=
      List.pairwise_map.2 (hapart.imp_of_mem fun {a b} ha hb hab =>
        not_overlaps_clamp (hle a ha) (hle b hb) hab n)
    have hall : applyAll? (edits.map (clamp n)) source.toList = some out := by
      rw [applyAll?_eq_splice? hle' hb hapart', placeOrder_clamp hle hapart hpast]
      exact hout
    rw [applyTo_of_apart (hs' ▸ hapart'), hs', hall]

/-- Two insertions at the end of a text, one past it and one inside of it. -/
theorem applyTo_end_and_past :
    ∃ s s' : EditSet,
      s.editsFor 0 = [.insertAt 5 "!", .insertAt 5 "?", .insertAt 9 ".", .insertAt 2 "x"] ∧
      s'.editsFor 0 = [.insertAt 5 "!", .insertAt 5 "?", .insertAt 5 ".", .insertAt 2 "x"] ∧
      s.applyTo 0 "short" = .ok "shxort!?." ∧ s'.applyTo 0 "short" = .ok "shxort!?." := by
  let edits : List TextEdit := [.insertAt 5 "!", .insertAt 5 "?", .insertAt 9 ".", .insertAt 2 "x"]
  let s : EditSet := ⟨[(0, edits)]⟩
  let s' : EditSet := ⟨[(0, edits.map (clamp 5))]⟩
  let text : List Char := ['s', 'h', 'o', 'r', 't']
  have horder : placeOrder edits =
      [.insertAt 2 "x", .insertAt 5 "!", .insertAt 5 "?", .insertAt 9 "."] := by
    simp [placeOrder, edits, List.mergeSort, insertAt, Span.before, Span.point]
  have hplaced : ∀ e ∈ s.editsFor 0, e.span.start ≤ e.span.stop ∧
      (e.span.start ≤ byteSize text → IsBoundary text e.span.start) ∧
      (e.span.stop ≤ byteSize text → IsBoundary text e.span.stop) := by
    have h2 : IsBoundary text 2 := ⟨['s', 'h'], ['o', 'r', 't'], rfl, rfl⟩
    have h5 : IsBoundary text 5 := ⟨text, [], rfl, rfl⟩
    intro e he
    have he : e ∈ edits := he
    simp only [edits, List.mem_cons, List.not_mem_nil, or_false] at he
    rcases he with rfl | rfl | rfl | rfl
    · exact ⟨by decide, fun _ => h5, fun _ => h5⟩
    · exact ⟨by decide, fun _ => h5, fun _ => h5⟩
    · exact ⟨by decide, fun h => absurd h (by decide), fun h => absurd h (by decide)⟩
    · exact ⟨by decide, fun _ => h2, fun _ => h2⟩
  have hlast : (placeOrder (s.editsFor 0)).Pairwise fun a b =>
      byteSize text < a.span.stop → b.newText = "" := by
    rw [show s.editsFor 0 = edits from rfl, horder]
    decide
  obtain ⟨ordered, out, -, -, -, hout, hsame⟩ :=
    @applyTo_eq_splice_clamp s 0 "short" hplaced (by decide) hlast
  have htext : s.applyTo 0 "short" = .ok "shxort!?." := by
    rw [applyTo_of_apart (by decide), applyAll?,
      show applicationOrder (s.editsFor 0) = (placeOrder edits).reverse from rfl, horder]
    rfl
  rw [htext] at hout
  exact ⟨s, s', rfl, rfl, htext, hout ▸ hsame s' rfl (by decide)⟩

/-- Past the end, two insertions at one offset stand in the other order, an insertion is deleted by a
replacement before it, and a character is split. -/
theorem applyTo_past_end :
    (⟨[(0, [.insertAt 10 "a", .insertAt 10 "b"])]⟩ : EditSet).applyTo 0 "short" = .ok "shortba" ∧
    (⟨[(0, [⟨⟨4, 10⟩, "X"⟩, .insertAt 10 "b"])]⟩ : EditSet).applyTo 0 "short" = .ok "shorX" ∧
    (⟨[(0, [.insertAt 6 "a", .insertAt 7 "é"])]⟩ : EditSet).applyTo 0 "short" =
      .error .splitsCharacter := by
  refine ⟨?_, ?_, ?_⟩
  · exact applyTo_of_pairwise rfl (by decide) (by decide +kernel)
  · exact applyTo_of_pairwise rfl (by decide) (by decide +kernel)
  · have hall : applyAll? [insertAt 6 "a", insertAt 7 "é"] "short".toList = none := by
      rw [applyAll?, applicationOrder, List.mergeSort_of_pairwise (by decide)]
      decide +kernel
    have hedits : (⟨[(0, [insertAt 6 "a", insertAt 7 "é"])]⟩ : EditSet).editsFor 0 =
        [insertAt 6 "a", insertAt 7 "é"] := rfl
    rw [applyTo_of_apart (by decide), hedits, hall]

end EditSet

end SelfTypeLint
