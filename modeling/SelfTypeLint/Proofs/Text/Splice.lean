import SelfTypeLint.Text.Edit

/-!
# Splicing

The edits of a document are applied from the end of its text to the start. `splice?` reads the same
edits from the start to the end: it copies what stands between two of them and puts each new text in
its place. The main statement, `applyAll?_eq_splice?`, says that both give one text for edits that do
not overlap and whose ends are not inside a character, and `exists_applyAll?` that there is one.
-/

namespace SelfTypeLint

namespace Text

/-- Holds of the offsets between two characters of a text and at its ends. -/
def IsBoundary (cs : List Char) (n : Nat) : Prop :=
  ∃ front back, cs = front ++ back ∧ byteSize front = n

/-- Only the empty text takes no bytes. -/
theorem eq_nil_of_byteSize_eq_zero {cs : List Char} (h : byteSize cs = 0) : cs = [] := by
  cases cs with
  | nil => rfl
  | cons c cs =>
    have := c.utf8Size_pos
    rw [byteSize_cons] at h
    omega

/-- Of two leading pieces the one with fewer bytes begins the other. -/
theorem append_split {as bs cs ds : List Char} (h : as ++ bs = cs ++ ds)
    (hle : byteSize as ≤ byteSize cs) : ∃ es, cs = as ++ es ∧ bs = es ++ ds := by
  induction as generalizing cs with
  | nil => exact ⟨cs, rfl, h⟩
  | cons a as ih =>
    cases cs with
    | nil =>
      have := a.utf8Size_pos
      rw [byteSize_nil, byteSize_cons] at hle
      omega
    | cons c cs =>
      simp only [List.cons_append, List.cons.injEq] at h
      obtain ⟨rfl, h⟩ := h
      rw [byteSize_cons, byteSize_cons] at hle
      obtain ⟨es, rfl, rfl⟩ := ih h (by omega)
      exact ⟨es, rfl, rfl⟩

/-- A later boundary of a text is a boundary of what follows an earlier one. -/
theorem IsBoundary.of_append {front cs : List Char} {n : Nat} (h : IsBoundary (front ++ cs) n)
    (hn : byteSize front ≤ n) : IsBoundary cs (n - byteSize front) := by
  obtain ⟨f, b, he, rfl⟩ := h
  obtain ⟨es, rfl, rfl⟩ := append_split he hn
  exact ⟨es, b, rfl, by rw [byteSize_append]; omega⟩

end Text

namespace TextEdit

open Text

/-- The edits of a document by their places; those at one place in the order of adding. -/
def placeOrder (edits : List TextEdit) : List TextEdit :=
  edits.mergeSort fun a b => a.span.before b.span

/-- The text after edits that stand in the order of their places, where the text begins at an
offset; none if an end of a span is not a boundary. -/
def splice? : Nat → List TextEdit → List Char → Option (List Char)
  | _, [], cs => some cs
  | offset, e :: es, cs => do
    let (front, rest) ← splitAt? (e.span.start - offset) cs
    let (_, back) ← splitAt? (e.span.stop - e.span.start) rest
    let out ← splice? e.span.stop es back
    return front ++ e.newText.toList ++ out

/-- Holds of edits that stand one after another from an offset on. -/
def Spaced : Nat → List TextEdit → Prop
  | _, [] => True
  | offset, e :: es => offset ≤ e.span.start ∧ e.span.start ≤ e.span.stop ∧ Spaced e.span.stop es

theorem Spaced.le_of_mem {offset : Nat} {es : List TextEdit} (h : Spaced offset es)
    {e : TextEdit} (he : e ∈ es) : offset ≤ e.span.start ∧ e.span.start ≤ e.span.stop := by
  induction es generalizing offset with
  | nil => simp at he
  | cons f es ih =>
    obtain ⟨h1, h2, h3⟩ := h
    rcases List.mem_cons.1 he with rfl | he
    · exact ⟨h1, h2⟩
    · have := ih h3 he
      omega

theorem Spaced.mono {m n : Nat} {es : List TextEdit} (h : Spaced n es) (hm : m ≤ n) :
    Spaced m es := by
  cases es with
  | nil => trivial
  | cons e es => exact ⟨Nat.le_trans hm h.1, h.2⟩

theorem Spaced.of_le {m n : Nat} {es : List TextEdit} (h : Spaced n es)
    (hm : ∀ e ∈ es, m ≤ e.span.start) : Spaced m es := by
  cases es with
  | nil => trivial
  | cons e es => exact ⟨hm e List.mem_cons_self, h.2⟩

/-- Text in front of the first edit is copied. -/
theorem splice?_append {offset : Nat} {front cs out : List Char} {es : List TextEdit}
    (hstart : ∀ e ∈ es, offset + byteSize front ≤ e.span.start)
    (h : splice? (offset + byteSize front) es cs = some out) :
    splice? offset es (front ++ cs) = some (front ++ out) := by
  cases es with
  | nil => exact congrArg (some <| front ++ ·) (Option.some.inj h)
  | cons e es =>
    have hle := hstart e List.mem_cons_self
    simp only [splice?, Option.bind_eq_bind, Option.bind_eq_some_iff, Option.pure_def] at h ⊢
    obtain ⟨⟨keep, rest⟩, hkeep, ⟨old, back⟩, hold, tail, htail, hout⟩ := h
    obtain ⟨rfl, hsize⟩ := splitAt?_eq_some hkeep
    refine ⟨⟨front ++ keep, rest⟩, ?_, ⟨old, back⟩, hold, tail, htail, ?_⟩
    · rw [splitAt?_eq_some_iff, List.append_assoc, byteSize_append]
      exact ⟨rfl, by omega⟩
    · rw [← Option.some.inj hout]
      simp

/-- An edit whose span lies in the text exchanges the piece there. -/
theorem applyTo?_append (e : TextEdit) (front old back : List Char)
    (hstart : byteSize front = e.span.start)
    (hstop : byteSize front + byteSize old = e.span.stop) :
    e.applyTo? (front ++ old ++ back) = some (front ++ e.newText.toList ++ back) := by
  have h1 : min e.span.start (byteSize (front ++ old ++ back)) = byteSize front := by
    simp only [byteSize_append]; omega
  have h2 : max (min e.span.stop (byteSize (front ++ old ++ back))) (byteSize front)
      - byteSize front = byteSize old := by
    simp only [byteSize_append]; omega
  simp only [applyTo?, h1, replace?, h2]
  rw [List.append_assoc, splitAt?_append]
  simp [splitAt?_append]

/-- Applying spaced edits from the last to the first gives what splicing gives. -/
theorem foldlM_reverse_eq (front : List Char) {es : List TextEdit} {cs out : List Char}
    (hs : Spaced (byteSize front) es) (h : splice? (byteSize front) es cs = some out) :
    es.reverse.foldlM (fun text e => e.applyTo? text) (front ++ cs) = some (front ++ out) := by
  induction es generalizing front cs out with
  | nil =>
    obtain rfl := Option.some.inj h
    rfl
  | cons e es ih =>
    obtain ⟨h1, h2, h3⟩ := hs
    simp only [splice?, Option.bind_eq_bind, Option.bind_eq_some_iff, Option.pure_def] at h
    obtain ⟨⟨keep, rest⟩, hk, ⟨old, back⟩, ho, tail, ht, hout⟩ := h
    obtain ⟨rfl, hk⟩ := splitAt?_eq_some hk
    obtain ⟨rfl, ho⟩ := splitAt?_eq_some ho
    obtain rfl := Option.some.inj hout
    have hsize : byteSize (front ++ keep ++ old) = e.span.stop := by
      simp only [byteSize_append]; omega
    rw [← hsize] at h3 ht
    rw [List.reverse_cons, List.foldlM_append]
    have := ih (front ++ keep ++ old) h3 ht
    rw [show front ++ (keep ++ (old ++ back)) = front ++ keep ++ old ++ back by simp, this]
    have := e.applyTo?_append (front ++ keep) old tail
      (by simp only [byteSize_append]; omega) (by simp only [byteSize_append]; omega)
    simpa using this

/-- Spaced edits whose ends are boundaries can be spliced. -/
theorem exists_splice? (front : List Char) {es : List TextEdit} {cs : List Char}
    (hs : Spaced (byteSize front) es)
    (hb : ∀ e ∈ es, IsBoundary (front ++ cs) e.span.start ∧ IsBoundary (front ++ cs) e.span.stop) :
    ∃ out, splice? (byteSize front) es cs = some out := by
  induction es generalizing front cs with
  | nil => exact ⟨cs, rfl⟩
  | cons e es ih =>
    obtain ⟨h1, h2, h3⟩ := hs
    obtain ⟨hb1, hb2⟩ := hb e List.mem_cons_self
    obtain ⟨keep, rest, rfl, hk⟩ := hb1.of_append h1
    rw [← List.append_assoc] at hb2
    obtain ⟨old, back, rfl, ho⟩ := hb2.of_append (by rw [byteSize_append]; omega)
    have hsize : byteSize (front ++ keep ++ old) = e.span.stop := by
      simp only [byteSize_append] at ho ⊢; omega
    have ho' : byteSize old = e.span.stop - e.span.start := by
      rw [ho, byteSize_append]; omega
    obtain ⟨tail, ht⟩ := ih (front ++ keep ++ old) (hsize ▸ h3)
      (fun f hf => by simpa using hb f (List.mem_cons_of_mem _ hf))
    rw [hsize] at ht
    exact ⟨keep ++ e.newText.toList ++ tail, by
      simp [splice?, ← hk, ← ho', splitAt?_append, ht]⟩

/-! ## Edits that do not overlap -/

/-- Which of two edits is asked does not matter. -/
theorem overlaps_comm (a b : TextEdit) : a.overlaps b = b.overlaps a := by
  rw [Bool.eq_iff_iff]
  simp only [overlaps, isInsert, Span.isEmpty, Span.before, Bool.ite_eq_true_distrib,
    Bool.and_eq_true, Bool.or_eq_true, beq_iff_eq, decide_eq_true_eq]
  grind

theorem not_overlaps_of_mem {edits : List TextEdit}
    (h : edits.Pairwise fun a b => a.overlaps b = false) {a b : TextEdit} (ha : a ∈ edits)
    (hb : b ∈ edits) (hne : a ≠ b) : a.overlaps b = false := by
  induction edits with
  | nil => exact absurd ha List.not_mem_nil
  | cons e es ih =>
    obtain ⟨he, hes⟩ := List.pairwise_cons.1 h
    rcases List.mem_cons.1 ha with rfl | hae
    · rcases List.mem_cons.1 hb with rfl | hbe
      · exact absurd rfl hne
      · exact he b hbe
    · rcases List.mem_cons.1 hb with rfl | hbe
      · rw [overlaps_comm]
        exact he a hae
      · exact ih hes hae hbe

/-- Of two edits that do not overlap, the one that stands before ends where the other begins or
earlier. -/
theorem stop_le_of_not_overlaps {a b : TextEdit} (hb : a.span.before b.span = true)
    (h : a.overlaps b = false) : a.span.stop ≤ b.span.start := by
  simp only [overlaps, isInsert, Span.isEmpty, hb, if_true] at h
  simp only [Span.before, Bool.or_eq_true, Bool.and_eq_true, decide_eq_true_eq,
    beq_iff_eq] at hb
  grind

theorem before_trans (a b c : TextEdit) (h : a.span.before b.span = true)
    (h' : b.span.before c.span = true) : a.span.before c.span = true := by
  simp only [Span.before, Bool.or_eq_true, Bool.and_eq_true, decide_eq_true_eq, beq_iff_eq] at *
  omega

theorem before_total (a b : TextEdit) : (a.span.before b.span || b.span.before a.span) = true := by
  simp only [Span.before, Bool.or_eq_true, Bool.and_eq_true, decide_eq_true_eq, beq_iff_eq]
  omega

private theorem spaced_of_pairwise {es : List TextEdit} {offset : Nat}
    (hlow : ∀ e ∈ es, offset ≤ e.span.start) (hle : ∀ e ∈ es, e.span.start ≤ e.span.stop)
    (hp : es.Pairwise fun a b => a.span.stop ≤ b.span.start) : Spaced offset es := by
  induction es generalizing offset with
  | nil => trivial
  | cons e es ih =>
    obtain ⟨he, hp⟩ := List.pairwise_cons.1 hp
    exact ⟨hlow e List.mem_cons_self, hle e List.mem_cons_self,
      ih he (fun f hf => hle f (List.mem_cons_of_mem _ hf)) hp⟩

/-- In the order of their places, edits that do not overlap stand one after another. -/
theorem spaced_placeOrder {edits : List TextEdit} (hle : ∀ e ∈ edits, e.span.start ≤ e.span.stop)
    (h : edits.Pairwise fun a b => a.overlaps b = false) : Spaced 0 (placeOrder edits) := by
  have hperm : (placeOrder edits).Perm edits := List.mergeSort_perm _ _
  have hle' : ∀ e ∈ placeOrder edits, e.span.start ≤ e.span.stop :=
    fun e he => hle e (hperm.mem_iff.1 he)
  have hover : (placeOrder edits).Pairwise fun a b => a.overlaps b = false :=
    (hperm.pairwise_iff fun {a b} hab => overlaps_comm a b ▸ hab).2 h
  have hsort : (placeOrder edits).Pairwise fun a b => a.span.before b.span = true :=
    List.pairwise_mergeSort before_trans before_total edits
  refine spaced_of_pairwise (fun _ _ => Nat.zero_le _) hle' ?_
  exact (hover.and hsort).imp fun ⟨hab, hb⟩ => stop_le_of_not_overlaps hb hab

/-- Edits that do not overlap and end at boundaries give the text that splicing gives. -/
theorem applyAll?_eq_splice? {edits : List TextEdit} {cs : List Char}
    (hle : ∀ e ∈ edits, e.span.start ≤ e.span.stop)
    (hb : ∀ e ∈ edits, IsBoundary cs e.span.start ∧ IsBoundary cs e.span.stop)
    (h : edits.Pairwise fun a b => a.overlaps b = false) :
    applyAll? edits cs = splice? 0 (placeOrder edits) cs := by
  have hperm : (placeOrder edits).Perm edits := List.mergeSort_perm _ _
  have hs := spaced_placeOrder hle h
  obtain ⟨out, hout⟩ := exists_splice? [] hs
    fun e he => hb e (hperm.mem_iff.1 he)
  rw [show splice? 0 (placeOrder edits) cs = some out from hout]
  exact foldlM_reverse_eq [] hs hout

/-- Edits that do not overlap and end at boundaries can be applied. -/
theorem exists_applyAll? {edits : List TextEdit} {cs : List Char}
    (hle : ∀ e ∈ edits, e.span.start ≤ e.span.stop)
    (hb : ∀ e ∈ edits, IsBoundary cs e.span.start ∧ IsBoundary cs e.span.stop)
    (h : edits.Pairwise fun a b => a.overlaps b = false) :
    ∃ out, applyAll? edits cs = some out := by
  have hperm : (placeOrder edits).Perm edits := List.mergeSort_perm _ _
  rw [applyAll?_eq_splice? hle hb h]
  exact exists_splice? [] (spaced_placeOrder hle h)
    fun e he => hb e (hperm.mem_iff.1 he)

end TextEdit

/-- Edits that stand in the order of their places are applied from the last to the first. -/
theorem EditSet.applyTo_of_pairwise {s : EditSet} {file : FileId} {source out : String}
    (hapart : EditConflict.first? (s.editsFor file) = none)
    (hplaced : (s.editsFor file).Pairwise fun a b => a.span.before b.span = true)
    (h : (s.editsFor file).reverse.foldlM (fun text e => e.applyTo? text) source.toList =
      some out.toList) : s.applyTo file source = .ok out := by
  have hall : TextEdit.applyAll? (s.editsFor file) source.toList = some out.toList := by
    rw [TextEdit.applyAll?, TextEdit.applicationOrder, List.mergeSort_of_pairwise hplaced, h]
  unfold applyTo
  dsimp only
  rw [hapart, hall]
  dsimp only
  rw [String.ofList_toList]

end SelfTypeLint
