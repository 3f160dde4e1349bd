import SelfTypeLint.Text.Span

/-!
# Text edits

A `TextEdit` exchanges the text of a span for another text; with an empty span it inserts. An
`EditSet` holds the edits of several documents, each document's in the order in which they were
added. The edits of a document are applied from the end of its text to the start, so that none moves
the place of one still to be applied; insertions at one offset keep the order of adding. Two edits
that overlap cannot both be applied.
-/

namespace SelfTypeLint

/-- The exchange of a span for a new text. -/
structure TextEdit where
  span : Span
  newText : String
  deriving DecidableEq, Repr, Inhabited

namespace TextEdit

/-- The insertion of a text at an offset. -/
def insertAt (offset : Nat) (text : String) : TextEdit := ⟨.point offset, text⟩

/-- Holds of insertions. -/
def isInsert (e : TextEdit) : Bool := e.span.isEmpty

/-- Holds of two edits that touch overlapping text. Insertions never overlap each other, and an
insertion overlaps a replacement only strictly inside of it. -/
def overlaps (a b : TextEdit) : Bool :=
  if a.isInsert && b.isInsert then false
  else if a.span.before b.span then decide (b.span.start < a.span.stop)
  else decide (a.span.start < b.span.stop)

/-- The text after one edit; none if an end of the span is inside a character. Offsets past the end
count as the end. -/
def applyTo? (e : TextEdit) (cs : List Char) : Option (List Char) :=
  let size := Text.byteSize cs
  let start := min e.span.start size
  Text.replace? start (max (min e.span.stop size) start) e.newText.toList cs

/-- The order in which edits are applied: the later place first, and at one place the edit added
last. -/
def applicationOrder (edits : List TextEdit) : List TextEdit :=
  (edits.mergeSort fun a b => a.span.before b.span).reverse

/-- The text after several edits. -/
def applyAll? (edits : List TextEdit) (cs : List Char) : Option (List Char) :=
  (applicationOrder edits).foldlM (fun text e => e.applyTo? text) cs

theorem overlaps_self (e : TextEdit) (h : e.span.start < e.span.stop) : e.overlaps e = true := by
  simp [overlaps, isInsert, Span.isEmpty, Nat.ne_of_lt h, h]

/-- Insertions never overlap. -/
theorem not_overlaps_of_isInsert {a b : TextEdit} (ha : a.isInsert = true)
    (hb : b.isInsert = true) : a.overlaps b = false := by
  simp [overlaps, ha, hb]

/-- Every edit has its turn, once. -/
theorem applicationOrder_perm (edits : List TextEdit) : (applicationOrder edits).Perm edits :=
  (List.reverse_perm _).trans (List.mergeSort_perm _ _)

end TextEdit

/-- Two edits of one document that cannot both be applied. -/
structure EditConflict where
  edit1 : TextEdit
  edit2 : TextEdit
  deriving DecidableEq, Repr, Inhabited

namespace EditConflict

/-- The first two edits of a list that overlap. -/
def first? : List TextEdit → Option EditConflict
  | [] => none
  | e :: es =>
    match es.find? e.overlaps with
    | some e' => some ⟨e, e'⟩
    | none => first? es

/-- The wording of a conflict. -/
def message (c : EditConflict) : String :=
  "edits overlap: " ++ c.edit1.span.render ++ " and " ++ c.edit2.span.render

/-- There is no conflict exactly if no edit overlaps a later one. -/
theorem first?_eq_none_iff (edits : List TextEdit) :
    first? edits = none ↔ edits.Pairwise fun a b => a.overlaps b = false := by
  induction edits with
  | nil => simp [first?]
  | cons e es ih =>
    rw [List.pairwise_cons, first?]
    cases h : es.find? e.overlaps with
    | none => simp_all
    | some e' =>
      have hp := List.find?_some h
      have hm := List.mem_of_find?_eq_some h
      simp only [reduceCtorEq, false_iff, not_and]
      intro hall
      simp [hall e' hm] at hp

end EditConflict

/-- Why edits cannot be applied. -/
inductive EditError
  | conflict (conflict : EditConflict)
  /-- An end of some span is inside a character. -/
  | splitsCharacter
  deriving DecidableEq, Repr

/-- Edits of several documents, in the order of the document numbers. -/
structure EditSet where
  changes : List (FileId × List TextEdit)
  deriving DecidableEq, Repr, Inhabited

namespace EditSet

/-- No edits. -/
def empty : EditSet := ⟨[]⟩

/-- A list of changes with one more edit. -/
def pushTo (file : FileId) (edit : TextEdit) :
    List (FileId × List TextEdit) → List (FileId × List TextEdit)
  | [] => [(file, [edit])]
  | (f, edits) :: rest =>
    if file < f then (file, [edit]) :: (f, edits) :: rest
    else if file = f then (f, edits ++ [edit]) :: rest
    else (f, edits) :: pushTo file edit rest

/-- Adds an edit of a document after those it has. -/
def push (s : EditSet) (file : FileId) (edit : TextEdit) : EditSet :=
  ⟨pushTo file edit s.changes⟩

/-- The edits of one document as a set. -/
def ofEdits (file : FileId) (edits : List TextEdit) : EditSet :=
  edits.foldl (·.push file ·) empty

/-- Holds if there is no edit. -/
def isEmpty (s : EditSet) : Bool := s.changes.all (·.2.isEmpty)

/-- The documents that have edits, in order. -/
def files (s : EditSet) : List FileId :=
  (s.changes.filter fun c => !c.2.isEmpty).map (·.1)

/-- The edits of a document, in the order of adding. -/
def editsFor (s : EditSet) (file : FileId) : List TextEdit :=
  ((s.changes.find? fun c => c.1 == file).map (·.2)).getD []

/-- Number of edits in all documents. -/
def editCount (s : EditSet) : Nat := (s.changes.flatMap (·.2)).length

/-- The text of a document after its edits. Nothing is applied if two of them overlap. -/
def applyTo (s : EditSet) (file : FileId) (source : String) : Except EditError String :=
  let edits := s.editsFor file
  match EditConflict.first? edits with
  | some conflict => .error (.conflict conflict)
  | none =>
    match TextEdit.applyAll? edits source.toList with
    | some cs => .ok (String.ofList cs)
    | none => .error .splitsCharacter

@[simp] theorem editsFor_empty (file : FileId) : empty.editsFor file = [] := rfl

/-- The documents stand in increasing order. -/
def Ordered (s : EditSet) : Prop := (s.changes.map (·.1)).Pairwise (· < ·)

theorem ordered_empty : empty.Ordered := List.Pairwise.nil

private theorem mem_files_pushTo {file f : FileId} {edit : TextEdit}
    {changes : List (FileId × List TextEdit)}
    (h : f ∈ (pushTo file edit changes).map (·.1)) : f = file ∨ f ∈ changes.map (·.1) := by
  induction changes with
  | nil => simpa [pushTo] using h
  | cons c rest ih =>
    obtain ⟨g, edits⟩ := c
    simp only [pushTo] at h
    split at h
    · simpa using h
    · split at h
      · simpa using Or.inr h
      · rcases List.mem_cons.1 h with h | h
        · simp [h]
        · rcases ih h with h | h
          · exact Or.inl h
          · exact Or.inr (List.mem_cons_of_mem _ h)

/-- Adding an edit keeps the order of the documents. -/
theorem Ordered.push {s : EditSet} (h : s.Ordered) (file : FileId) (edit : TextEdit) :
    (s.push file edit).Ordered := by
  obtain ⟨changes⟩ := s
  simp only [Ordered, EditSet.push] at h ⊢
  induction changes with
  | nil => simp [pushTo]
  | cons c rest ih =>
    obtain ⟨g, edits⟩ := c
    obtain ⟨hg, hr⟩ := List.pairwise_cons.1 h
    simp only [pushTo]
    split
    · next hlt =>
      refine List.pairwise_cons.2 ⟨fun f hf => ?_, h⟩
      rcases List.mem_cons.1 hf with hf | hf
      · exact hf ▸ hlt
      · exact Nat.lt_trans hlt (hg f hf)
    · split
      · exact h
      · next hge hne =>
        refine List.pairwise_cons.2 ⟨fun f hf => ?_, ih hr⟩
        rcases mem_files_pushTo hf with hf | hf
        · exact hf ▸ Nat.lt_of_le_of_ne (Nat.not_lt.1 hge) (Ne.symm hne)
        · exact hg f hf

private theorem find_eq_none_of_lt {file : FileId} {changes : List (FileId × List TextEdit)}
    (h : ∀ f ∈ changes.map (·.1), file < f) :
    changes.find? (fun c => c.1 == file) = none := by
  rw [List.find?_eq_none]
  intro c hc
  simpa using Nat.ne_of_gt (h c.1 (List.mem_map_of_mem hc))

/-- An added edit comes after those of its document, and no other document changes. -/
theorem editsFor_push {s : EditSet} (h : s.Ordered) (file f : FileId) (edit : TextEdit) :
    (s.push file edit).editsFor f =
      if f = file then s.editsFor f ++ [edit] else s.editsFor f := by
  obtain ⟨changes⟩ := s
  simp only [editsFor, push]
  induction changes with
  | nil =>
    by_cases hf : f = file
    · simp [pushTo, hf]
    · simp [pushTo, hf, Ne.symm hf]
  | cons c rest ih =>
    obtain ⟨g, edits⟩ := c
    obtain ⟨hg, hr⟩ := List.pairwise_cons.1 h
    simp only [pushTo]
    split
    · next hlt =>
      by_cases hf : f = file
      · have hn : ((g, edits) :: rest).find? (fun c => c.1 == file) = none := by
          apply find_eq_none_of_lt
          intro x hx
          rcases List.mem_cons.1 hx with hx | hx
          · exact hx ▸ hlt
          · exact Nat.lt_trans hlt (hg x hx)
        subst hf
        rw [hn]
        simp
      · simp [hf, Ne.symm hf]
    · split
      · next heq =>
        subst heq
        by_cases hf : f = file
        · simp [hf]
        · simp [hf, Ne.symm hf]
      · next hne =>
        have := ih hr
        by_cases hgf : g = f
        · subst hgf
          simp [Ne.symm hne]
        · simpa [hgf] using this

end EditSet

end SelfTypeLint
