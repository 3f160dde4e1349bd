import SelfTypeLint.Proofs.Fix.Added
import SelfTypeLint.Proofs.Fix.Applies

/-!
# One document edited

Edits of one document put another text in its place and leave the other documents as they are
(`withEdit_ofEdits`). Two insertions can be done one after the other, the second one at the place that its
offset has in the text with the first (`applyAll?_pair`).
-/

namespace SelfTypeLint

namespace TextEdit

open Text Respelling

theorem applyAll?_singleton (e : TextEdit) (cs : List Char) : applyAll? [e] cs = e.applyTo? cs := by
  simp [applyAll?, applicationOrder]

theorem before_insertAt (m n : Nat) (x y : String) :
    (insertAt m x).span.before (insertAt n y).span = decide (m ≤ n) := by
  rw [Bool.eq_iff_iff, decide_eq_true_iff]
  simp only [insertAt, Span.point, Span.before, Bool.or_eq_true, Bool.and_eq_true, beq_iff_eq]
  constructor
  · rintro (h | ⟨rfl, -⟩)
    · exact Nat.le_of_lt (of_decide_eq_true h)
    · exact Nat.le_refl m
  · intro h
    rcases Nat.lt_or_eq_of_le h with h | rfl <;> simp_all

/-- Of two insertions the later one is done first. -/
theorem applicationOrder_pair (m n : Nat) (x y : String) : applicationOrder [insertAt m x, insertAt n y] =
    if m ≤ n then [insertAt n y, insertAt m x] else [insertAt m x, insertAt n y] := by
  split
  · next h => simp [applicationOrder, List.mergeSort, before_insertAt, h]
  · next h => simp [applicationOrder, List.mergeSort, before_insertAt, h]

/-- Of two insertions the first may be done before the second, which then stands where the first one has
moved its offset. -/
theorem applyAll?_pair {front back front' back' : List Char} {offset : Nat} {x y : String}
    (h : front ++ x.toList ++ back = front' ++ back')
    (hplace : byteSize front' = (behind (byteSize front) (byteSize (front ++ x.toList))).place offset) :
    applyAll? [insertAt (byteSize front) x, insertAt offset y] (front ++ back) =
      some (front' ++ y.toList ++ back') := by
  have hinsert : ∀ (front back : List Char) (x : String), (insertAt (byteSize front) x).applyTo? (front ++ back) =
      some (front ++ x.toList ++ back) := by
    intro front back x
    have h := applyTo?_append (insertAt (byteSize front) x) front [] back rfl rfl
    rwa [List.append_nil] at h
  simp only [behind, move] at hplace
  rw [applyAll?, applicationOrder_pair]
  by_cases hlt : offset < byteSize front
  · -- The second one stands in front, so that it is the last one done.
    rw [if_pos hlt] at hplace
    subst hplace
    rw [List.append_assoc] at h
    obtain ⟨es, rfl, rfl⟩ := append_split h.symm (Nat.le_of_lt hlt)
    have hsecond := hinsert front' (es ++ (x.toList ++ back)) y
    rw [if_neg (Nat.not_le.2 hlt), List.foldlM_cons, hinsert]
    simpa using hsecond
  · rw [if_neg hlt] at hplace
    obtain ⟨es, rfl, rfl⟩ := append_split h (by rw [hplace]; omega)
    have hoffset : offset = byteSize (front ++ es) := by
      simp only [byteSize_append] at hplace ⊢
      omega
    have hfirst := hinsert (front ++ es) back' y
    rw [if_pos (by omega), List.foldlM_cons, hoffset, ← List.append_assoc, hfirst]
    have hsecond := hinsert front (es ++ y.toList ++ back') x
    simpa using hsecond

end TextEdit

namespace Workspace

/-- The texts of a workspace with another one for one document. -/
def withText (w : Workspace) (file : FileId) (text : String) : List SourceText :=
  w.documents.map fun doc => { doc.source with text := if doc.id = file then text else doc.text }

variable {sources : List SourceText} {file : FileId} {doc : Document} {text : String}

/-- Edits of one document put another text in its place. -/
theorem withEdit_ofEdits (hdoc : (build sources).document? file = some doc) {edits : List TextEdit}
    (hapart : edits.Pairwise fun a b => a.overlaps b = false)
    (happly : TextEdit.applyAll? edits doc.text.toList = some text.toList) :
    (build sources).withEdit (.ofEdits file edits) = .ok (build ((build sources).withText file text)) := by
  refine withEdit_eq fun doc' hdoc' => ?_
  have hat := mem_documents_iff.1 hdoc'
  have hedits := (EditSet.editsFor_ofEdits file edits).2 doc'.id
  unfold EditSet.applyTo
  dsimp only
  split at hedits
  · next h =>
    rw [h, hdoc] at hat
    obtain rfl := Option.some.inj hat
    rw [hedits, (EditConflict.first?_eq_none_iff _).2 hapart, happly, if_pos h]
    simp
  · next h =>
    rw [hedits, if_neg h]
    simp [EditConflict.first?, TextEdit.applyAll?, TextEdit.applicationOrder]

/-- The other documents are as they were. -/
theorem document?_withText_of_ne {other : FileId} (hne : other ≠ file) :
    (build ((build sources).withText file text)).document? other = (build sources).document? other := by
  rw [document?_build, withText, List.getElem?_map, Option.map_map]
  change ((build sources).document? other).map _ = _
  rw [document?_build, Option.map_map]
  refine Option.map_congr fun s _ => ?_
  simp only [Function.comp_apply, show ¬ (Document.ofSource other s).id = file from hne, if_false]
  rfl

/-- The document with the other text is read from this. -/
theorem document?_withText (hdoc : (build sources).document? file = some doc) :
    (build ((build sources).withText file text)).document? file =
      some (.ofSource file { doc.source with text }) := by
  have hat : (build sources).documents[file]? = some doc := hdoc
  obtain ⟨hid, -, -⟩ := ofSource_of_document? hdoc
  rw [document?_build, withText, List.getElem?_map, hat, Option.map_some, Option.map_some, if_pos hid]

/-- If the new text has no faults and the old ones have none, the new documents have none. -/
theorem errors_withText (hdoc : (build sources).document? file = some doc)
    (hclean : ∀ doc ∈ (build sources).documents, doc.errors = [])
    (htext : (SyntaxTree.read file text).errors = []) :
    ∀ doc ∈ (build ((build sources).withText file text)).documents, doc.errors = [] := by
  intro doc' hdoc'
  have hat := mem_documents_iff.1 hdoc'
  by_cases h : doc'.id = file
  · rw [h, document?_withText hdoc] at hat
    obtain rfl := Option.some.inj hat
    exact htext
  · rw [document?_withText_of_ne h] at hat
    exact hclean doc' (mem_documents_iff.2 hat)

end Workspace

namespace Fix

open Text Token Grammar Respelling

variable {file : FileId} {source : String}

theorem attributeOffset_typeParam (m : Respelling) (p : TypeParam) :
    (m.typeParam p).attributeOffset = m.place p.attributeOffset := by
  simp only [TypeParam.attributeOffset, typeParam]
  cases p.variance <;> rfl

end Fix

end SelfTypeLint
