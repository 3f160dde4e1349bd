import SelfTypeLint.Proofs.Fix.Merge
import SelfTypeLint.Proofs.Workspace.References

/-!
# What merged edits hold

Merging puts the edits of an action after those merged before it, each edit once. It refuses the action
just if one of its edits is new and overlaps an edit merged before, and then nothing is merged. After its
turn an action is `Settled`: either all of its edits are merged or one of them never can be, and so the
same action changes nothing when it comes again.
-/

namespace SelfTypeLint

namespace EditSet

/-- The edits of a document among some changes, in their order. -/
def listed (f : FileId) (changes : List (FileId × List TextEdit)) : List TextEdit :=
  (changes.filter (·.1 = f)).flatMap (·.2)

theorem listed_cons (f : FileId) (c : FileId × List TextEdit)
    (changes : List (FileId × List TextEdit)) :
    listed f (c :: changes) = (if c.1 = f then c.2 else []) ++ listed f changes := by
  by_cases h : c.1 = f <;> simp [listed, h]

end EditSet

namespace FixAll

open EditSet

/-! ## Keeping edits once -/

section

variable {α : Type} [DecidableEq α]

/-- A list with one more element at its end, unless it has it. -/
def addNew (as : List α) (a : α) : List α := if a ∈ as then as else as ++ [a]

theorem mem_foldl_addNew {as bs : List α} {a : α} :
    a ∈ bs.foldl addNew as ↔ a ∈ as ∨ a ∈ bs := by
  induction bs generalizing as with
  | nil => simp
  | cons b bs ih =>
    rw [List.foldl_cons, ih, addNew, List.mem_cons]
    split
    · next hb => grind
    · rw [List.mem_append, List.mem_singleton, or_assoc]

/-- Adding elements leaves each of them once, where it comes first. -/
theorem foldl_addNew (as bs : List α) :
    bs.foldl addNew as = as ++ (bs.filter (· ∉ as)).eraseDups := by
  induction bs generalizing as with
  | nil => simp
  | cons b bs ih =>
    rw [List.foldl_cons, ih, addNew]
    by_cases hb : b ∈ as
    · rw [if_pos hb, List.filter_cons_of_neg (by simpa using hb)]
    · have hrest : bs.filter (· ∉ as ++ [b]) = (bs.filter (· ∉ as)).filter (fun c => !c == b) := by
        rw [List.filter_filter]
        exact List.filter_congr fun c _ => by grind
      rw [if_neg hb, List.filter_cons_of_pos (by simpa using hb), List.eraseDups_cons, ← hrest]
      simp

theorem foldl_addNew_nil (bs : List α) : bs.foldl addNew [] = bs.eraseDups := by
  rw [foldl_addNew, List.nil_append, List.filter_eq_self.2 (by simp)]

end

/-! ## Merging one action -/

/-- Holds of the edits of an action of which one is new and overlaps an edit merged before. -/
def Clashes (merged : FileId → List TextEdit) (edit : EditSet) : Prop :=
  ∃ f, ∃ e ∈ listed f edit.changes, e ∉ merged f ∧ ∃ old ∈ merged f, old.overlaps e = true

/-- Holds of an overlap between an edit of an action that is new and an edit merged before. -/
structure Overlap (merged : FileId → List TextEdit) (edit : EditSet) (f : FileId)
    (conflict : EditConflict) : Prop where
  old : conflict.edit1 ∈ merged f
  new : conflict.edit2 ∈ listed f edit.changes
  unmerged : conflict.edit2 ∉ merged f
  overlaps : conflict.edit1.overlaps conflict.edit2 = true

theorem Overlap.clashes {merged : FileId → List TextEdit} {edit : EditSet} {f : FileId}
    {conflict : EditConflict} (h : Overlap merged edit f conflict) : Clashes merged edit :=
  ⟨f, conflict.edit2, h.new, h.unmerged, conflict.edit1, h.old, h.overlaps⟩

/-- The edits found new in a document, after those that it has, are those it has with the others added. -/
theorem append_newEdits {file : FileId} {existing es : List TextEdit}
    {pending out : List (FileId × TextEdit)} (h : newEdits file existing es pending = .ok out) :
    existing ++ ofFile file out = es.foldl addNew (existing ++ ofFile file pending) ∧
      ∀ f ≠ file, ofFile f out = ofFile f pending := by
  induction es generalizing pending with
  | nil =>
    obtain rfl := Except.ok.inj h
    exact ⟨rfl, fun _ _ => rfl⟩
  | cons e es ih =>
    have hmem : e ∈ existing ++ ofFile file pending ↔
        (existing.contains e || pending.contains (file, e)) = true := by
      simp [mem_ofFile]
    rw [newEdits] at h
    split at h
    · next hold =>
      rw [List.foldl_cons, addNew, if_pos (hmem.2 hold)]
      exact ih h
    · next hnew =>
      split at h
      · exact absurd h (by simp)
      · obtain ⟨hsame, hother⟩ := ih h
        rw [List.foldl_cons, addNew, if_neg fun hin => hnew (hmem.1 hin)]
        refine ⟨?_, fun f hf => ?_⟩
        · rw [hsame, ofFile_append, ← List.append_assoc]
          simp [ofFile]
        · rw [hother f hf, ofFile_append]
          simp [ofFile, Ne.symm hf]

theorem append_newChanges {merged : EditSet} {changes : List (FileId × List TextEdit)}
    {pending out : List (FileId × TextEdit)} (h : newChanges merged changes pending = .ok out)
    (f : FileId) : merged.editsFor f ++ ofFile f out =
      (listed f changes).foldl addNew (merged.editsFor f ++ ofFile f pending) := by
  induction changes generalizing pending with
  | nil =>
    obtain rfl := Except.ok.inj h
    rfl
  | cons c changes ih =>
    obtain ⟨file, es⟩ := c
    rw [newChanges] at h
    split at h
    · next mid hmid =>
      obtain ⟨hsame, hother⟩ := append_newEdits hmid
      rw [ih h, listed_cons, List.foldl_append]
      by_cases hf : file = f
      · subst hf
        rw [if_pos rfl, hsame]
      · rw [if_neg hf, hother f (Ne.symm hf), List.foldl_nil]
    · exact absurd h (by simp)

/-- Holds of edits found new that overlap no edit merged before. -/
def Free (merged : EditSet) (pending : List (FileId × TextEdit)) : Prop :=
  ∀ f, ∀ e ∈ ofFile f pending, ∀ old ∈ merged.editsFor f, old.overlaps e = false

theorem Free.newEdits {merged : EditSet} {file : FileId} {es : List TextEdit}
    {pending out : List (FileId × TextEdit)} (h : Free merged pending)
    (hout : newEdits file (merged.editsFor file) es pending = .ok out) : Free merged out := by
  obtain ⟨new, rfl, -, hnew⟩ := newEdits_eq_ok hout
  intro f e he old hold
  rw [ofFile_append, ofFile_map, List.mem_append] at he
  rcases he with he | he
  · exact h f e he old hold
  · split at he
    · next hf => exact (hnew e he).2.2 old (hf ▸ hold)
    · exact absurd he List.not_mem_nil

theorem Free.newChanges {merged : EditSet} {changes : List (FileId × List TextEdit)}
    {pending out : List (FileId × TextEdit)} (h : Free merged pending)
    (hout : newChanges merged changes pending = .ok out) : Free merged out := by
  induction changes generalizing pending with
  | nil => exact Except.ok.inj hout ▸ h
  | cons c changes ih =>
    rw [FixAll.newChanges] at hout
    split at hout
    · next mid hmid => exact ih (h.newEdits hmid) hout
    · exact absurd hout (by simp)

/-- A document is refused for an edit that is new and overlaps one that it has. -/
theorem newEdits_eq_error {file : FileId} {existing es : List TextEdit}
    {pending : List (FileId × TextEdit)} {conflict : EditConflict}
    (h : newEdits file existing es pending = .error conflict) :
    conflict.edit1 ∈ existing ∧ conflict.edit2 ∈ es ∧ conflict.edit2 ∉ existing ∧
      conflict.edit1.overlaps conflict.edit2 = true := by
  induction es generalizing pending with
  | nil => exact absurd h (by simp [newEdits])
  | cons e es ih =>
    have hlater : ∀ {p}, newEdits file existing es p = .error conflict →
        conflict.edit1 ∈ existing ∧ conflict.edit2 ∈ e :: es ∧ conflict.edit2 ∉ existing ∧
          conflict.edit1.overlaps conflict.edit2 = true := by
      intro p h
      obtain ⟨hold, hnew, hrest⟩ := ih h
      exact ⟨hold, List.mem_cons_of_mem e hnew, hrest⟩
    rw [newEdits] at h
    split at h
    · exact hlater h
    · next hnew =>
      split at h
      · next old hfind =>
        obtain rfl := Except.error.inj h
        simp only [Bool.or_eq_true, List.contains_iff_mem, not_or] at hnew
        have hoverlaps : old.overlaps e = true := by simpa using List.find?_some hfind
        exact ⟨List.mem_of_find?_eq_some hfind, List.mem_cons_self, hnew.1, hoverlaps⟩
      · exact hlater h

theorem newChanges_eq_error {merged : EditSet} {changes : List (FileId × List TextEdit)}
    {pending : List (FileId × TextEdit)} {f : FileId} {conflict : EditConflict}
    (h : newChanges merged changes pending = .error (f, conflict)) :
    Overlap merged.editsFor ⟨changes⟩ f conflict := by
  induction changes generalizing pending with
  | nil => exact absurd h (by simp [newChanges])
  | cons c changes ih =>
    obtain ⟨file, es⟩ := c
    rw [newChanges] at h
    split at h
    · obtain ⟨hold, hnew, hunmerged, hoverlaps⟩ := ih h
      refine ⟨hold, ?_, hunmerged, hoverlaps⟩
      rw [listed_cons]
      exact List.mem_append_right _ hnew
    · next c hc =>
      obtain ⟨rfl, rfl⟩ := Prod.mk.inj (Except.error.inj h)
      obtain ⟨hold, hnew, hunmerged, hoverlaps⟩ := newEdits_eq_error hc
      refine ⟨hold, ?_, hunmerged, hoverlaps⟩
      rw [listed_cons, if_pos rfl]
      exact List.mem_append_left _ hnew

/-- Of edits that a document has none is new. -/
theorem newEdits_of_subset {file : FileId} {existing es : List TextEdit}
    (h : ∀ e ∈ es, e ∈ existing) : newEdits file existing es [] = .ok [] := by
  induction es with
  | nil => rfl
  | cons e es ih =>
    rw [newEdits, if_pos (by simp [h e List.mem_cons_self])]
    exact ih fun a ha => h a (List.mem_cons_of_mem e ha)

theorem newChanges_of_merged {merged : EditSet} {changes : List (FileId × List TextEdit)}
    (h : ∀ f, ∀ e ∈ listed f changes, e ∈ merged.editsFor f) :
    newChanges merged changes [] = .ok [] := by
  induction changes with
  | nil => rfl
  | cons c changes ih =>
    obtain ⟨file, es⟩ := c
    simp only [listed_cons, List.mem_append] at h
    rw [newChanges, newEdits_of_subset fun e he => h file e (.inl (by rwa [if_pos rfl]))]
    exact ih fun f e he => h f e (.inr he)

section

variable {merged edit s : EditSet}

/-- What merging gives holds the edits merged before and after them the others of the action, each once. -/
theorem editsFor_merge (hm : merged.Ordered) (h : merge merged edit = .ok s) :
    s.Ordered ∧ ∀ f, s.editsFor f = (listed f edit.changes).foldl addNew (merged.editsFor f) := by
  obtain ⟨out, hout, h⟩ := exists_of_bind_eq_ok h
  obtain rfl : _ = s := Except.ok.inj h
  obtain ⟨hordered, hfor⟩ := editsFor_foldl_push hm out
  refine ⟨hordered, fun f => (hfor f).trans ?_⟩
  rw [append_newChanges hout, show ofFile f [] = [] from rfl, List.append_nil]

/-- The edits of an action that is merged do not clash with those merged before. -/
theorem not_clashes_of_merge (h : merge merged edit = .ok s) : ¬ Clashes merged.editsFor edit := by
  rintro ⟨f, e, he, hnew, old, hold, hoverlaps⟩
  obtain ⟨out, hout, -⟩ := exists_of_bind_eq_ok h
  have hin : e ∈ merged.editsFor f ++ ofFile f out := by
    rw [append_newChanges hout, mem_foldl_addNew]
    exact .inr he
  have hfree : Free merged out := Free.newChanges (fun _ _ h => absurd h List.not_mem_nil) hout
  have hnone := hfree f e ((List.mem_append.1 hin).resolve_left hnew) old hold
  exact absurd (hoverlaps.symm.trans hnone) (by simp)

/-- An action is refused for an overlap. -/
theorem overlap_of_merge {f : FileId} {conflict : EditConflict}
    (h : merge merged edit = .error (f, conflict)) : Overlap merged.editsFor edit f conflict := by
  rw [merge] at h
  cases hout : newChanges merged edit.changes [] with
  | error c =>
    rw [hout] at h
    obtain rfl : c = (f, conflict) := Except.error.inj h
    exact newChanges_eq_error hout
  | ok out =>
    rw [hout] at h
    exact absurd h (by simp [bind, Except.bind, pure, Except.pure])

/-- Edits that are all merged already are merged by changing nothing. -/
theorem merge_eq_self (h : ∀ f, ∀ e ∈ listed f edit.changes, e ∈ merged.editsFor f) :
    merge merged edit = .ok merged := by
  rw [merge, newChanges_of_merged h]
  rfl

/-! ## Actions that had their turn -/

/-- Holds of the edits of an action of which all are merged, or of which one clashes with merged edits. -/
def Settled (merged edit : EditSet) : Prop :=
  (∀ f, ∀ e ∈ listed f edit.changes, e ∈ merged.editsFor f) ∨ Clashes merged.editsFor edit

/-- Merging another action leaves an action settled: an edit that overlaps a merged one is never merged
itself. -/
theorem Settled.merge {edit' : EditSet} (h : Settled merged edit) (hm : merged.Ordered)
    (hmerge : merge merged edit' = .ok s) : Settled s edit := by
  obtain ⟨-, hfor⟩ := editsFor_merge hm hmerge
  have hkept : ∀ f, ∀ e ∈ merged.editsFor f, e ∈ s.editsFor f := fun f e he => by
    rw [hfor, mem_foldl_addNew]
    exact .inl he
  rcases h with hall | ⟨f, e, he, hnew, old, hold, hoverlaps⟩
  · exact .inl fun f e he => hkept f e (hall f e he)
  · refine .inr ⟨f, e, he, fun hin => ?_, old, hkept f old hold, hoverlaps⟩
    rw [hfor, mem_foldl_addNew] at hin
    have he' := hin.resolve_left hnew
    exact not_clashes_of_merge hmerge ⟨f, e, he', hnew, old, hold, hoverlaps⟩

/-- An action is settled after it is merged. -/
theorem settled_of_merge (hm : merged.Ordered) (hmerge : merge merged edit = .ok s) :
    Settled s edit := by
  obtain ⟨-, hfor⟩ := editsFor_merge hm hmerge
  refine .inl fun f e he => ?_
  rw [hfor, mem_foldl_addNew]
  exact .inr he

/-- Merging an action that is settled changes nothing. -/
theorem Settled.eq_of_merge (h : Settled merged edit) (hmerge : FixAll.merge merged edit = .ok s) :
    s = merged := by
  rcases h with hall | hclashes
  · exact Except.ok.inj (hmerge.symm.trans (merge_eq_self hall))
  · exact absurd hclashes (not_clashes_of_merge hmerge)

end

end FixAll

end SelfTypeLint
