import SelfTypeLint.Fix.All
import SelfTypeLint.Proofs.Text.Splice

/-!
# Merging edits

Merging compares the edits of an action with those merged before, but not with each other. So it keeps
edits from overlapping where the edits of every action are in `Harmony`: two of them that overlap are
equal.
-/

namespace SelfTypeLint

namespace EditSet

/-- Holds of edits of which no two overlap. -/
def Apart (edits : List TextEdit) : Prop := edits.Pairwise fun a b => a.overlaps b = false

/-- Holds of edits of which two that overlap are equal. -/
def Harmony (edits : List TextEdit) : Prop :=
  ∀ a ∈ edits, ∀ b ∈ edits, a = b ∨ a.overlaps b = false

theorem harmony_nil : Harmony [] := fun _ h => absurd h List.not_mem_nil

theorem harmony_singleton (e : TextEdit) : Harmony [e] := by
  intro a ha b hb
  rw [List.mem_singleton] at ha hb
  exact .inl (ha.trans hb.symm)

/-- Insertions are in harmony. -/
theorem harmony_of_isInsert {edits : List TextEdit} (h : ∀ e ∈ edits, e.isInsert = true) :
    Harmony edits :=
  fun a ha b hb => .inr (TextEdit.not_overlaps_of_isInsert (h a ha) (h b hb))

/-- The edits of a document stand in its place. -/
theorem editsFor_eq_of_mem {s : EditSet} (h : s.Ordered) {file : FileId} {edits : List TextEdit}
    (hm : (file, edits) ∈ s.changes) : s.editsFor file = edits := by
  obtain ⟨changes⟩ := s
  simp only [Ordered, editsFor] at *
  induction changes with
  | nil => simp at hm
  | cons c rest ih =>
    obtain ⟨hlt, hrest⟩ := List.pairwise_cons.1 h
    rw [List.find?_cons]
    rcases List.mem_cons.1 hm with rfl | hm
    · simp
    · have hne : c.1 ≠ file := Nat.ne_of_lt (hlt file (List.mem_map_of_mem hm))
      rw [show (c.1 == file) = false from beq_false_of_ne hne]
      exact ih hrest hm

end EditSet

namespace FixAll

open EditSet

/-- The edits found new in a document come after those found before; none of them overlaps an edit
merged before, and none comes twice. -/
theorem newEdits_eq_ok {file : FileId} {existing es : List TextEdit}
    {pending out : List (FileId × TextEdit)} (h : newEdits file existing es pending = .ok out) :
    ∃ new : List TextEdit, out = pending ++ new.map (file, ·) ∧ new.Nodup ∧
      ∀ e ∈ new, e ∈ es ∧ (file, e) ∉ pending ∧ ∀ old ∈ existing, old.overlaps e = false := by
  induction es generalizing pending with
  | nil =>
    obtain rfl := Except.ok.inj h
    exact ⟨[], by simp⟩
  | cons e es ih =>
    rw [newEdits] at h
    split at h
    · obtain ⟨new, rfl, hnodup, hnew⟩ := ih h
      refine ⟨new, rfl, hnodup, fun a ha => ?_⟩
      obtain ⟨h1, h2, h3⟩ := hnew a ha
      exact ⟨List.mem_cons_of_mem e h1, h2, h3⟩
    · next hold =>
      split at h
      · exact absurd h (by simp)
      · next hnone =>
        simp only [Bool.or_eq_true, List.contains_iff_mem, not_or] at hold
        obtain ⟨new, rfl, hnodup, hnew⟩ := ih h
        refine ⟨e :: new, by simp, List.nodup_cons.2 ⟨?_, hnodup⟩, ?_⟩
        · intro he
          exact (hnew e he).2.1 (by simp)
        · intro a ha
          rcases List.mem_cons.1 ha with rfl | ha
          · refine ⟨List.mem_cons_self, hold.2, ?_⟩
            intro old hmem
            simpa using List.find?_eq_none.1 hnone old hmem
          · obtain ⟨h1, h2, h3⟩ := hnew a ha
            exact ⟨List.mem_cons_of_mem e h1, fun hp => h2 (List.mem_append_left _ hp), h3⟩

/-- The edits of a document in a list of edits with their documents. -/
def ofFile (file : FileId) (edits : List (FileId × TextEdit)) : List TextEdit :=
  (edits.filter (·.1 = file)).map (·.2)

theorem ofFile_append (file : FileId) (as bs : List (FileId × TextEdit)) :
    ofFile file (as ++ bs) = ofFile file as ++ ofFile file bs := by
  simp [ofFile]

theorem ofFile_map (file f : FileId) (edits : List TextEdit) :
    ofFile f (edits.map (file, ·)) = if file = f then edits else [] := by
  rw [ofFile, List.filter_map, List.map_map]
  split
  · next h => simp [Function.comp_def, h]
  · next h => simp [Function.comp_def, h]

theorem mem_ofFile {file : FileId} {edits : List (FileId × TextEdit)} {e : TextEdit} :
    e ∈ ofFile file edits ↔ (file, e) ∈ edits := by
  simp [ofFile]

/-- What holds of the edits found new, given those merged before. -/
structure Fresh (merged : EditSet) (pending : List (FileId × TextEdit)) : Prop where
  apart : ∀ f, Apart (ofFile f pending)
  free : ∀ f, ∀ e ∈ ofFile f pending, ∀ old ∈ merged.editsFor f, old.overlaps e = false

/-- The new edits of one more document, whose edits are in harmony, do not overlap either. -/
private theorem Fresh.newEdits {merged : EditSet} {pending out : List (FileId × TextEdit)}
    (h : Fresh merged pending) {file : FileId} {es : List TextEdit} (hes : Harmony es)
    (hnone : ofFile file pending = [])
    (hout : newEdits file (merged.editsFor file) es pending = .ok out) :
    Fresh merged out ∧ (∀ f ≠ file, ofFile f out = ofFile f pending) ∧
      ∀ e ∈ ofFile file out, e ∈ es := by
  obtain ⟨new, rfl, hnodup, hnew⟩ := newEdits_eq_ok hout
  have hof : ∀ f, ofFile f (pending ++ new.map (file, ·)) =
      if file = f then new else ofFile f pending := by
    intro f
    rw [ofFile_append, ofFile_map]
    split
    · next hf => rw [← hf, hnone, List.nil_append]
    · rw [List.append_nil]
  have hapart : Apart new := by
    refine List.Pairwise.imp_of_mem ?_ hnodup
    intro a b ha hb hab
    exact (hes a (hnew a ha).1 b (hnew b hb).1).resolve_left hab
  refine ⟨⟨fun f => ?_, fun f e he old hold => ?_⟩, fun f hf => ?_, fun e he => ?_⟩
  · rw [hof]
    split
    · exact hapart
    · exact h.apart f
  · rw [hof] at he
    split at he
    · next hf => exact (hnew e he).2.2 old (hf ▸ hold)
    · exact h.free f e he old hold
  · rw [hof, if_neg (Ne.symm hf)]
  · rw [hof, if_pos rfl] at he
    exact (hnew e he).1

/-- The new edits of all documents do not overlap. -/
theorem fresh_newChanges {merged : EditSet} {changes : List (FileId × List TextEdit)}
    {pending out : List (FileId × TextEdit)} (h : Fresh merged pending)
    (hes : ∀ c ∈ changes, Harmony c.2) (hnodup : (changes.map (·.1)).Nodup)
    (hnone : ∀ c ∈ changes, ofFile c.1 pending = [])
    (hout : newChanges merged changes pending = .ok out) :
    Fresh merged out ∧ ∀ f, ∀ e ∈ ofFile f out,
      e ∈ ofFile f pending ∨ ∃ edits, (f, edits) ∈ changes ∧ e ∈ edits := by
  induction changes generalizing pending with
  | nil =>
    obtain rfl := Except.ok.inj hout
    exact ⟨h, fun f e he => .inl he⟩
  | cons c rest ih =>
    obtain ⟨file, edits⟩ := c
    obtain ⟨hfirst, hrest⟩ := List.nodup_cons.1 hnodup
    rw [newChanges] at hout
    split at hout
    · next mid hmid =>
      obtain ⟨hmid', hother, hsame⟩ := h.newEdits (hes _ List.mem_cons_self)
        (hnone _ List.mem_cons_self) hmid
      have hne : ∀ c ∈ rest, c.1 ≠ file := by
        intro c hc hc'
        exact hfirst (List.mem_map.2 ⟨c, hc, hc'⟩)
      obtain ⟨hfresh, hmem⟩ := ih hmid' (fun c hc => hes c (List.mem_cons_of_mem _ hc)) hrest
        (fun c hc => by
          rw [hother c.1 (hne c hc)]
          exact hnone c (List.mem_cons_of_mem _ hc)) hout
      refine ⟨hfresh, fun f e he => ?_⟩
      rcases hmem f e he with he | ⟨es, hes, he⟩
      · by_cases hf : f = file
        · subst hf
          exact .inr ⟨edits, List.mem_cons_self, hsame e he⟩
        · rw [hother f hf] at he
          exact .inl he
      · exact .inr ⟨es, List.mem_cons_of_mem _ hes, he⟩
    · exact absurd hout (by simp)

/-- Adding edits one after another puts those of each document after the ones it has. -/
theorem editsFor_foldl_push {s : EditSet} (h : s.Ordered) (es : List (FileId × TextEdit)) :
    (es.foldl (fun s (p : FileId × TextEdit) => s.push p.1 p.2) s).Ordered ∧
      ∀ f, (es.foldl (fun s (p : FileId × TextEdit) => s.push p.1 p.2) s).editsFor f =
        s.editsFor f ++ ofFile f es := by
  induction es generalizing s with
  | nil => exact ⟨h, fun f => by simp [ofFile]⟩
  | cons p es ih =>
    obtain ⟨file, e⟩ := p
    obtain ⟨hordered, hfor⟩ := ih (h.push file e)
    refine ⟨hordered, fun f => ?_⟩
    rw [List.foldl_cons, hfor, editsFor_push h]
    by_cases hf : f = file
    · simp [hf, ofFile]
    · simp [hf, Ne.symm hf, ofFile]

/-- Merging keeps edits from overlapping, where the edits of the action are in harmony. -/
theorem apart_merge {merged edit s : EditSet} (hm : merged.Ordered) (he : edit.Ordered)
    (hapart : ∀ f, Apart (merged.editsFor f)) (hharmony : ∀ f, Harmony (edit.editsFor f))
    (h : merge merged edit = .ok s) :
    s.Ordered ∧ ∀ f, Apart (s.editsFor f) ∧
      ∀ e ∈ s.editsFor f, e ∈ merged.editsFor f ∨ e ∈ edit.editsFor f := by
  rw [merge] at h
  cases hout : newChanges merged edit.changes [] with
  | error c =>
    rw [hout] at h
    exact absurd h (by simp [bind, Except.bind])
  | ok out =>
    rw [hout] at h
    obtain rfl : _ = s := Except.ok.inj h
    have hchanges : ∀ c ∈ edit.changes, edit.editsFor c.1 = c.2 := fun c hc =>
      editsFor_eq_of_mem he hc
    have hnodup : (edit.changes.map (·.1)).Nodup := he.imp Nat.ne_of_lt
    have hnone : Fresh merged [] :=
      ⟨fun _ => List.Pairwise.nil, fun _ _ h => absurd h List.not_mem_nil⟩
    obtain ⟨hfresh, hmem⟩ := fresh_newChanges hnone (fun c hc => hchanges c hc ▸ hharmony c.1)
      hnodup (fun _ _ => rfl) hout
    obtain ⟨hordered, hfor⟩ := editsFor_foldl_push hm out
    refine ⟨hordered, fun f => ⟨?_, fun e hmem' => ?_⟩⟩
    · show Apart (EditSet.editsFor _ f)
      rw [hfor, Apart, List.pairwise_append]
      refine ⟨hapart f, hfresh.apart f, ?_⟩
      intro old hold e hnew
      exact hfresh.free f e hnew old hold
    · rw [hfor, List.mem_append] at hmem'
      rcases hmem' with hold | hnew
      · exact .inl hold
      · rcases hmem f e hnew with hnil | ⟨edits, hedits, hin⟩
        · simp [ofFile] at hnil
        · rw [hchanges _ hedits]
          exact .inr hin

end FixAll

end SelfTypeLint
