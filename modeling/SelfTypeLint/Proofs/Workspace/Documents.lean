import SelfTypeLint.Proofs.Reader.FilesSound
import SelfTypeLint.Workspace.Rename

/-!
# Documents of a workspace

A workspace that is built from texts holds one document for each, with what was read of its text. So
whatever a fix finds in a tree stands at tokens of the document, and an edit there ends between two
characters.
-/

namespace SelfTypeLint

open Token Grammar Text Read

namespace Grammar

/-- The span of tokens in a row is not empty, and both its ends are ends of tokens. -/
theorem SpanIn.bounds {source : String} {s : Span} (h : SpanIn (Cursor.ofSource source).ahead s) :
    s.start < s.stop ∧ IsBoundary source.toList s.start ∧ IsBoundary source.toList s.stop := by
  obtain ⟨us, hus, hne, rfl⟩ := h
  obtain ⟨as, bs, hall⟩ := hus
  have hplaced := placed_ofSource source
  rw [← hall] at hplaced
  have hus : ∀ t ∈ us, t ∈ (Cursor.ofSource source).ahead := by
    intro t ht
    rw [← hall]
    simp [ht]
  cases us with
  | nil => exact absurd rfl hne
  | cons t us =>
    have hp := hplaced.append_left.append_right
    have hle := hp.2.2.le_stopOf
    have hlt := hp.2.1
    rw [spanOf, startOf_cons, stopOf_cons]
    refine ⟨by dsimp only; omega, (isBoundary_of_mem_ofSource (hus t List.mem_cons_self)).1, ?_⟩
    cases hlast : us.getLast? with
    | none =>
      simp only [stopOf, hlast]
      exact (isBoundary_of_mem_ofSource (hus t List.mem_cons_self)).2
    | some u =>
      simp only [stopOf, hlast, Option.map_some, Option.getD_some]
      have hu := List.mem_of_getLast? hlast
      exact (isBoundary_of_mem_ofSource (hus u (List.mem_cons_of_mem _ hu))).2

end Grammar

namespace Workspace

theorem document?_build (sources : List SourceText) (file : FileId) :
    (build sources).document? file = (sources[file]?).map (Document.ofSource file) := by
  simp only [document?, build, List.getElem?_map, List.getElem?_zipIdx, Option.map_map]
  cases sources[file]? with
  | none => rfl
  | some s => simp

/-- The documents of a workspace stand at their numbers. -/
theorem mem_documents_iff {sources : List SourceText} {doc : Document} :
    doc ∈ (build sources).documents ↔ (build sources).document? doc.id = some doc := by
  constructor
  · intro h
    obtain ⟨i, hi⟩ := List.mem_iff_getElem?.1 h
    have hdoc : (build sources).document? i = some doc := hi
    rw [document?_build] at hdoc
    obtain ⟨s, hs, rfl⟩ := Option.map_eq_some_iff.1 hdoc
    exact hi
  · intro h
    exact List.mem_of_getElem? h

/-- What a document holds was read of its text. -/
theorem ofSource_of_document? {sources : List SourceText} {file : FileId} {doc : Document}
    (h : (build sources).document? file = some doc) :
    doc.id = file ∧ doc.tree = (SyntaxTree.read file doc.text).tree ∧
      doc.errors = (SyntaxTree.read file doc.text).errors := by
  rw [document?_build] at h
  obtain ⟨s, -, rfl⟩ := Option.map_eq_some_iff.1 h
  exact ⟨rfl, rfl, rfl⟩

/-- The parts of a document's tree stand at its tokens. -/
theorem allPlacedIn_of_document? {sources : List SourceText} {file : FileId} {doc : Document}
    (h : (build sources).document? file = some doc) :
    AllPlacedIn (Cursor.ofSource doc.text).ahead doc.tree.usings doc.tree.members := by
  obtain ⟨-, htree, -⟩ := ofSource_of_document? h
  rw [htree]
  exact SyntaxTree.allPlacedIn_read file doc.text

/-- A workspace can be edited if each of its texts can. -/
theorem withEdit_eq {w : Workspace} {edit : EditSet} {text : Document → String}
    (h : ∀ d ∈ w.documents, edit.applyTo d.id d.text = .ok (text d)) :
    w.withEdit edit = .ok (build (w.documents.map fun d => { d.source with text := text d })) := by
  have hall : ∀ ds : List Document, (∀ d ∈ ds, edit.applyTo d.id d.text = .ok (text d)) →
      ds.mapM (m := Except EditError)
        (fun d => do return { d.source with text := ← edit.applyTo d.id d.text }) =
        .ok (ds.map fun d => { d.source with text := text d }) := by
    intro ds hds
    induction ds with
    | nil => rfl
    | cons d ds ih =>
      have hrest := ih fun e he => hds e (List.mem_cons_of_mem _ he)
      simp only [List.mapM_cons, hds d List.mem_cons_self, hrest, List.map_cons]
      rfl
  rw [withEdit, hall w.documents h]
  rfl

end Workspace

end SelfTypeLint
