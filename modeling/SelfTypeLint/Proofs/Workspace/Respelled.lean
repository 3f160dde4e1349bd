import SelfTypeLint.Proofs.Reader.Ownership
import SelfTypeLint.Proofs.Reader.Respelled
import SelfTypeLint.Proofs.Workspace.References

/-!
# Respelled workspaces

Edits that respell identifiers of declarations give a workspace without faults. It has the documents
of the old one, each with its old tree at new places and with new words.
-/

namespace SelfTypeLint

open Token TextEdit Respelling Grammar

/-- A document with the edits that respell it. -/
def Document.respelled (doc : Document) (edits : List TextEdit) : Document :=
  { doc with
    text := respelledText edits doc.text
    tree := (respelling edits doc.text).tree doc.tree }

namespace EditSet

/-- Holds of edits that respell identifiers of a document's declarations. -/
structure RespellsIn (s : EditSet) (doc : Document) : Prop where
  all : RespellAll (s.editsFor doc.id) doc.text
  owned : ∀ e ∈ s.editsFor doc.id, ∃ d ∈ doc.tree.typeDecls, ∃ i ∈ d.idents, i.span = e.span

end EditSet

namespace Workspace

variable {sources : List SourceText} {doc : Document}

/-- The identifiers of the declarations of a document stand at different places. -/
theorem nodup_idents (hdoc : doc ∈ (build sources).documents) :
    (doc.tree.typeDecls.flatMap fun d => d.idents.map (·.span)).Nodup := by
  obtain ⟨-, htree, -⟩ := ofSource_of_document? (mem_documents_iff.1 hdoc)
  rw [htree]
  exact SyntaxTree.nodup_idents_read _ _

/-- An identifier of a document belongs to one declaration. -/
theorem eq_of_ident_span (hdoc : doc ∈ (build sources).documents) {d e : TypeDecl}
    (hd : d ∈ doc.tree.typeDecls) (he : e ∈ doc.tree.typeDecls) {i j : Ident}
    (hi : i ∈ d.idents) (hj : j ∈ e.idents) (hspan : i.span = j.span) : d = e :=
  eq_of_nodup_flatMap (nodup_idents hdoc) hd he (List.mem_map_of_mem hi)
    (hspan ▸ List.mem_map_of_mem hj)

/-- In a document without faults the names of parameters belong to their declarations. -/
theorem ownsParams_of_mem (hdoc : doc ∈ (build sources).documents) (hclean : doc.errors = [])
    {d : TypeDecl} (hd : d ∈ doc.tree.typeDecls) : OwnsParams d := by
  obtain ⟨-, htree, herrors⟩ := ofSource_of_document? (mem_documents_iff.1 hdoc)
  obtain ⟨is, hform⟩ := SyntaxTree.membersForm_read (herrors.symm.trans hclean)
  rw [← htree] at hform
  exact hform.ownsParams (placed_ofSource doc.text) hd

/-- Edits that respell identifiers of declarations can be applied to a workspace without faults, and
respell each of its documents. -/
theorem withEdit_respelled {edit : EditSet}
    (hclean : ∀ doc ∈ (build sources).documents, doc.errors = [])
    (h : ∀ doc ∈ (build sources).documents, edit.RespellsIn doc) :
    ∃ w, (build sources).withEdit edit = .ok w ∧
      w.documents = (build sources).documents.map fun doc => doc.respelled (edit.editsFor doc.id) := by
  have hread : ∀ doc ∈ (build sources).documents,
      applyAll? (edit.editsFor doc.id) doc.text.toList =
          some (respelledText (edit.editsFor doc.id) doc.text).toList ∧
        SyntaxTree.read doc.id (respelledText (edit.editsFor doc.id) doc.text) =
          ⟨(respelling (edit.editsFor doc.id) doc.text).tree doc.tree, []⟩ := by
    intro doc hdoc
    obtain ⟨-, htree, herrors⟩ := ofSource_of_document? (mem_documents_iff.1 hdoc)
    have howned := (h doc hdoc).owned
    rw [htree] at howned ⊢
    exact SyntaxTree.read_respelled (herrors.symm.trans (hclean doc hdoc)) (h doc hdoc).all howned
  have happly : ∀ doc ∈ (build sources).documents, edit.applyTo doc.id doc.text =
      .ok (respelledText (edit.editsFor doc.id) doc.text) := by
    intro doc hdoc
    unfold EditSet.applyTo
    dsimp only
    rw [(EditConflict.first?_eq_none_iff _).2 (h doc hdoc).all.apart, (hread doc hdoc).1]
    dsimp only
    rw [String.ofList_toList]
  refine ⟨_, withEdit_eq happly, ?_⟩
  apply List.ext_getElem?
  intro i
  have hnew := document?_build
    ((build sources).documents.map fun doc =>
      { doc.source with text := respelledText (edit.editsFor doc.id) doc.text }) i
  rw [document?] at hnew
  rw [hnew, List.getElem?_map, List.getElem?_map, Option.map_map]
  cases hi : (build sources).documents[i]? with
  | none => rfl
  | some doc =>
    have hdoc : doc ∈ (build sources).documents := List.mem_of_getElem? hi
    obtain ⟨rfl, -, -⟩ := ofSource_of_document? (show (build sources).document? i = some doc from hi)
    have hout := (hread doc hdoc).2
    simp only [Option.map_some, Function.comp_def, Document.ofSource, hout, Document.respelled,
      Document.source, (hclean doc hdoc)]

end Workspace

end SelfTypeLint
