import SelfTypeLint.Proofs.Symbol.Attributes
import SelfTypeLint.Proofs.Symbol.Counterparts
import SelfTypeLint.Proofs.Symbol.Levels
import SelfTypeLint.Proofs.Symbol.Respelled
import SelfTypeLint.Proofs.Workspace.Respelled

/-!
# Scopes of respelled workspaces

Edits that respell documents and leave the names of declarations as they are keep the numbers of types
and parameters. Names other than those of parameters mean in the scope of each declaration what they
meant before.
-/

namespace SelfTypeLint

open SymbolTable TextEdit Respelling

namespace Respelling

variable {m : Respelling}

/-- A tree whose declarations keep their names is parallel to its old form. -/
theorem parallel_tree {R : FileId → TypeDecl → TypeDecl → Prop} {t : SyntaxTree}
    (h : ∀ d ∈ t.typeDecls, R t.file d (m.typeDecl d) ∧ m.word d.nameSpan = none) :
    t.Parallel R SameUsings (m.tree t) where
  file := rfl
  usings := m.sameUsings_map t.usings
  members := by
    rw [tree, memberList_eq_map, List.forall₂_map_right_iff]
    exact List.forall₂_same.2 fun a ha =>
      parallel_member a m.sameUsings_map fun e he => h e (List.mem_flatMap.2 ⟨a, ha, he⟩)

/-! ## Names of types -/

variable (m)

theorem segments_typeExpr (e : TypeExpr) : (m.typeExpr e).segments = e.segments.map m.segment := by
  cases e with
  | path isGlobal segments span => exact m.segmentList_eq_map segments
  | predefined | array | nullable | tuple => rfl

theorem typeArgs_typeExpr (e : TypeExpr) : (m.typeExpr e).typeArgs = e.typeArgs.map m.typeExpr := by
  rw [TypeExpr.typeArgs, TypeExpr.typeArgs, segments_typeExpr, List.getLast?_map]
  cases e.segments.getLast? with
  | none => rfl
  | some x => exact m.typeExprList_eq_map x.args

theorem isGeneric_typeExpr (e : TypeExpr) : (m.typeExpr e).isGeneric = e.isGeneric := by
  rw [TypeExpr.isGeneric, TypeExpr.isGeneric, segments_typeExpr, List.getLast?_map]
  cases e.segments.getLast? with
  | none => rfl
  | some x => simp [segment]

variable {m}

/-- A name that keeps its words is looked up by the same parts. -/
theorem map_ofSegment {segments : List (NameSegment TypeExpr)}
    (h : ∀ x ∈ segments, m.word x.span = none) :
    (m.segmentList segments).map NamePart.ofSegment = segments.map .ofSegment := by
  rw [segmentList_eq_map, List.map_map]
  refine List.map_congr_left fun x hx => ?_
  rw [Function.comp_apply, segment, NamePart.ofSegment, NamePart.ofSegment, text, h x hx,
    Option.getD_none, typeExprList_eq_map, List.length_map]

/-- An attribute name that keeps its words means the same. -/
theorem resolveAttribute_typeExpr {e : TypeExpr} (h : ∀ x ∈ e.segments, m.word x.span = none)
    (s : Scope) : s.resolveAttribute (m.typeExpr e) = s.resolveAttribute e := by
  cases e with
  | path isGlobal segments span =>
    have hparts : (m.segmentList segments).map NamePart.ofSegment = segments.map .ofSegment :=
      map_ofSegment h
    rw [typeExpr, Scope.resolveAttribute, Scope.resolveAttribute, hparts]
  | predefined | array | nullable | tuple => rfl

variable {s s' : Scope}

/-- A name stands for the parameter that it stood for if its word does. -/
theorem asParam?_segmentList {isGlobal : Bool} {segments : List (NameSegment TypeExpr)}
    (h : ∀ x, segments = [x] → isGlobal = false → x.args = [] →
      s'.typeParam? (m.text x.span x.name) = s.typeParam? x.name) :
    s'.asParam? isGlobal (m.segmentList segments) = s.asParam? isGlobal segments := by
  rw [segmentList_eq_map]
  match segments with
  | [] | _ :: _ :: _ => simp only [List.map_cons, List.map_nil, Scope.asParam?]
  | [x] =>
    have hargs : (m.segment x).args.isEmpty = x.args.isEmpty := by
      rw [segment, typeExprList_eq_map, List.isEmpty_map]
    rw [List.map_cons, List.map_nil, Scope.asParam?, Scope.asParam?, hargs]
    split
    · next hplain =>
      obtain ⟨hglobal, hempty⟩ : isGlobal = false ∧ x.args = [] := by simpa using hplain
      exact h x rfl hglobal hempty
    · rfl

/-- A written type means what it meant in a scope where names other than those of parameters mean the
same, if each name in it that stands for a parameter stands for the same one and each other name keeps
its words. -/
theorem resolve_typeExpr (halike : Scope.Alike s s') (e : TypeExpr)
    (h : ∀ a ∈ e.reached, ∀ isGlobal segments span, a = .path isGlobal segments span →
      s'.asParam? isGlobal (m.segmentList segments) = s.asParam? isGlobal segments ∧
        (s.asParam? isGlobal segments = none → ∀ x ∈ segments, m.word x.span = none)) :
    s'.resolve (m.typeExpr e) = s.resolve e := by
  match e with
  | .predefined keyword span => rw [typeExpr, Scope.resolve_predefined, Scope.resolve_predefined]
  | .path isGlobal segments span =>
    obtain ⟨hparam, hother⟩ := h _ (by rw [TypeExpr.reached_eq]; exact List.mem_cons_self) _ _ _ rfl
    have hargs : ((m.typeExpr (.path isGlobal segments span)).typeArgs).map s'.resolve =
        (TypeExpr.path isGlobal segments span).typeArgs.map s.resolve := by
      rw [typeArgs_typeExpr, List.map_map]
      refine List.map_congr_left fun a ha => resolve_typeExpr halike a fun b hb => h b ?_
      rw [TypeExpr.reached_eq]
      exact List.mem_cons_of_mem _ (List.mem_flatMap.2 ⟨a, ha, hb⟩)
    rw [typeExpr, Scope.resolve_path, Scope.resolve_path, hparam]
    cases hp : s.asParam? isGlobal segments with
    | some p => dsimp only
    | none =>
      dsimp only
      rw [map_ofSegment (hother hp), halike.carries.lookup, Option.map_id, id_eq]
      cases s.lookup isGlobal (segments.map .ofSegment) with
      | none => dsimp only
      | some id => exact congrArg (TypeRef.named id) hargs
  | .array .. | .nullable .. | .tuple .. => simp only [typeExpr, Scope.resolve]
  termination_by sizeOf e
  decreasing_by exact TypeExpr.sizeOf_lt_of_mem_typeArgs ha

end Respelling

namespace Workspace

/-- The namespaces found around a declaration of a document are those that it stands in. -/
theorem enclosingNamespaces_eq {sources : List SourceText} {doc : Document}
    (hdoc : doc ∈ (build sources).documents) {d : TypeDecl} {ns : List NamespaceDecl}
    (h : Within d doc.tree.members ns) : doc.tree.enclosingNamespaces d.span = ns := by
  obtain ⟨-, hread, -⟩ := ofSource_of_document? (mem_documents_iff.1 hdoc)
  rw [hread] at h ⊢
  exact SyntaxTree.enclosingNamespaces_eq (SyntaxTree.inRow_read doc.id doc.text)
    (fun s hs => SyntaxTree.start_lt_stop_read doc.id doc.text hs) h

end Workspace

/-- The respelling that edits of a document do. -/
def EditSet.respelling (s : EditSet) (doc : Document) : Respelling :=
  TextEdit.respelling (s.editsFor doc.id) doc.text

/-- Holds of edits that respell the documents of some texts to those of others, and leave the names of
declarations as they are. -/
structure EditSet.RespellsTo (s : EditSet) (sources sources' : List SourceText) : Prop where
  documents : (Workspace.build sources').documents =
    (Workspace.build sources).documents.map fun doc => doc.respelled (s.editsFor doc.id)
  names : ∀ doc ∈ (Workspace.build sources).documents, ∀ d ∈ doc.tree.typeDecls,
    (s.respelling doc).word d.nameSpan = none

namespace EditSet.RespellsTo

open Workspace

variable {s : EditSet} {sources sources' : List SourceText} (h : s.RespellsTo sources sources')

/-- The declarations of a file and their respelled forms. -/
def Pairs (s : EditSet) (sources : List SourceText) (file : FileId) (d d' : TypeDecl) : Prop :=
  ∃ doc ∈ (build sources).documents, doc.id = file ∧ d ∈ doc.tree.typeDecls ∧
    d' = (s.respelling doc).typeDecl d

theorem file_tree {sources : List SourceText} {doc : Document}
    (hdoc : doc ∈ (build sources).documents) : doc.tree.file = doc.id := by
  obtain ⟨-, hread, -⟩ := ofSource_of_document? (mem_documents_iff.1 hdoc)
  exact congrArg SyntaxTree.file hread

include h

theorem mem_documents {doc : Document} (hdoc : doc ∈ (build sources).documents) :
    doc.respelled (s.editsFor doc.id) ∈ (build sources').documents := by
  rw [h.documents]
  exact List.mem_map_of_mem hdoc

theorem parallel_of_mem {doc : Document} (hdoc : doc ∈ (build sources).documents) :
    doc.tree.Parallel (Pairs s sources) SameUsings ((s.respelling doc).tree doc.tree) :=
  Respelling.parallel_tree fun d hd =>
    ⟨⟨doc, hdoc, (file_tree hdoc).symm, hd, rfl⟩, h.names doc hdoc d hd⟩

/-- The trees are parallel to what they were. -/
theorem parallel : List.Forall₂ (SyntaxTree.Parallel (Pairs s sources) SameUsings)
    ((build sources).documents.map (·.tree)) ((build sources').documents.map (·.tree)) := by
  rw [h.documents, List.map_map, List.forall₂_map_left_iff, List.forall₂_map_right_iff]
  exact List.forall₂_same.2 fun doc hdoc => h.parallel_of_mem hdoc

theorem mirrors : Mirrors (Pairs s sources) (build sources).symbols.decls (build sources).symbols
    (build sources').symbols := mirrors_bind h.parallel

theorem counterparts {doc : Document} (hdoc : doc ∈ (build sources).documents) {d : TypeDecl}
    (hd : d ∈ doc.tree.typeDecls) : doc.tree.Counterparts (Pairs s sources) SameUsings
      ((s.respelling doc).tree doc.tree) d ((s.respelling doc).typeDecl d) := by
  have hall := (h.parallel_of_mem hdoc).counterparts
  rw [Respelling.typeDecls_tree, List.forall₂_map_right_iff, List.forall₂_same] at hall
  exact hall d hd

/-- A declaration is of the type that it was of. -/
theorem declaredType? {doc : Document} (hdoc : doc ∈ (build sources).documents) {d : TypeDecl}
    (hd : d ∈ doc.tree.typeDecls) :
    (build sources').symbols.declaredType? doc.id ((s.respelling doc).typeDecl d).nameSpan =
      (build sources).symbols.declaredType? doc.id d.nameSpan := by
  have hid := (h.counterparts hdoc hd).declaredType? h.parallel (nodup_declaredSites sources)
    (nodup_declaredSites sources') (List.mem_map_of_mem hdoc)
    (List.mem_map_of_mem (h.mem_documents hdoc)) rfl
  rwa [file_tree hdoc] at hid

/-- A parameter is declared where it was. -/
theorem declaredTypeParam? {doc : Document} (hdoc : doc ∈ (build sources).documents) {d : TypeDecl}
    (hd : d ∈ doc.tree.typeDecls) {q : TypeParam} (hq : q ∈ d.typeParams) :
    (build sources').symbols.declaredTypeParam? doc.id ((s.respelling doc).typeParam q).nameSpan =
      (build sources).symbols.declaredTypeParam? doc.id q.nameSpan := by
  obtain ⟨k, hk⟩ := List.mem_iff_getElem?.1 hq
  have hk' : ((s.respelling doc).typeDecl d).typeParams[k]? =
      some ((s.respelling doc).typeParam q) := by
    rw [typeParams_typeDecl, List.getElem?_map, hk, Option.map_some]
  have hid := (h.counterparts hdoc hd).declaredTypeParam? h.parallel (nodup_declaredSites sources)
    (nodup_declaredSites sources') (List.mem_map_of_mem hdoc)
    (List.mem_map_of_mem (h.mem_documents hdoc)) rfl hk hk'
  rwa [file_tree hdoc] at hid

/-- The scope of a declaration is like the one that it had. -/
theorem alike {doc : Document} (hdoc : doc ∈ (build sources).documents) {d : TypeDecl}
    (hd : d ∈ doc.tree.typeDecls) (owner : TypeId) :
    Scope.Alike (.ofDecl (build sources).symbols doc.tree d owner)
      (.ofDecl (build sources').symbols ((s.respelling doc).tree doc.tree)
        ((s.respelling doc).typeDecl d) owner) :=
  (h.counterparts hdoc hd).alike h.parallel (h.parallel_of_mem hdoc)
    (fun _ hns => enclosingNamespaces_eq hdoc hns)
    (fun _ hns => enclosingNamespaces_eq (h.mem_documents hdoc) hns) owner

/-- The scopes of a declaration before and after. -/
theorem scopeOf? {doc : Document} (hdoc : doc ∈ (build sources).documents) {d : TypeDecl}
    (hd : d ∈ doc.tree.typeDecls) : ∃ owner,
    (build sources).symbols.declaredType? doc.id d.nameSpan = some owner ∧
    (build sources).scopeOf? doc.id d = some (.ofDecl (build sources).symbols doc.tree d owner) ∧
    (build sources').scopeOf? doc.id ((s.respelling doc).typeDecl d) =
      some (.ofDecl (build sources').symbols ((s.respelling doc).tree doc.tree)
        ((s.respelling doc).typeDecl d) owner) := by
  obtain ⟨-, owner, -, -, howner, -⟩ := (faithful_build sources).declared doc.tree
    (List.mem_map_of_mem hdoc) d hd
  rw [file_tree hdoc] at howner
  have howner' := (h.declaredType? hdoc hd).trans howner
  have hdoc' := mem_documents_iff.1 (h.mem_documents hdoc)
  change (build sources').document? doc.id = _ at hdoc'
  refine ⟨owner, howner, ?_, ?_⟩
  · simp [Workspace.scopeOf?, mem_documents_iff.1 hdoc, howner]
  · simp [Workspace.scopeOf?, hdoc', howner']
    rfl

/-- If the names of attributes on parameters are left as they are, too, parameters carry the attributes
that they carried. -/
theorem map_attributes (hwords : ∀ doc ∈ (build sources).documents, ∀ d ∈ doc.tree.typeDecls,
      ∀ q ∈ d.typeParams, ∀ l ∈ q.attributes, ∀ a ∈ l.attributes, ∀ x ∈ a.name.segments,
        (s.respelling doc).word x.span = none) (j : TypeParamId) :
    ((build sources').symbols.typeParam? j).map (·.attributes) =
      ((build sources).symbols.typeParam? j).map (·.attributes) := by
  refine map_attributes_bind (mirrors_declareTrees h.parallel).size ?_ j
  have hsymbols : ∀ sources, (build sources).symbols =
      SymbolTable.bind ((build sources).documents.map (·.tree)) := fun _ => rfl
  rw [← hsymbols, ← hsymbols, h.documents, List.map_map, List.flatMap_map, List.flatMap_map]
  refine List.flatMap_congr fun doc hdoc => ?_
  have htree : (doc.respelled (s.editsFor doc.id)).tree = (s.respelling doc).tree doc.tree := rfl
  simp only [Function.comp_apply, attributesOf]
  rw [htree, Respelling.typeDecls_tree, List.flatMap_map]
  refine List.flatMap_congr fun d hd => ?_
  obtain ⟨owner, howner, -, -⟩ := h.scopeOf? hdoc hd
  have hfile : ((s.respelling doc).tree doc.tree).file = doc.id := file_tree hdoc
  have howner' := (h.declaredType? hdoc hd).trans howner
  rw [file_tree hdoc, hfile, howner, howner']
  dsimp only
  rw [typeParams_typeDecl, List.flatMap_map]
  refine List.flatMap_congr fun q hq => ?_
  rw [h.declaredTypeParam? hdoc hd hq]
  cases (build sources).symbols.declaredTypeParam? doc.id q.nameSpan with
  | none => rfl
  | some k =>
    have hlists : ((s.respelling doc).typeParam q).attributes.flatMap (·.attributes) =
        (q.attributes.flatMap (·.attributes)).map (s.respelling doc).attr := by
      rw [typeParam, List.flatMap_map, List.map_flatMap]
      rfl
    dsimp only
    rw [hlists, List.filterMap_map]
    refine List.filterMap_congr fun a ha => ?_
    obtain ⟨l, hl, ha⟩ := List.mem_flatMap.1 ha
    rw [Function.comp_apply, attr,
      Respelling.resolveAttribute_typeExpr (hwords doc hdoc d hd q hq l hl a ha),
      (h.alike hdoc hd owner).resolveAttribute]

end EditSet.RespellsTo

end SelfTypeLint
