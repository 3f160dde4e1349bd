import SelfTypeLint.Proofs.Fix.Applies
import SelfTypeLint.Proofs.Symbol.Faithful
import SelfTypeLint.Proofs.Workspace.Respelled

/-!
# Renamed parameters

A renaming puts its name at every reference in each part of the parameter's type. The parts are
different declarations, and none is nested in another, so the edits stand apart and can be applied. As
long as they put plain words in the place of others, documents stay free of faults and keep their
declarations.
-/

namespace SelfTypeLint

open Token TextEdit Respelling Grammar

namespace Workspace

/-- The places of a name in the part of a type at a location. -/
def partReferences (w : Workspace) (name : String) (location : Location) : List Span :=
  match w.declarationAt? location with
  | none => []
  | some d => d.references name

section

variable {w : Workspace} {old new : String} {edit out : EditSet}

/-- Renaming in one more part adds an edit at each reference there. -/
theorem editsFor_renameInPart {location : Location} (hordered : edit.Ordered)
    (h : w.renameInPart old new edit location = .ok out) :
    out.Ordered ∧ ∀ f, out.editsFor f = edit.editsFor f ++
      if location.file = f then (w.partReferences old location).map (⟨·, new⟩) else [] := by
  cases hd : w.declarationAt? location with
  | none =>
    rw [renameInPart, hd] at h
    obtain rfl := Except.ok.inj h
    refine ⟨hordered, fun f => ?_⟩
    simp only [partReferences, hd, List.map_nil, ite_self, List.append_nil]
  | some d =>
    have hparts : w.partReferences old location = d.references old := by
      simp only [partReferences, hd]
    rw [renameInPart, hd] at h
    dsimp only at h
    split at h
    · exact absurd h (by simp)
    · obtain rfl := Except.ok.inj h
      obtain ⟨hordered', hfor⟩ := EditSet.editsFor_foldl_push_spans hordered location.file
        (d.references old) new
      refine ⟨hordered', fun f => ?_⟩
      rw [hfor, hparts]
      by_cases hf : f = location.file
      · rw [if_pos hf, if_pos hf.symm]
      · rw [if_neg hf, if_neg (Ne.symm hf), List.append_nil]

/-- Renaming in some parts adds the edits of each, one part after another. -/
theorem editsFor_renameInParts {locations : List Location} (hordered : edit.Ordered)
    (h : locations.foldlM (w.renameInPart old new) edit = .ok out) (f : FileId) :
    out.editsFor f = edit.editsFor f ++
      ((locations.filter (·.file = f)).flatMap (w.partReferences old)).map (⟨·, new⟩) := by
  induction locations generalizing edit with
  | nil =>
    obtain rfl := Except.ok.inj h
    simp
  | cons l locations ih =>
    rw [List.foldlM_cons] at h
    obtain ⟨next, hpart, h⟩ := exists_of_bind_eq_ok h
    obtain ⟨hordered', hfor⟩ := editsFor_renameInPart hordered hpart
    rw [ih hordered' h, hfor]
    by_cases hf : l.file = f
    · simp [hf]
    · simp [hf]

end

variable {sources : List SourceText} {doc : Document}

/-- The references in a declaration stand at different places. -/
theorem nodup_references (hdoc : doc ∈ (build sources).documents) {d : TypeDecl}
    (hd : d ∈ doc.tree.typeDecls) (name : String) : (d.references name).Nodup :=
  (nodup_idents hdoc).sublist
    ((d.references_sublist name).trans ((doc.tree.withNested_sublist hd).flatMap _))

/-- Two parts of one type have no reference in common. -/
theorem disjoint_references (hdoc : doc ∈ (build sources).documents) {d e : TypeDecl}
    (hd : d ∈ doc.tree.typeDecls) (he : e ∈ doc.tree.typeDecls) (hne : d ≠ e)
    {i : TypeId} (hdi : (build sources).symbols.declaredType? doc.id d.nameSpan = some i)
    (hei : (build sources).symbols.declaredType? doc.id e.nameSpan = some i) (name : String) :
    (d.references name).Disjoint (e.references name) := by
  have hfaithful : (build sources).symbols.Faithful _ :=
    SymbolTable.faithful_bind (nodup_declaredSites sources)
  have htree : doc.tree ∈ (build sources).documents.map (·.tree) := List.mem_map_of_mem hdoc
  obtain ⟨-, hread, -⟩ := ofSource_of_document? (mem_documents_iff.1 hdoc)
  have hfile : doc.tree.file = doc.id := congrArg SyntaxTree.file hread
  have hnodup : doc.tree.typeDecls.Nodup := by
    rw [hread]
    exact SyntaxTree.nodup_typeDecls_read _ _
  rw [← hfile] at hdi hei
  intro s hs hs'
  obtain ⟨n, hn, -, a, ha, -, hspan⟩ := d.exists_of_mem_references hs
  obtain ⟨m, hm, -, b, hb, -, hspan'⟩ := e.exists_of_mem_references hs'
  obtain rfl : n = m := eq_of_ident_span hdoc (doc.tree.mem_typeDecls_of_withNested hd hn)
    (doc.tree.mem_typeDecls_of_withNested he hm) ha hb (hspan.trans hspan'.symm)
  rcases doc.tree.nested_of_common hnodup hd he hn hm with hde | hed
  · rcases hfaithful.eq_or_lt_of_withNested htree he hde hei hdi with heq | hlt
    · exact hne heq
    · exact Nat.lt_irrefl i hlt
  · rcases hfaithful.eq_or_lt_of_withNested htree hd hed hdi hei with heq | hlt
    · exact hne heq.symm
    · exact Nat.lt_irrefl i hlt

/-- At the place of its name the declaration itself is found. -/
theorem declarationAt?_of_mem (hdoc : doc ∈ (build sources).documents) {d : TypeDecl}
    (hd : d ∈ doc.tree.typeDecls) :
    (build sources).declarationAt? ⟨doc.id, d.nameSpan⟩ = some d := by
  have hat := mem_documents_iff.1 hdoc
  obtain ⟨-, htree, -⟩ := ofSource_of_document? hat
  cases hfind : doc.tree.typeDecls.find? (·.nameSpan = d.nameSpan) with
  | none => simpa using List.find?_eq_none.1 hfind d hd
  | some e =>
    have he := List.mem_of_find?_eq_some hfind
    have hspan : e.nameSpan = d.nameSpan := by simpa using List.find?_some hfind
    rw [htree] at hd he
    rw [SyntaxTree.eq_of_nameSpan _ _ he hd hspan] at hfind
    rw [declarationAt?, hat]
    exact hfind

/-- The places of a type are the names of declarations of it, and its parts have those of them. -/
theorem partReferences_eq {i : TypeId} {s : TypeSymbol}
    (hs : (build sources).symbols.typeSymbol? i = some s) {l : Location} (hl : l ∈ s.locations) :
    ∃ doc ∈ (build sources).documents, ∃ d ∈ doc.tree.typeDecls, l = ⟨doc.id, d.nameSpan⟩ ∧
      (build sources).symbols.declaredType? doc.id d.nameSpan = some i ∧
      ∀ name, (build sources).partReferences name l = d.references name := by
  have hfaithful : (build sources).symbols.Faithful _ :=
    SymbolTable.faithful_bind (nodup_declaredSites sources)
  obtain ⟨tree, htree, d, hd, hdeclared, rfl⟩ := ((hfaithful.locations i s hs).2 l).1 hl
  obtain ⟨doc, hdoc, rfl⟩ := List.mem_map.1 htree
  obtain ⟨-, hread, -⟩ := ofSource_of_document? (mem_documents_iff.1 hdoc)
  have hfile : doc.tree.file = doc.id := congrArg SyntaxTree.file hread
  rw [hfile] at hdeclared ⊢
  refine ⟨doc, hdoc, d, hd, rfl, hdeclared, fun name => ?_⟩
  rw [partReferences, declarationAt?_of_mem hdoc hd]

/-- The references in the parts of a type stand at different places. -/
theorem nodup_partReferences {i : TypeId} {s : TypeSymbol}
    (hs : (build sources).symbols.typeSymbol? i = some s) (f : FileId) (name : String) :
    ((s.locations.filter (·.file = f)).flatMap
      ((build sources).partReferences name)).Nodup := by
  have hfaithful : (build sources).symbols.Faithful _ :=
    SymbolTable.faithful_bind (nodup_declaredSites sources)
  have hnodup := ((hfaithful.locations i s hs).1).filter (·.file = f)
  rw [List.nodup_flatMap]
  constructor
  · intro l hl
    obtain ⟨doc, hdoc, d, hd, -, -, hreferences⟩ := partReferences_eq hs (List.mem_filter.1 hl).1
    rw [hreferences]
    exact nodup_references hdoc hd name
  · refine hnodup.imp_of_mem fun {l l'} hl hl' hne => ?_
    obtain ⟨hl, hfile⟩ := List.mem_filter.1 hl
    obtain ⟨hl', hfile'⟩ := List.mem_filter.1 hl'
    obtain ⟨doc, hdoc, d, hd, rfl, hdi, hreferences⟩ := partReferences_eq hs hl
    obtain ⟨doc', hdoc', e, he, rfl, hei, hreferences'⟩ := partReferences_eq hs hl'
    have hids : doc.id = doc'.id :=
      (of_decide_eq_true hfile).trans (of_decide_eq_true hfile').symm
    obtain rfl : doc = doc' := Option.some.inj
      ((mem_documents_iff.1 hdoc).symm.trans (hids ▸ mem_documents_iff.1 hdoc'))
    change List.Disjoint _ _
    rw [hreferences, hreferences']
    have hde : d ≠ e := fun heq => hne (heq ▸ rfl)
    exact disjoint_references hdoc hd he hde hdi hei name

section

variable {param : TypeParamId} {new : String} {cancelled : Bool} {edit : EditSet}

/-- No edit of a renaming comes twice. -/
theorem nodup_renameTypeParam
    (h : (build sources).renameTypeParam param new cancelled = .ok edit) (f : FileId) :
    (edit.editsFor f).Nodup := by
  obtain ⟨symbol, -, -, hedit⟩ := renameTypeParam_eq_ok h
  rcases hedit with ⟨-, rfl⟩ | ⟨-, owner, howner, -, -, hparts⟩
  · rw [EditSet.editsFor_empty]
    exact List.nodup_nil
  · rw [editsFor_renameInParts EditSet.ordered_empty hparts, EditSet.editsFor_empty,
      List.nil_append]
    refine (nodup_partReferences howner f symbol.name).map fun s s' hss => ?_
    exact congrArg TextEdit.span hss

/-- The edits of a renaming stand apart. -/
theorem apart_renameTypeParam
    (h : (build sources).renameTypeParam param new cancelled = .ok edit) (f : FileId) :
    EditSet.Apart (edit.editsFor f) := by
  have hharmony := (fits_renameTypeParam h).2 f
  refine List.Pairwise.imp_of_mem (fun {a b} ha hb hne => ?_) (nodup_renameTypeParam h f)
  exact (hharmony a ha b hb).resolve_left hne

/-- Each parameter of the parts of the type that has the name is given the new one. -/
theorem mem_editsFor_of_part (hclean : ∀ doc ∈ (build sources).documents, doc.errors = [])
    (h : (build sources).renameTypeParam param new cancelled = .ok edit)
    {symbol : TypeParamSymbol} (hsymbol : (build sources).symbols.typeParam? param = some symbol)
    (hne : symbol.name ≠ new) (hdoc : doc ∈ (build sources).documents) {d : TypeDecl}
    (hd : d ∈ doc.tree.typeDecls)
    (hpart : (build sources).symbols.declaredType? doc.id d.nameSpan = some symbol.owner)
    {q : TypeParam} (hq : q ∈ d.typeParams) (hname : q.name = symbol.name) :
    ⟨q.nameSpan, new⟩ ∈ edit.editsFor doc.id := by
  have hfaithful : (build sources).symbols.Faithful _ :=
    SymbolTable.faithful_bind (nodup_declaredSites sources)
  obtain ⟨-, hread, -⟩ := ofSource_of_document? (mem_documents_iff.1 hdoc)
  have hfile : doc.tree.file = doc.id := congrArg SyntaxTree.file hread
  obtain ⟨symbol', hsymbol', -, hedit⟩ := renameTypeParam_eq_ok h
  obtain rfl := Option.some.inj (hsymbol.symm.trans hsymbol')
  rcases hedit with ⟨hsame, -⟩ | ⟨-, owner, howner, -, -, hparts⟩
  · exact absurd hsame hne
  have hlocation : (⟨doc.id, d.nameSpan⟩ : Location) ∈ owner.locations :=
    ((hfaithful.locations _ owner howner).2 _).2
      ⟨doc.tree, List.mem_map_of_mem hdoc, d, hd, hfile ▸ hpart, by rw [hfile]⟩
  have hown := ownsParams_of_mem hdoc (hclean doc hdoc) hd
  have hreference : q.nameSpan ∈ d.references symbol.name := by
    rw [TypeDecl.references_eq]
    refine List.mem_append_left _ (List.mem_map.2 ⟨_, List.mem_filter.2 ⟨hown.names q hq, ?_⟩, rfl⟩)
    exact beq_iff_eq.2 hname
  rw [editsFor_renameInParts EditSet.ordered_empty hparts, EditSet.editsFor_empty, List.nil_append]
  refine List.mem_map_of_mem (List.mem_flatMap.2 ⟨_, List.mem_filter.2 ⟨hlocation, by simp⟩, ?_⟩)
  rw [partReferences, declarationAt?_of_mem hdoc hd]
  exact hreference

/-- Edits of a renaming that put plain words in the place of others respell documents. -/
theorem respellsIn_renameTypeParam
    (h : (build sources).renameTypeParam param new cancelled = .ok edit)
    (hdoc : doc ∈ (build sources).documents)
    (hwords : ∀ e ∈ edit.editsFor doc.id, e.Respells doc.text) : edit.RespellsIn doc := by
  have howned : ∀ e ∈ edit.editsFor doc.id, ∃ d ∈ doc.tree.typeDecls, ∃ i ∈ d.idents,
      i.span = e.span := by
    intro e he
    obtain ⟨-, symbol, -, doc', hdoc', d, hd, -, hspan⟩ := (exists_part_of_mem_editsFor h).2 _ e he
    obtain rfl : doc = doc' := Option.some.inj ((mem_documents_iff.1 hdoc).symm.trans hdoc')
    obtain ⟨n, hn, -, i, hi, -, hi'⟩ := d.exists_of_mem_references hspan
    exact ⟨n, doc.tree.mem_typeDecls_of_withNested hd hn, i, hi, hi'⟩
  refine ⟨⟨apart_renameTypeParam h doc.id, fun e he => ?_, hwords⟩, howned⟩
  obtain ⟨d, hd, i, hi, hspan⟩ := howned e he
  exact ⟨i, ((allPlacedIn_of_document? (mem_documents_iff.1 hdoc)).types d hd).idents i hi, hspan⟩

/-- A renaming with plain words can be applied and respells documents. -/
theorem exists_withEdit_renameTypeParam
    (hclean : ∀ doc ∈ (build sources).documents, doc.errors = [])
    (h : (build sources).renameTypeParam param new cancelled = .ok edit)
    (hwords : ∀ doc ∈ (build sources).documents, ∀ e ∈ edit.editsFor doc.id, e.Respells doc.text) :
    ∃ w, (build sources).withEdit edit = .ok w ∧ (∀ doc ∈ w.documents, doc.errors = []) ∧
      w.documents =
        (build sources).documents.map fun doc => doc.respelled (edit.editsFor doc.id) := by
  obtain ⟨w, hw, hdocuments⟩ := withEdit_respelled hclean fun doc hdoc =>
    respellsIn_renameTypeParam h hdoc (hwords doc hdoc)
  refine ⟨w, hw, ?_, hdocuments⟩
  intro doc hdoc
  rw [hdocuments] at hdoc
  obtain ⟨old, hold, rfl⟩ := List.mem_map.1 hdoc
  exact hclean old hold

end

end Workspace

end SelfTypeLint
