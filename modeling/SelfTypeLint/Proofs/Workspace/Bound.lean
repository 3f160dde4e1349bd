import SelfTypeLint.Proofs.Symbol.Chains
import SelfTypeLint.Proofs.Workspace.RenameFrame
import SelfTypeLint.Proofs.Workspace.RespelledScopes

/-!
# What names mean after a renaming

A renaming changes words wherever they are spelled as the parameter, whatever they mean. Where it changes
neither names of declarations nor those of attributes, and in base types exactly the words that stand for
a parameter, everything keeps its meaning: no parameter of another type gets in the way of the new name,
and none gets out of the way of the old one (`renameTypeParam_bound`).

An attribute of another parameter that is spelled as the parameter is changed too, and then means
something else (`renameTypeParam_loses_attribute`).
-/

namespace SelfTypeLint

open SymbolTable TextEdit Respelling

/-- Holds of a written type that is one word with a name and stands for a parameter of a type. -/
def Scope.MeansParamOf (s : Scope) (owner : TypeSymbol) (name : String) (e : TypeExpr) : Prop :=
  e.segments.map (·.name) = [name] ∧ ∃ q ∈ owner.typeParams, s.resolve e = .param q

instance (s : Scope) (owner : TypeSymbol) (name : String) (e : TypeExpr) :
    Decidable (s.MeansParamOf owner name e) :=
  inferInstanceAs (Decidable (_ ∧ _))

/-- Holds of a respelling that changes, in a type and those reached from it, just the words that stand for a
parameter of a type with a name. -/
def Respelling.ChangesParamOf (m : Respelling) (s : Scope) (owner : TypeSymbol) (name : String)
    (b : TypeExpr) : Prop :=
  ∀ e ∈ b.reached, ∀ x ∈ e.segments, (m.word x.span).isSome ↔ s.MeansParamOf owner name e

instance (m : Respelling) (s : Scope) (owner : TypeSymbol) (name : String) (b : TypeExpr) :
    Decidable (m.ChangesParamOf s owner name b) :=
  inferInstanceAs (Decidable (∀ e ∈ b.reached, ∀ x ∈ e.segments, _))

/-- Holds of the edits of a renaming that change references only: neither names of declarations nor those
of attributes of type parameters, and in generic base types just the words that stand for parameters with
the old name. -/
structure EditSet.ChangesReferences (edit : EditSet) (w : Workspace) (param : TypeParamId)
    (new : String) : Prop where
  declarations : ∀ doc ∈ w.documents, ∀ d ∈ doc.tree.typeDecls,
    (edit.respelling doc).word d.nameSpan = none
  attributes : ∀ doc ∈ w.documents, ∀ d ∈ doc.tree.typeDecls, ∀ q ∈ d.typeParams,
    ∀ l ∈ q.attributes, ∀ a ∈ l.attributes, ∀ x ∈ a.name.segments,
      (edit.respelling doc).word x.span = none
  bases : ∀ symbol ∈ w.symbols.typeParam? param, symbol.name ≠ new →
    ∀ owner ∈ w.symbols.typeSymbol? symbol.owner, ∀ doc ∈ w.documents, ∀ d ∈ doc.tree.typeDecls,
      ∀ s ∈ w.scopeOf? doc.id d, ∀ b ∈ d.baseList, b.isGeneric →
        (edit.respelling doc).ChangesParamOf s owner symbol.name b

namespace Workspace

variable {sources sources' : List SourceText} {param : TypeParamId} {new : String}
  {cancelled : Bool} {edit : EditSet}

/-- The words of base types of a document without faults belong to its declarations. -/
theorem ownsBases_of_mem {doc : Document} (hdoc : doc ∈ (build sources).documents)
    (hclean : doc.errors = []) {d : TypeDecl} (hd : d ∈ doc.tree.typeDecls) : Grammar.OwnsBases d := by
  obtain ⟨-, htree, herrors⟩ := ofSource_of_document? (mem_documents_iff.1 hdoc)
  obtain ⟨is, hform⟩ := SyntaxTree.membersForm_read (herrors.symm.trans hclean)
  rw [← htree] at hform
  exact hform.ownsBases (Token.placed_ofSource doc.text) hd

/-- A place of a type is the name of a declaration of it. -/
theorem declaredType?_of_location {id : TypeId} {owner : TypeSymbol}
    (howner : (build sources).symbols.typeSymbol? id = some owner) {file : FileId} {span : Span}
    (hlocation : (⟨file, span⟩ : Location) ∈ owner.locations) :
    (build sources).symbols.declaredType? file span = some id := by
  obtain ⟨tree, -, f, -, hdeclared, heq⟩ :=
    (((faithful_build sources).locations id owner howner).2 _).1 hlocation
  obtain ⟨hfile, hspan⟩ := Location.mk.inj heq
  rw [hfile, hspan]
  exact hdeclared

/-- What a type has as a parameter is owned by it. -/
theorem mem_typeParams_iff {id : TypeId} {owner : TypeSymbol}
    (howner : (build sources).symbols.typeSymbol? id = some owner) {j : TypeParamId}
    {p : TypeParamSymbol} (hp : (build sources).symbols.typeParam? j = some p) :
    j ∈ owner.typeParams ↔ p.owner = id := by
  constructor
  · intro hj
    obtain ⟨k, hk⟩ := List.mem_iff_getElem?.1 hj
    obtain ⟨p', hp', hid, -⟩ := (faithful_build sources).formal id owner k j howner hk
    obtain rfl := Option.some.inj (hp.symm.trans hp')
    exact hid
  · rintro rfl
    obtain ⟨-, s, hs, hk⟩ := (faithful_build sources).param j p hp
    obtain rfl := Option.some.inj (howner.symm.trans hs)
    exact List.mem_of_getElem? hk

section

variable (h : (build sources).renameTypeParam param new cancelled = .ok edit)
  {symbol : TypeParamSymbol} (hsymbol : (build sources).symbols.typeParam? param = some symbol)

include h hsymbol

/-! ## Words -/

/-- A renaming gives an identifier of a declaration the new word only if it has the old name, in a part of
the type, and the declaration is this part or has no parameter of the name. -/
theorem exists_part_of_word {doc : Document} (hdoc : doc ∈ (build sources).documents) {d : TypeDecl}
    (hd : d ∈ doc.tree.typeDecls) {i : Ident} (hi : i ∈ d.idents) {word : String}
    (hword : (edit.respelling doc).word i.span = some word) :
    word = new ∧ symbol.name ≠ new ∧ i.name = symbol.name ∧ ∃ f ∈ doc.tree.typeDecls,
      (build sources).symbols.declaredType? doc.id f.nameSpan = some symbol.owner ∧
      d ∈ f.withNested ∧ (d = f ∨ ∀ q ∈ d.typeParams, q.name ≠ symbol.name) := by
  have hmem : ⟨i.span, word⟩ ∈ edit.editsFor doc.id := mem_of_wordAt hword
  obtain ⟨symbol', hsymbol', -, hedit⟩ := renameTypeParam_eq_ok h
  obtain rfl := Option.some.inj (hsymbol.symm.trans hsymbol')
  rcases hedit with ⟨-, rfl⟩ | ⟨hne, owner, howner, -, -, hparts⟩
  · exact absurd hmem (by simp)
  obtain ⟨doc', hdoc', f, hf, hlocation, s, hs, heq⟩ := exists_part_of_mem_edits howner hparts hmem
  obtain rfl : doc = doc' := Option.some.inj ((mem_documents_iff.1 hdoc).symm.trans hdoc')
  obtain ⟨hspan, hnew⟩ := TextEdit.mk.inj heq
  obtain ⟨e, he, hown, i', hi', hname, hspan'⟩ := f.exists_of_mem_references hs
  have hspans : i'.span = i.span := hspan'.trans hspan.symm
  obtain rfl := eq_of_ident_span hdoc (doc.tree.mem_typeDecls_of_withNested hf he) hd hi' hi hspans
  obtain rfl := List.inj_on_of_nodup_map ((List.nodup_flatMap.1 (nodup_idents hdoc)).1 e hd) hi' hi
    hspans
  exact ⟨hnew, hne, hname, f, hf, declaredType?_of_location howner hlocation, he, hown⟩

/-- In the parts of the type no identifier outside of the attributes of parameters has the new name. -/
theorem name_ne_of_part (hne : symbol.name ≠ new) {doc : Document}
    (hdoc : doc ∈ (build sources).documents) {d f : TypeDecl} (hf : f ∈ doc.tree.typeDecls)
    (hpart : (build sources).symbols.declaredType? doc.id f.nameSpan = some symbol.owner)
    (hd : d ∈ f.withNested) {i : Ident} (hi : i ∈ d.idents)
    (houtside : ∀ q ∈ d.typeParams, ∀ l ∈ q.attributes, l.span.contains i.span = false) :
    i.name ≠ new := by
  intro hname
  obtain ⟨symbol', hsymbol', -, hedit⟩ := renameTypeParam_eq_ok h
  obtain rfl := Option.some.inj (hsymbol.symm.trans hsymbol')
  rcases hedit with ⟨hsame, -⟩ | ⟨-, owner, howner, -, -, hparts⟩
  · exact hne hsame
  have hlocation : (⟨doc.id, f.nameSpan⟩ : Location) ∈ owner.locations :=
    (((faithful_build sources).locations _ owner howner).2 _).2 ⟨doc.tree, List.mem_map_of_mem hdoc,
      f, hf, by rw [EditSet.RespellsTo.file_tree hdoc]; exact hpart,
      by rw [EditSet.RespellsTo.file_tree hdoc]⟩
  have hnone := capture?_eq_none_of_foldlM hparts hlocation (declarationAt?_of_mem hdoc hf)
  obtain ⟨q, hq, l, hl, hcontains⟩ := f.exists_list_of_capture?_eq_none hnone hd hi hname
  rw [houtside q hq l hl] at hcontains
  exact absurd hcontains (by simp)

end

/-! ## Names of parameters -/

section

variable (hclean : ∀ doc ∈ (build sources).documents, doc.errors = [])
  (h : (build sources).renameTypeParam param new cancelled = .ok edit) {symbol : TypeParamSymbol}
  (hsymbol : (build sources).symbols.typeParam? param = some symbol)

include hclean h hsymbol

/-- No parameter of the type, or of one nested in it, has the new name. -/
theorem name_ne_of_around (hne : symbol.name ≠ new) {j : TypeParamId} {p : TypeParamSymbol}
    (hp : (build sources).symbols.typeParam? j = some p)
    (haround : (build sources).symbols.Around p.owner symbol.owner) : p.name ≠ new := by
  obtain ⟨tree, htree, d, hd, hdeclared, hname⟩ := exists_spelling (nodup_declaredSites sources) hp
  obtain ⟨doc, hdoc, rfl⟩ := List.mem_map.1 htree
  obtain ⟨f, hf, hpart, hnested⟩ := (faithful_build sources).exists_around htree hd hdeclared haround
  rw [EditSet.RespellsTo.file_tree hdoc] at hpart
  rw [List.getElem?_map] at hname
  obtain ⟨q, hq, heq⟩ := Option.map_eq_some_iff.1 hname
  have hq := List.mem_of_getElem? hq
  have hown := ownsParams_of_mem hdoc (hclean doc hdoc) hd
  have hqne := name_ne_of_part h hsymbol hne hdoc hf hpart hnested (hown.names q hq) fun r hr l hl =>
    hown.outside q hq r hr l hl
  exact fun hnew => hqne (heq.trans hnew)

variable (hto : edit.RespellsTo sources sources')

include hto

/-- The parameters of the type that have the old name get the new one; others keep theirs. -/
theorem name_renamed {j : TypeParamId} {p p' : TypeParamSymbol}
    (hp : (build sources).symbols.typeParam? j = some p)
    (hp' : (build sources').symbols.typeParam? j = some p') :
    p'.name = if p.owner = symbol.owner ∧ p.name = symbol.name then new else p.name := by
  obtain ⟨-, -, _, d, _, ⟨doc, hdoc, rfl, hd, rfl⟩, hplace, hname, hname'⟩ :=
    hto.mirrors.params j p p' hp hp'
  have hdeclared : (build sources).symbols.declaredType? doc.id d.nameSpan = some p.owner :=
    declaredType?_of_mem_decls (nodup_declaredSites sources) hplace
  rw [List.getElem?_map] at hname
  obtain ⟨q, hq, heq⟩ := Option.map_eq_some_iff.1 hname
  rw [typeParams_typeDecl, List.map_map, List.getElem?_map, hq, Option.map_some] at hname'
  have hnew : p'.name = ((edit.respelling doc).word q.nameSpan).getD p.name :=
    heq ▸ (Option.some.inj hname').symm
  have hq := List.mem_of_getElem? hq
  have hown := (ownsParams_of_mem hdoc (hclean doc hdoc) hd).names q hq
  rw [hnew]
  cases hword : (edit.respelling doc).word q.nameSpan with
  | none =>
    rw [Option.getD_none]
    split
    · next hold =>
      by_contra hne
      have hmem := mem_editsFor_of_part hclean h hsymbol (fun hsame => hne (hold.2.trans hsame)) hdoc hd
        (hold.1 ▸ hdeclared) hq (heq.trans hold.2)
      have hfind := List.find?_eq_none.1 (Option.map_eq_none_iff.1 hword) _ hmem
      simp at hfind
    · rfl
  | some word =>
    obtain ⟨rfl, -, hold, f, -, hpart, -, hparts⟩ := exists_part_of_word h hsymbol hdoc hd hown hword
    rcases hparts with rfl | hother
    · rw [hdeclared] at hpart
      rw [if_pos ⟨Option.some.inj hpart, heq.symm.trans hold⟩, Option.getD_some]
    · exact absurd hold (hother q hq)

/-- A parameter of a type before and after. -/
theorem exists_renamed {i : TypeId} {s : TypeSymbol}
    (hs : (build sources).symbols.typeSymbol? i = some s) {j : TypeParamId} (hj : j ∈ s.typeParams) :
    ∃ p p', (build sources).symbols.typeParam? j = some p ∧
      (build sources').symbols.typeParam? j = some p' ∧ p.owner = i ∧
      p'.name = if i = symbol.owner ∧ p.name = symbol.name then new else p.name := by
  obtain ⟨k, hk⟩ := List.mem_iff_getElem?.1 hj
  obtain ⟨p, hp, rfl, -⟩ := (faithful_build sources).formal i s k j hs hk
  obtain ⟨hlt, -⟩ := Array.getElem?_eq_some_iff.1 hp
  rw [← hto.mirrors.size] at hlt
  have hp' : (build sources').symbols.typeParam? j = some _ := Array.getElem?_eq_getElem hlt
  exact ⟨p, _, hp, hp', rfl, name_renamed hclean h hsymbol hto hp hp'⟩

/-- In a type other names, and in other types all names, are those of the same parameters. -/
theorem formalNamed?_kept {name : String} {i : TypeId}
    (hother : i = symbol.owner → symbol.name ≠ new → name ≠ symbol.name ∧ name ≠ new) :
    (build sources').symbols.formalNamed? name i = (build sources).symbols.formalNamed? name i := by
  refine formalNamed?_congr (hto.mirrors.map_typeSymbol? (·.typeParams) (fun _ => rfl) i) ?_
  intro s hs j hj
  obtain ⟨p, p', hp, hp', -, hname⟩ := exists_renamed hclean h hsymbol hto hs hj
  rw [hp, hp', Option.any_some, Option.any_some, hname]
  split
  · next hold =>
    by_cases hne : symbol.name = new
    · rw [hold.2, hne]
    · obtain ⟨hname, hnew⟩ := hother hold.1 hne
      rw [hold.2, beq_false_of_ne hname.symm, beq_false_of_ne hnew.symm]
  · rfl

/-- In the type the new name is that of the parameter that had the old one, -/
theorem formalNamed?_new (hne : symbol.name ≠ new) :
    (build sources').symbols.formalNamed? new symbol.owner =
      (build sources).symbols.formalNamed? symbol.name symbol.owner := by
  refine formalNamed?_congr (hto.mirrors.map_typeSymbol? (·.typeParams) (fun _ => rfl) _) ?_
  intro s hs j hj
  obtain ⟨p, p', hp, hp', howner, hname⟩ := exists_renamed hclean h hsymbol hto hs hj
  rw [hp, hp', Option.any_some, Option.any_some, hname]
  split
  · next hold => rw [hold.2, beq_self_eq_true, beq_self_eq_true]
  · next hold =>
    have hnew := name_ne_of_around hclean h hsymbol hne hp (howner ▸ .refl)
    rw [beq_false_of_ne hnew, beq_false_of_ne fun hsame => hold ⟨rfl, hsame⟩]

/-- and no parameter has the old one. -/
theorem formalNamed?_old (hne : symbol.name ≠ new) :
    (build sources').symbols.formalNamed? symbol.name symbol.owner = none := by
  refine Option.bind_eq_none_iff.2 fun s' hs' => List.find?_eq_none.2 fun j hj => ?_
  have hparams := hto.mirrors.map_typeSymbol? (·.typeParams) (fun _ => rfl) symbol.owner
  rw [hs', Option.map_some] at hparams
  obtain ⟨s, hs, heq⟩ := Option.map_eq_some_iff.1 hparams.symm
  obtain ⟨p, p', -, hp', -, hname⟩ := exists_renamed hclean h hsymbol hto hs (heq ▸ hj)
  rw [hp', Option.any_some, hname, beq_iff_eq]
  split
  · exact hne.symm
  · next hold => exact fun hsame => hold ⟨rfl, hsame⟩

/-! ## Parameters in scope -/

/-- Where the old name stands for a parameter of the type, the new one does. -/
theorem typeParam?_new (hne : symbol.name ≠ new) {i : TypeId} {j : TypeParamId} {p : TypeParamSymbol}
    (hfound : ((build sources).symbols.typeChain i).findSome?
      ((build sources).symbols.formalNamed? symbol.name) = some j)
    (hp : (build sources).symbols.typeParam? j = some p) (howner : p.owner = symbol.owner) :
    ((build sources').symbols.typeChain i).findSome?
      ((build sources').symbols.formalNamed? new) = some j := by
  obtain ⟨as, o, bs, hchain, hj, hnone⟩ := List.findSome?_eq_some_iff.1 hfound
  obtain ⟨p₀, hp₀, rfl, -⟩ := (faithful_build sources).formalNamed?_eq_some hj
  obtain rfl := Option.some.inj (hp.symm.trans hp₀)
  rw [hto.mirrors.typeChain]
  refine List.findSome?_eq_some_iff.2 ⟨as, p.owner, bs, hchain, ?_, fun a ha => ?_⟩
  · rw [howner, formalNamed?_new hclean h hsymbol hto hne, ← howner, hj]
  · -- A type further in has no parameter of the new name, neither before nor after.
    have hother : a ≠ symbol.owner := by
      intro hsame
      have hsome := hnone a ha
      rw [hsame, ← howner, hj] at hsome
      exact absurd hsome (by simp)
    rw [formalNamed?_kept hclean h hsymbol hto fun hsame => absurd hsame hother]
    by_contra hsome
    obtain ⟨k, hk⟩ := Option.ne_none_iff_exists'.1 hsome
    obtain ⟨r, hr, rfl, hname⟩ := (faithful_build sources).formalNamed?_eq_some hk
    have haround := around_of_split hchain r.owner ha
    exact name_ne_of_around hclean h hsymbol hne hr (howner ▸ haround) hname

/-- Another name stands for what it stood for, as does the old one where this was no parameter of the
type. -/
theorem typeParam?_kept {i : TypeId} {name : String}
    (hnew : symbol.name ≠ new → symbol.owner ∈ (build sources).symbols.typeChain i → name ≠ new)
    (hold : symbol.name ≠ new → name = symbol.name → ∀ j p,
      ((build sources).symbols.typeChain i).findSome?
        ((build sources).symbols.formalNamed? name) = some j →
      (build sources).symbols.typeParam? j = some p → p.owner ≠ symbol.owner) :
    ((build sources').symbols.typeChain i).findSome? ((build sources').symbols.formalNamed? name) =
      ((build sources).symbols.typeChain i).findSome? ((build sources).symbols.formalNamed? name) := by
  rw [hto.mirrors.typeChain]
  generalize (build sources).symbols.typeChain i = chain at hnew hold
  induction chain with
  | nil => rw [List.findSome?_nil, List.findSome?_nil]
  | cons a chain ih =>
    have hrest : (build sources).symbols.formalNamed? name a = none →
        chain.findSome? ((build sources').symbols.formalNamed? name) =
          chain.findSome? ((build sources).symbols.formalNamed? name) := by
      intro hnone
      refine ih (fun hne hmem => hnew hne (List.mem_cons_of_mem _ hmem)) fun hne hname j p hj => ?_
      exact hold hne hname j p (by rw [List.findSome?_cons, hnone]; exact hj)
    rw [List.findSome?_cons, List.findSome?_cons]
    by_cases hsame : a = symbol.owner ∧ symbol.name ≠ new ∧ name = symbol.name
    · obtain ⟨rfl, hne, rfl⟩ := hsame
      have hnone : (build sources).symbols.formalNamed? symbol.name symbol.owner = none := by
        by_contra hsome
        obtain ⟨j, hj⟩ := Option.ne_none_iff_exists'.1 hsome
        obtain ⟨p, hp, howner, -⟩ := (faithful_build sources).formalNamed?_eq_some hj
        exact hold hne rfl j p (by rw [List.findSome?_cons, hj]) hp howner
      rw [formalNamed?_old hclean h hsymbol hto hne, hnone]
      exact hrest hnone
    · rw [formalNamed?_kept hclean h hsymbol hto fun howner hne =>
        ⟨fun hname => hsame ⟨howner, hne, hname⟩, hnew hne (howner ▸ List.mem_cons_self)⟩]
      cases hj : (build sources).symbols.formalNamed? name a with
      | none => exact hrest hj
      | some j => dsimp only

end

/-! ## Types as they are written -/

section

variable (hclean : ∀ doc ∈ (build sources).documents, doc.errors = [])
  (h : (build sources).renameTypeParam param new cancelled = .ok edit) {symbol : TypeParamSymbol}
  (hsymbol : (build sources).symbols.typeParam? param = some symbol) {owner : TypeSymbol}
  (howner : (build sources).symbols.typeSymbol? symbol.owner = some owner)
  (hto : edit.RespellsTo sources sources') {doc : Document} (hdoc : doc ∈ (build sources).documents)
  {d : TypeDecl} (hd : d ∈ doc.tree.typeDecls) {i : TypeId}
  (hi : (build sources).symbols.declaredType? doc.id d.nameSpan = some i)

include hclean h hsymbol howner hto hdoc hd hi

/-- A word that changes just if it stands for one of the parameters with the old name stands for the
parameter that it stood for. -/
theorem asParam?_renamed {isGlobal : Bool} {segments : List (NameSegment TypeExpr)} {span : Span}
    (hwords : symbol.name ≠ new → ∀ x ∈ segments, (((edit.respelling doc).word x.span).isSome ↔
      (Scope.ofDecl (build sources).symbols doc.tree d i).MeansParamOf owner symbol.name
        (.path isGlobal segments span)))
    (hidents : ∀ x ∈ segments, (⟨x.name, x.span⟩ : Ident) ∈ d.idents)
    (houtside : ∀ x ∈ segments, ∀ q ∈ d.typeParams, ∀ l ∈ q.attributes,
      l.span.contains x.span = false) :
    (Scope.ofDecl (build sources').symbols ((edit.respelling doc).tree doc.tree)
        ((edit.respelling doc).typeDecl d) i).asParam? isGlobal
          ((edit.respelling doc).segmentList segments) =
      (Scope.ofDecl (build sources).symbols doc.tree d i).asParam? isGlobal segments := by
  refine asParam?_segmentList fun x hx hglobal hargs => ?_
  subst hx hglobal
  have hident := hidents x List.mem_cons_self
  have hasParam : (Scope.ofDecl (build sources).symbols doc.tree d i).asParam? false [x] =
      (Scope.ofDecl (build sources).symbols doc.tree d i).typeParam? x.name := by
    rw [Scope.asParam?, hargs]
    rfl
  rw [Scope.typeParam?_ofDecl] at hasParam
  rw [Scope.typeParam?_ofDecl, Scope.typeParam?_ofDecl]
  rw [text]
  cases hchanged : (edit.respelling doc).word x.span with
  | some word =>
    -- The word stands for a parameter of the type.
    obtain ⟨rfl, hne, hold, -⟩ := exists_part_of_word h hsymbol hdoc hd hident hchanged
    obtain ⟨-, j, hj, hresolve⟩ := (hwords hne x List.mem_cons_self).1 (by rw [hchanged]; rfl)
    have hfound := hasParam.symm.trans (Scope.asParam?_of_resolve hresolve)
    obtain ⟨k, hk⟩ := List.mem_iff_getElem?.1 hj
    obtain ⟨p, hp, hpowner, -⟩ := (faithful_build sources).formal _ owner k j howner hk
    rw [Option.getD_some, hfound]
    exact typeParam?_new hclean h hsymbol hto hne (hold ▸ hfound) hp hpowner
  | none =>
    rw [Option.getD_none]
    refine typeParam?_kept hclean h hsymbol hto (fun hne haround => ?_) fun hne hold j p hj hp hpowner => ?_
    · obtain ⟨f, hf, hpart, hnested⟩ := (faithful_build sources).exists_around
        (List.mem_map_of_mem hdoc) hd (by rw [EditSet.RespellsTo.file_tree hdoc]; exact hi)
        (around_of_mem_typeChain haround)
      rw [EditSet.RespellsTo.file_tree hdoc] at hpart
      exact name_ne_of_part h hsymbol hne hdoc hf hpart hnested hident (houtside x List.mem_cons_self)
    · -- The word would have been changed.
      have hmeans : (Scope.ofDecl (build sources).symbols doc.tree d i).MeansParamOf owner symbol.name
          (.path false [x] span) := by
        refine ⟨by rw [TypeExpr.segments, List.map_singleton, hold], j,
          (mem_typeParams_iff howner hp).2 hpowner, ?_⟩
        rw [Scope.resolve_path, hasParam, hj]
      have hsome := (hwords hne x List.mem_cons_self).2 hmeans
      rw [hchanged] at hsome
      exact absurd hsome (by simp)

/-- A generic base type in which just such words change means what it meant. -/
theorem resolve_renamed {e : TypeExpr}
    (hwords : symbol.name ≠ new → (edit.respelling doc).ChangesParamOf
      (.ofDecl (build sources).symbols doc.tree d i) owner symbol.name e)
    (hidents : ∀ a ∈ e.reached, ∀ x ∈ a.segments, (⟨x.name, x.span⟩ : Ident) ∈ d.idents)
    (houtside : ∀ a ∈ e.reached, ∀ x ∈ a.segments, ∀ q ∈ d.typeParams, ∀ l ∈ q.attributes,
      l.span.contains x.span = false) :
    (Scope.ofDecl (build sources').symbols ((edit.respelling doc).tree doc.tree)
        ((edit.respelling doc).typeDecl d) i).resolve ((edit.respelling doc).typeExpr e) =
      (Scope.ofDecl (build sources).symbols doc.tree d i).resolve e := by
  refine resolve_typeExpr (hto.alike hdoc hd i) e fun a ha isGlobal segments span heq => ?_
  subst heq
  refine ⟨asParam?_renamed hclean h hsymbol howner hto hdoc hd hi (fun hne => hwords hne _ ha)
    (hidents _ ha) (houtside _ ha), fun hnone x hx => ?_⟩
  by_contra hsome
  obtain ⟨word, hword⟩ := Option.ne_none_iff_exists'.1 hsome
  obtain ⟨-, hne, -⟩ := exists_part_of_word h hsymbol hdoc hd (hidents _ ha x hx) hword
  obtain ⟨-, j, -, hresolve⟩ := (hwords hne _ ha x hx).1 (Option.isSome_iff_ne_none.2 hsome)
  rw [Scope.asParam?_of_resolve hresolve] at hnone
  exact absurd hnone (by simp)

end

/-- The kinds, names and numbers of parameters of the declarations of each document. -/
def headers (w : Workspace) : List (List (TypeKind × String × Nat)) :=
  w.documents.map fun doc => doc.tree.typeDecls.map fun d => (d.kind, d.name, d.arity)

/-- Documents that are respelled and leave the names of declarations as they are have the same
declarations. -/
theorem headers_eq (hto : edit.RespellsTo sources sources') :
    (build sources').headers = (build sources).headers := by
  rw [headers, hto.documents, headers, List.map_map]
  refine List.map_congr_left fun doc hdoc => ?_
  have htree : (doc.respelled (edit.editsFor doc.id)).tree = (edit.respelling doc).tree doc.tree := rfl
  rw [Function.comp_apply, htree, Respelling.typeDecls_tree, List.map_map]
  refine List.map_congr_left fun d hd => ?_
  obtain ⟨hkind, hname, harity⟩ := Respelling.matches_typeDecl (hto.names doc hdoc d hd)
  rw [Function.comp_apply, hkind, hname, harity]

/-- A renaming binds names as they were bound if it changes references only, and puts plain words in the
place of others. It can be applied to a workspace without faults; documents stay free of them and keep
their declarations, and the parameter has its new name. The declarations are of the types that they were
of, each generic entry of a base list means the type that it meant, and each parameter has the attributes
that it had. -/
theorem renameTypeParam_bound (hclean : ∀ doc ∈ (build sources).documents, doc.errors = [])
    (h : (build sources).renameTypeParam param new cancelled = .ok edit)
    (hwords : ∀ doc ∈ (build sources).documents, ∀ e ∈ edit.editsFor doc.id, e.Respells doc.text)
    (hreferences : edit.ChangesReferences (build sources) param new) :
    ∃ w, (build sources).withEdit edit = .ok w ∧ (∀ doc ∈ w.documents, doc.errors = []) ∧
      w.documents = (build sources).documents.map (fun doc => doc.respelled (edit.editsFor doc.id)) ∧
      w.headers = (build sources).headers ∧
      (w.symbols.typeParam? param).map (·.name) = some new ∧
      (∀ doc ∈ (build sources).documents, ∀ d ∈ doc.tree.typeDecls,
        let d' := (edit.respelling doc).typeDecl d
        w.symbols.declaredType? doc.id d'.nameSpan =
            (build sources).symbols.declaredType? doc.id d.nameSpan ∧
          d'.baseList.map (w.resolveBaseType doc.id d') =
            d.baseList.map ((build sources).resolveBaseType doc.id d)) ∧
      ∀ j, (w.symbols.typeParam? j).map (·.attributes) =
        ((build sources).symbols.typeParam? j).map (·.attributes) := by
  obtain ⟨w, hw, herrors, hdocuments⟩ := exists_withEdit_renameTypeParam hclean h hwords
  obtain ⟨sources', -, hbuild⟩ := exists_of_bind_eq_ok hw
  obtain rfl : build sources' = w := Except.ok.inj hbuild
  have hto : edit.RespellsTo sources sources' := ⟨hdocuments, hreferences.declarations⟩
  obtain ⟨symbol, hsymbol, -⟩ := renameTypeParam_eq_ok h
  obtain ⟨-, owner, howner, hformal⟩ := (faithful_build sources).param param symbol hsymbol
  refine ⟨_, hw, herrors, hdocuments, headers_eq hto, ?_, fun doc hdoc d hd => ⟨?_, ?_⟩,
    hto.map_attributes hreferences.attributes⟩
  · obtain ⟨p, p', hp, hp', -, hname⟩ :=
      exists_renamed hclean h hsymbol hto howner (List.mem_of_getElem? hformal)
    obtain rfl := Option.some.inj (hsymbol.symm.trans hp)
    rw [hp', Option.map_some, hname, if_pos ⟨rfl, rfl⟩]
  · exact hto.declaredType? hdoc hd
  · obtain ⟨i, hi, hs, hs'⟩ := hto.scopeOf? hdoc hd
    have hown := ownsBases_of_mem hdoc (hclean doc hdoc) hd
    rw [baseList_typeDecl, List.map_map]
    refine List.map_congr_left fun b hb => ?_
    rw [Function.comp_apply, resolveBaseType, resolveBaseType, isGeneric_typeExpr]
    split
    · next hgeneric =>
      rw [hs, hs', Option.bind_eq_bind, Option.bind_some, Option.bind_some,
        resolve_renamed hclean h hsymbol howner hto hdoc hd hi
          (fun hne => hreferences.bases symbol hsymbol hne owner howner doc hdoc d hd _ hs b hb hgeneric)
          (hown.words b hb) (hown.outside b hb)]
      split
      · next definition args _ =>
        have hconstructed := hto.mirrors.map_typeSymbol?
          (fun s => (⟨definition, s.typeParams, args⟩ : ConstructedType)) (fun _ => rfl) definition
        rw [Option.map_eq_bind, Option.map_eq_bind] at hconstructed
        exact hconstructed
      · rfl
    · rfl

/-- A parameter of a type with two parts. In the one its name stands for that of a nested type, too, in the
other it has an attribute. -/
def partsShadowed : List SourceText :=
  [⟨"A.cs", "interface I<TSelf> \x7b\x7d partial class A<T> : I<A<T>> \x7b class B<T> : I<T> \x7b\x7d \x7d",
      .empty⟩,
    ⟨"B.cs", "partial class A<[S] T> : I<T>; class S;", .empty⟩]

/-- Renaming the parameter leaves that of the nested type and the attribute as they are. -/
theorem renameTypeParam_partsShadowed :
    (∀ doc ∈ (build partsShadowed).documents, doc.errors = []) ∧
      ∃ edit w, (build partsShadowed).renameTypeParam 1 "X" false = .ok edit ∧
        edit.editsFor 0 = [⟨⟨38, 39⟩, "X"⟩, ⟨⟨47, 48⟩, "X"⟩] ∧
        edit.editsFor 1 = [⟨⟨20, 21⟩, "X"⟩, ⟨⟨27, 28⟩, "X"⟩] ∧
        (∀ doc ∈ (build partsShadowed).documents, ∀ e ∈ edit.editsFor doc.id, e.Respells doc.text) ∧
        edit.ChangesReferences (build partsShadowed) 1 "X" ∧
        (build partsShadowed).withEdit edit = .ok w ∧
        (w.symbols.typeParam? 1).map (fun p => (p.name, p.attributes)) = some ("X", [20]) := by
  have hclean : ∀ doc ∈ (build partsShadowed).documents, doc.errors = [] := by decide +kernel
  have hrename : (build partsShadowed).renameTypeParam 1 "X" false =
      .ok ⟨[(0, [⟨⟨38, 39⟩, "X"⟩, ⟨⟨47, 48⟩, "X"⟩]), (1, [⟨⟨20, 21⟩, "X"⟩, ⟨⟨27, 28⟩, "X"⟩])]⟩ := by
    decide +kernel
  have hwords : ∀ doc ∈ (build partsShadowed).documents, ∀ e ∈ EditSet.editsFor
      ⟨[(0, [⟨⟨38, 39⟩, "X"⟩, ⟨⟨47, 48⟩, "X"⟩]), (1, [⟨⟨20, 21⟩, "X"⟩, ⟨⟨27, 28⟩, "X"⟩])]⟩ doc.id,
      e.Respells doc.text := by decide +kernel
  have hreferences : EditSet.ChangesReferences
      ⟨[(0, [⟨⟨38, 39⟩, "X"⟩, ⟨⟨47, 48⟩, "X"⟩]), (1, [⟨⟨20, 21⟩, "X"⟩, ⟨⟨27, 28⟩, "X"⟩])]⟩
      (build partsShadowed) 1 "X" :=
    ⟨by decide +kernel, by decide +kernel, by decide +kernel⟩
  have hold : ((build partsShadowed).symbols.typeParam? 1).map (·.attributes) = some [20] := by
    decide +kernel
  obtain ⟨w, hw, -, -, -, hname, -, hattributes⟩ :=
    renameTypeParam_bound hclean hrename hwords hreferences
  refine ⟨hclean, _, w, hrename, rfl, rfl, hwords, hreferences, hw, ?_⟩
  have hkept := (hattributes 1).trans hold
  cases hp : w.symbols.typeParam? 1 with
  | none => rw [hp] at hname; exact absurd hname (by simp)
  | some p =>
    rw [hp, Option.map_some] at hname hkept
    rw [Option.map_some, Option.some.inj hname, Option.some.inj hkept]

/-- A parameter and an attribute of another parameter that are spelled alike. -/
def attributeNamedAlike : List SourceText :=
  [⟨"A.cs", "class TAttribute {} class A<[T] U, T> {}", .empty⟩]

/-- After the renaming the other parameter does not have the attribute. -/
theorem renameTypeParam_loses_attribute :
    ∃ edit w, (build attributeNamedAlike).renameTypeParam 1 "X" false = .ok edit ∧
      (build attributeNamedAlike).withEdit edit = .ok w ∧
      ((build attributeNamedAlike).symbols.typeParam? 0).map (·.attributes) = some [17] ∧
      (w.symbols.typeParam? 0).map (·.attributes) = some [] := by
  have hrename : (build attributeNamedAlike).renameTypeParam 1 "X" false =
      .ok ⟨[(0, [⟨⟨29, 30⟩, "X"⟩, ⟨⟨35, 36⟩, "X"⟩])]⟩ := by decide +kernel
  have happly : ∀ doc ∈ (build attributeNamedAlike).documents,
      EditSet.applyTo ⟨[(0, [⟨⟨29, 30⟩, "X"⟩, ⟨⟨35, 36⟩, "X"⟩])]⟩ doc.id doc.text =
        .ok "class TAttribute {} class A<[X] U, X> {}" := by
    intro doc hdoc
    obtain rfl := List.mem_singleton.1 hdoc
    exact EditSet.applyTo_of_pairwise (by decide +kernel) (by decide +kernel) (by decide +kernel)
  refine ⟨_, _, hrename, withEdit_eq happly, ?_, ?_⟩
  · decide +kernel
  · decide +kernel

end Workspace

end SelfTypeLint
