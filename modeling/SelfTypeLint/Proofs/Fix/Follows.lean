import SelfTypeLint.Proofs.Fix.Edited
import SelfTypeLint.Proofs.Fix.Visible
import SelfTypeLint.Proofs.Symbol.Named

/-!
# Declarations of later workspaces

Another text in the place of a document's leaves types and their parameters with their numbers, if it has the
same declarations. `Follows` relates a declaration to the one it becomes: steps can be put together
(`Follows.trans`), and a text with a parallel tree is one (`follows_withText`).
-/

namespace SelfTypeLint

namespace SymbolTable

/-- What is asked of symbols apart from their places has the same numbers. -/
theorem Mirrors.idsOf {R : FileId → TypeDecl → TypeDecl → Prop} {places : List (NameSite × TypeId)}
    {t t' : SymbolTable} (h : Mirrors R places t t') {q : TypeSymbol → Bool} (hq : ∀ s, q s.unplaced = q s) :
    t'.idsOf q = t.idsOf q := by
  have hids : ∀ t : SymbolTable, t.idsOf q = ((t.types.map TypeSymbol.unplaced).toList.filter q).map (·.id) := by
    intro t
    rw [SymbolTable.idsOf, Array.toList_map, List.filter_map, List.map_map]
    rw [show q ∘ TypeSymbol.unplaced = q from funext hq]
    rfl
  rw [hids, hids, h.types]

/-- Names of types mean the same. -/
theorem Mirrors.typeByName? {R : FileId → TypeDecl → TypeDecl → Prop} {places : List (NameSite × TypeId)}
    {t t' : SymbolTable} (h : Mirrors R places t t') : t'.typeByName? = t.typeByName? := by
  funext name
  rw [typeByName?_eq, typeByName?_eq]
  dsimp only
  rw [h.idsOf fun _ => rfl, h.idsOf fun _ => rfl, h.idsOf fun _ => rfl]

end SymbolTable

namespace Workspace

open SymbolTable SelfTypeLint.Fix

variable {sources : List SourceText} {file : FileId} {doc : Document} {text : String}
  {R : FileId → TypeDecl → TypeDecl → Prop}

/-- The trees of a workspace with another text are those it had, but for the one of the text. -/
theorem trees_withText (hdoc : (build sources).document? file = some doc)
    (hparallel : doc.tree.Parallel R Enriches (SyntaxTree.read file text).tree) :
    List.Forall₂ (fun t t' => t.Parallel (fun _ _ _ => True) Enriches t' ∧ (t.file ≠ file → t' = t))
      ((build sources).documents.map (·.tree))
      ((build ((build sources).withText file text)).documents.map (·.tree)) := by
  rw [List.forall₂_map_left_iff, List.forall₂_map_right_iff, List.forall₂_iff_get]
  refine ⟨by simp [build, withText], fun i hi hi' => ?_⟩
  have hat : (build sources).document? i = some ((build sources).documents.get ⟨i, hi⟩) :=
    List.getElem?_eq_getElem hi
  have hat' : (build ((build sources).withText file text)).document? i =
      some ((build ((build sources).withText file text)).documents.get ⟨i, hi'⟩) := List.getElem?_eq_getElem hi'
  generalize (build sources).documents.get ⟨i, hi⟩ = a at hat
  generalize (build ((build sources).withText file text)).documents.get ⟨i, hi'⟩ = a' at hat'
  have hfile := file_of_document? hat
  by_cases h : i = file
  · subst h
    obtain rfl := Option.some.inj (hdoc.symm.trans hat)
    obtain rfl := Option.some.inj ((document?_withText hdoc).symm.trans hat')
    exact ⟨hparallel.imp (fun _ _ _ => trivial) fun _ _ => id, fun hne => absurd hfile hne⟩
  · rw [document?_withText_of_ne h, hat] at hat'
    obtain rfl := Option.some.inj hat'
    exact ⟨.refl _ (fun _ _ => trivial) .refl, fun _ => rfl⟩

/-- The directives that a file gets from others are the same. -/
theorem foreign_withText (hdoc : (build sources).document? file = some doc)
    (hparallel : doc.tree.Parallel R Enriches (SyntaxTree.read file text).tree) :
    foreign (build ((build sources).withText file text)).symbols file = foreign (build sources).symbols file := by
  have hbind : ∀ trees : List SyntaxTree, foreign (SymbolTable.bind trees) file =
      (trees.filter (·.file ≠ file)).flatMap fun t => t.usings.filter (·.isGlobal) := by
    intro trees
    rw [foreign, globalUsings_bind]
    induction trees with
    | nil => rfl
    | cons t trees ih =>
      rw [List.flatMap_cons, List.filter_append, List.map_append, ih, List.filter_cons]
      by_cases h : t.file = file <;> simp [List.filter_map, Function.comp_def, h]
  have htrees := trees_withText hdoc hparallel
  rw [show (build sources).symbols = SymbolTable.bind ((build sources).documents.map (·.tree)) from rfl,
    show (build ((build sources).withText file text)).symbols =
      SymbolTable.bind ((build ((build sources).withText file text)).documents.map (·.tree)) from rfl, hbind, hbind]
  congr 1
  generalize (build sources).documents.map (·.tree) = ts at htrees
  generalize (build ((build sources).withText file text)).documents.map (·.tree) = ts' at htrees
  induction htrees with
  | nil => rfl
  | @cons t t' _ _ ht _ ih =>
    rw [List.filter_cons, List.filter_cons, ih, ht.1.file]
    by_cases h : t.file = file
    · simp [h]
    · simp [h, ht.2 h]

/-- Holds of a declaration of a workspace and one of a later workspace that has the same types, if they are
one declaration: the parameters at a place are the same, and the scope has the same levels with no other
directives than those it had and some for namespaces. -/
structure Follows (w w' : Workspace) (file : FileId) (i : Nat) (d d' : TypeDecl) : Prop where
  member : w'.symbols.member? = w.symbols.member?
  typeByName : w'.symbols.typeByName? = w.symbols.typeByName?
  options : w'.host.options = w.host.options
  size : w'.symbols.params.size = w.symbols.params.size
  param : ∃ q q', d.typeParams[i]? = some q ∧ d'.typeParams[i]? = some q' ∧
    w'.symbols.declaredTypeParam? file q'.nameSpan = w.symbols.declaredTypeParam? file q.nameSpan
  levels : ∃ s s', w.scopeOf? file d = some s ∧ w'.scopeOf? file d' = some s' ∧
    List.Forall₂ (Level.Corresponds Enriches) s.levels s'.levels

theorem Follows.trans {w w' w'' : Workspace} {i : Nat} {d d' d'' : TypeDecl} (h : Follows w w' file i d d')
    (h' : Follows w' w'' file i d' d'') : Follows w w'' file i d d'' where
  member := h'.member.trans h.member
  typeByName := h'.typeByName.trans h.typeByName
  options := h'.options.trans h.options
  size := h'.size.trans h.size
  param := by
    obtain ⟨q, q', hq, hq', hparam⟩ := h.param
    obtain ⟨q₁, q'', hq₁, hq'', hparam'⟩ := h'.param
    obtain rfl := Option.some.inj (hq'.symm.trans hq₁)
    exact ⟨q, q'', hq, hq'', hparam'.trans hparam⟩
  levels := by
    obtain ⟨s, s', hs, hs', hlevels⟩ := h.levels
    obtain ⟨s₁, s'', hs₁, hs'', hlevels'⟩ := h'.levels
    obtain rfl := Option.some.inj (hs'.symm.trans hs₁)
    exact ⟨s, s'', hs, hs'', forall₂_trans hlevels hlevels' fun _ _ _ _ hab hbc =>
      ⟨hbc.space.trans hab.space, hab.usings.trans hbc.usings⟩⟩

/-- A declaration and its counterpart in another text of its document are one declaration. -/
theorem follows_withText (hdoc : (build sources).document? file = some doc) {d d' : TypeDecl}
    (hd : d ∈ doc.tree.typeDecls) (hd' : d' ∈ (SyntaxTree.read file text).tree.typeDecls)
    (hparallel : doc.tree.Parallel R Enriches (SyntaxTree.read file text).tree)
    (hcounterparts : doc.tree.Counterparts R Enriches (SyntaxTree.read file text).tree d d') {i : Nat}
    {q q' : TypeParam} (hq : d.typeParams[i]? = some q) (hq' : d'.typeParams[i]? = some q') :
    Follows (build sources) (build ((build sources).withText file text)) file i d d' := by
  have htrees := (trees_withText hdoc hparallel).imp fun _ _ h => h.1
  have hmirrors := mirrors_bind htrees
  have hdoc' : (build ((build sources).withText file text)).document? file = some _ := document?_withText hdoc
  have hfile := file_of_document? hdoc
  have htrue : doc.tree.Counterparts (fun _ _ _ => True) Enriches (SyntaxTree.read file text).tree d d' :=
    ⟨trivial, hcounterparts.matching, hcounterparts.located, hcounterparts.within⟩
  have htree := mem_trees_of_document? hdoc
  have htree' := mem_trees_of_document? hdoc'
  have hapart := nodup_declaredSites sources
  have hapart' := nodup_declaredSites ((build sources).withText file text)
  obtain ⟨s, hs, -⟩ := isNamespaceVisible_iff_level hdoc hd
  obtain ⟨s', hs', -⟩ := isNamespaceVisible_iff_level hdoc' hd'
  refine ⟨hmirrors.member?, hmirrors.typeByName?, ?_, hmirrors.size, ⟨q, q', hq, hq', ?_⟩, s, s', hs, hs', ?_⟩
  · funext other
    simp only [host]
    by_cases h : other = file
    · subst h
      rw [hdoc', hdoc]
      rfl
    · rw [document?_withText_of_ne h]
  · have h := htrue.declaredTypeParam? htrees hapart hapart' htree htree' hparallel.file hq hq'
    rwa [hfile] at h
  · simp only [scopeOf?, hdoc, hdoc', Option.bind_eq_bind, Option.bind_some, Option.bind_eq_some_iff] at hs hs'
    obtain ⟨owner, -, hs⟩ := hs
    obtain ⟨owner', -, hs'⟩ := hs'
    rw [← Option.some.inj hs, ← Option.some.inj hs']
    have hglobal : Enriches (doc.tree.usings ++ foreign (build sources).symbols doc.tree.file)
        ((SyntaxTree.read file text).tree.usings ++
          foreign (build ((build sources).withText file text)).symbols (SyntaxTree.read file text).tree.file) := by
      rw [hparallel.file, hfile, foreign_withText hdoc hparallel]
      exact hparallel.usings.append (.refl _)
    obtain ⟨-, hread, -⟩ := ofSource_of_document? hdoc
    exact hcounterparts.levels (.refl []) (fun ns hns => by
      rw [hread] at hns ⊢
      exact enclosingNamespaces_read hns) (fun ns hns => enclosingNamespaces_read hns) hglobal owner

/-- What a declaration sees it sees later. -/
theorem Follows.visible {sources' : List SourceText} {doc' : Document} {d d' : TypeDecl} {i : Nat}
    (h : Follows (build sources) (build sources') file i d d')
    (hdoc : (build sources).document? file = some doc) (hdoc' : (build sources').document? file = some doc')
    (hd : d ∈ doc.tree.typeDecls) (hd' : d' ∈ doc'.tree.typeDecls) {space : String}
    (hvisible : isNamespaceVisible (build sources).host doc.tree d space = true) :
    isNamespaceVisible (build sources').host doc'.tree d' space = true := by
  obtain ⟨s, s', hs, hs', hlevels⟩ := h.levels
  obtain ⟨s₁, hs₁, hiff, -⟩ := isNamespaceVisible_iff_level hdoc hd
  obtain ⟨s₂, hs₂, hiff', -⟩ := isNamespaceVisible_iff_level hdoc' hd'
  obtain rfl := Option.some.inj (hs.symm.trans hs₁)
  obtain rfl := Option.some.inj (hs'.symm.trans hs₂)
  refine (hiff' space).2 (((hiff space).1 hvisible).imp_right (Or.imp ?_ ?_))
  · rintro ⟨l, hl, hspace⟩
    obtain ⟨l', hl', hcorresponds⟩ := exists_of_forall₂ hlevels hl
    exact ⟨l', hl', hcorresponds.space.trans hspace⟩
  · rintro ⟨l, hl, u, hu, hkind, htarget⟩
    obtain ⟨l', hl', hcorresponds⟩ := exists_of_forall₂ hlevels hl
    obtain ⟨u', hu', hsame⟩ := hcorresponds.usings.kept u hu
    exact ⟨l', hl', u', hu', hsame.kind_eq.trans hkind, hsame.target_eq.trans htarget⟩

end Workspace

end SelfTypeLint
