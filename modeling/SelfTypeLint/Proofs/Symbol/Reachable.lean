import SelfTypeLint.Proofs.Symbol.Levels
import SelfTypeLint.Proofs.Symbol.Origins
import SelfTypeLint.Proofs.Symbol.OwnName

/-!
# Types by their qualified names

From the global namespace a qualified name leads through namespaces to a type and on through the types
nested in it. The first segment that names a type decides, so a type hides a namespace of its name. Where
this happens to no namespace, the main statement, `lookup_qualifiedParts`, says that every type is found
by its qualified name, in the scope of every declaration.
-/

namespace SelfTypeLint

open Dotted

namespace SymbolTable

/-- The segments that lead into a namespace. -/
def spaceParts (space : String) : List NamePart :=
  if space.isEmpty then [] else (parts space).map fun name => ⟨name, 0⟩

/-- A type as the segment of a name, with an argument for each parameter. -/
def partOf? (t : SymbolTable) (i : TypeId) : Option NamePart :=
  (t.typeSymbol? i).map fun s => ⟨s.name, s.typeParams.length⟩

/-- The segments of a type's qualified name: those of its namespace, then the types around it from the
outermost in, and the type itself. -/
def qualifiedParts (t : SymbolTable) (s : TypeSymbol) : List NamePart :=
  spaceParts s.space ++ (t.typeChain s.id).reverse.filterMap t.partOf?

/-- Holds of a table in which no type of a namespace has the full name of a namespace, unless the type
is generic. -/
def SpacesApart (t : SymbolTable) : Prop :=
  ∀ s ∈ t.types.toList, s.containingType = none → s.typeParams = [] → t.isSpace s.fullName = false

instance (t : SymbolTable) : Decidable t.SpacesApart :=
  inferInstanceAs (Decidable (∀ s ∈ t.types.toList, _ → _ → _))

variable {t : SymbolTable} {trees : List SyntaxTree} {i o : TypeId} {s : TypeSymbol}

/-! ## Going on from a type -/

theorem descend_append (i : TypeId) (ps qs : List NamePart) :
    Scope.descend t i (ps ++ qs) = (Scope.descend t i ps).bind (Scope.descend t · qs) := by
  induction ps generalizing i with
  | nil => rfl
  | cons p ps ih =>
    simp only [List.cons_append, Scope.descend, Option.bind_eq_bind, ih, Option.bind_assoc]

/-- Behind a name that leads to a type, further segments lead to types nested in it. -/
theorem lookupInSpace_append {space : String} {ps : List NamePart}
    (h : Scope.lookupInSpace t space ps = some o) (qs : List NamePart) :
    Scope.lookupInSpace t space (ps ++ qs) = Scope.descend t o qs := by
  induction ps generalizing space with
  | nil => exact absurd h (by simp [Scope.lookupInSpace])
  | cons p ps ih =>
    rw [Scope.lookupInSpace] at h
    rw [List.cons_append, Scope.lookupInSpace]
    cases hp : t.member? (.space space) p.name p.arity with
    | some id =>
      rw [hp] at h
      dsimp only at h ⊢
      rw [descend_append, h, Option.bind_some]
    | none =>
      rw [hp] at h
      dsimp only at h ⊢
      split at h
      · next hspace => rw [if_pos hspace, ih h]
      · exact absurd h (by simp)

/-! ## Going through namespaces -/

variable {ps : List Part}

/-- Where no type hides a namespace, the parts of a namespace's name lead into it. -/
theorem Records.lookupInSpace_spaces (h : t.Records ps) (hapart : t.SpacesApart) (names : List String)
    {space : String} (hspaces : ∀ name ∈ prefixesIn space names, t.isSpace name = true)
    (qs : List NamePart) :
    Scope.lookupInSpace t space (names.map (fun name => ⟨name, 0⟩) ++ qs) =
      Scope.lookupInSpace t (names.foldl join space) qs := by
  induction names generalizing space with
  | nil => rfl
  | cons name names ih =>
    rw [prefixesIn] at hspaces
    have hspace := hspaces _ List.mem_cons_self
    have hnone : t.member? (.space space) name 0 = none := by
      by_contra hne
      obtain ⟨i, hi⟩ := Option.ne_none_iff_exists'.1 hne
      have hpath := h.member?_space_iff.1 hi
      obtain ⟨s, hs, -, harity, ho, -⟩ := h.symbol_of_path hpath
      have hclash := hapart s (Array.mem_toList_iff.2 (Array.mem_of_getElem? hs)) ho
        (List.length_eq_zero_iff.1 harity)
      rw [h.fullName_of_path hpath hs, TypePath.fullName, hspace] at hclash
      exact absurd hclash (by simp)
    rw [List.map_cons, List.cons_append, Scope.lookupInSpace, hnone]
    simp only [hspace, if_true, List.foldl_cons]
    exact ih fun n hn => hspaces n (List.mem_cons_of_mem _ hn)

/-- Where no type hides a namespace, its segments lead into it. -/
theorem Records.lookupInSpace_spaceParts (h : t.Records ps) (hapart : t.SpacesApart) {space : String}
    (hled : space = "" ∨ Led space) (hspaces : ∀ name ∈ prefixes space, t.isSpace name = true)
    (qs : List NamePart) :
    Scope.lookupInSpace t "" (spaceParts space ++ qs) = Scope.lookupInSpace t space qs := by
  rcases hled with rfl | hled
  · rfl
  · have hne : ¬ space.isEmpty = true := by simpa using hled.ne_empty
    rw [prefixes, if_neg hne] at hspaces
    rw [spaceParts, if_neg hne, h.lookupInSpace_spaces hapart _ hspaces, foldl_join_parts hled,
      join_empty]

/-! ## Qualified names -/

theorem Records.qualifiedParts_top (h : t.Records ps) (hs : t.typeSymbol? i = some s)
    (ho : s.containingType = none) :
    t.qualifiedParts s = spaceParts s.space ++ [⟨s.name, s.typeParams.length⟩] := by
  rw [qualifiedParts, h.typeId i s hs, typeChain_eq_self hs ho]
  simp [partOf?, hs]

/-- The qualified name of a nested type goes on from that of the type around it. -/
theorem Records.qualifiedParts_inner (h : t.Records ps) (hhoused : t.Housed)
    (hs : t.typeSymbol? i = some s) (ho : s.containingType = some o) :
    ∃ outer, t.typeSymbol? o = some outer ∧
      t.qualifiedParts s = t.qualifiedParts outer ++ [⟨s.name, s.typeParams.length⟩] := by
  obtain ⟨outer, houter, hspace⟩ := hhoused.nested i s o hs ho
  refine ⟨outer, houter, ?_⟩
  rw [qualifiedParts, qualifiedParts, h.typeId i s hs, h.typeId o outer houter,
    h.typeChain_eq_cons hs ho, hspace]
  simp [partOf?, hs]

/-! ## Namespaces of types -/

/-- The names of the namespaces around a declaration are registered. -/
theorem mem_spaceNames_of_within {d : TypeDecl} {ms : List Member} {ns : List NamespaceDecl}
    (h : Within d ms ns) {space name : String} (hname : name ∈ prefixes (spaceName space ns)) :
    name ∈ prefixes space ∨ ∃ m ∈ ms, name ∈ m.spaceNames space := by
  induction h generalizing space with
  | type => exact .inl hname
  | @space _ n _ hn _ ih =>
    refine (ih hname).elim (fun hjoin => .inr ⟨_, hn, ?_⟩) fun ⟨m, hm, hin⟩ => .inr ⟨_, hn, ?_⟩
    · rw [Member.spaceNames_space, List.mem_append]
      rw [prefixes] at hjoin
      split at hjoin
      · exact absurd hjoin List.not_mem_nil
      · exact .inl hjoin
    · rw [Member.spaceNames_space, List.mem_append]
      exact .inr (List.mem_flatMap.2 ⟨m, hm, hin⟩)

theorem led_spaceName {space : String} {ns : List NamespaceDecl} (hspace : space = "" ∨ Led space)
    (hns : ∀ n ∈ ns, Led n.name) : spaceName space ns = "" ∨ Led (spaceName space ns) := by
  induction ns generalizing space with
  | nil => exact hspace
  | cons n ns ih =>
    exact ih (.inr (Led.join hspace (hns n List.mem_cons_self)))
      fun m hm => hns m (List.mem_cons_of_mem n hm)

end SymbolTable

namespace Workspace

open SymbolTable

variable {sources : List SourceText} {i : TypeId} {s : TypeSymbol}

/-- The namespace of a type is the global one, or it is registered with all that it is nested in. -/
theorem spaces_of_type (hs : (build sources).symbols.typeSymbol? i = some s) :
    (s.space = "" ∨ Led s.space) ∧
      ∀ name ∈ prefixes s.space, (build sources).symbols.isSpace name = true := by
  have hnodup := nodup_declaredSites sources
  rcases origin_of_type hnodup hs with ⟨x, -, hspace, -⟩ | ⟨tree, htree, d, hd, hid, -⟩
  · rw [hspace]
    refine ⟨.inr ⟨'S', "ystem".toList, rfl, by decide⟩, fun name hname => ?_⟩
    have hsystem : prefixes "System" ⊆ initial.spaces := by decide
    exact List.contains_iff_mem.2 ((mem_spaces_bind _).2 (.inl (hsystem hname)))
  · obtain ⟨doc, hdoc, rfl⟩ := List.mem_map.1 htree
    obtain ⟨-, hread, -⟩ := ofSource_of_document? (mem_documents_iff.1 hdoc)
    obtain ⟨m, hm, hdm⟩ := List.mem_flatMap.1 hd
    obtain ⟨ns, hns⟩ := exists_within hm hdm
    obtain ⟨j, s', hj, hs', hspace⟩ :=
      (housed_bind _).exists_symbol_of_within (faithful_bind hnodup) htree hns
    obtain rfl := Option.some.inj (hid.symm.trans hj)
    obtain rfl := Option.some.inj (hs.symm.trans hs')
    rw [hspace]
    constructor
    · refine led_spaceName (.inl rfl) ?_
      rw [hread] at hns
      exact SyntaxTree.led_of_within hns
    · intro name hname
      rcases mem_spaceNames_of_within hns hname with hnone | ⟨m, hm, hin⟩
      · exact absurd hnone List.not_mem_nil
      · exact List.contains_iff_mem.2 ((mem_spaces_bind _).2 (.inr ⟨_, htree, m, hm, hin⟩))

/-- From the global namespace the qualified name of a type leads to it. -/
theorem lookupInSpace_qualifiedParts (hapart : (build sources).symbols.SpacesApart)
    (hs : (build sources).symbols.typeSymbol? i = some s) :
    Scope.lookupInSpace (build sources).symbols "" ((build sources).symbols.qualifiedParts s) =
      some i := by
  obtain ⟨parts, hrecords, -⟩ := exists_records_bind ((build sources).documents.map (·.tree))
  have hrecords : (build sources).symbols.Records parts := hrecords
  -- On the number of the type, which is greater than that of the type around it.
  induction i using Nat.strongRecOn generalizing s with
  | ind i ih =>
    have hmember := hrecords.member?_container hs
    cases ho : s.containingType with
    | none =>
      rw [ho] at hmember
      obtain ⟨hled, hspaces⟩ := spaces_of_type hs
      rw [hrecords.qualifiedParts_top hs ho, hrecords.lookupInSpace_spaceParts hapart hled hspaces]
      simp [Scope.lookupInSpace, hmember, Scope.descend]
    | some o =>
      rw [ho] at hmember
      obtain ⟨outer, houter, hparts⟩ := hrecords.qualifiedParts_inner (housed_bind _) hs ho
      have hfound := ih o (hrecords.outer i s o hs ho) houter
      rw [hparts, lookupInSpace_append hfound]
      simp [Scope.descend, hmember]

/-- Where no type hides a namespace, every type is found by its qualified name in the scope of every
declaration: behind `global::`, the segments with as many arguments as there are parameters lead to this
type, so a type written so means it, applied to what its arguments mean. -/
theorem lookup_qualifiedParts (hapart : (build sources).symbols.SpacesApart)
    (hs : (build sources).symbols.typeSymbol? i = some s) {file : FileId} {doc : Document}
    (hdoc : (build sources).document? file = some doc) {d : TypeDecl} (hd : d ∈ doc.tree.typeDecls) :
    ∃ scope, (build sources).scopeOf? file d = some scope ∧
      scope.lookup true ((build sources).symbols.qualifiedParts s) = some i ∧
      ∀ (segments : List (NameSegment TypeExpr)) (span : Span),
        segments.map .ofSegment = (build sources).symbols.qualifiedParts s →
        scope.resolve (.path true segments span) =
          .named i ((TypeExpr.path true segments span).typeArgs.map scope.resolve) := by
  obtain ⟨-, hread, -⟩ := ofSource_of_document? hdoc
  have hfile : doc.tree.file = file := by rw [hread]; rfl
  obtain ⟨-, owner, -, -, howner, -⟩ := (faithful_bind (nodup_declaredSites sources)).declared
    doc.tree (List.mem_map_of_mem (List.mem_of_getElem? hdoc)) d hd
  rw [hfile] at howner
  have howner : (build sources).symbols.declaredType? file d.nameSpan = some owner := howner
  have hlookup : ∀ parts, (Scope.ofDecl (build sources).symbols doc.tree d owner).lookup true parts =
      Scope.lookupInSpace (build sources).symbols "" parts := by
    intro parts
    cases parts <;> rfl
  have hfound := lookupInSpace_qualifiedParts hapart hs
  refine ⟨.ofDecl (build sources).symbols doc.tree d owner, ?_, by rw [hlookup, hfound], ?_⟩
  · simp [scopeOf?, hdoc, howner]
  · intro segments span hparts
    have hparam : ∀ scope : Scope, scope.asParam? true segments = none := by
      intro scope
      unfold Scope.asParam?
      split <;> rfl
    rw [Scope.resolve_path, hparam, hparts, hlookup, hfound]

/-- A type nested in a generic one in a namespace with a dotted name, and a generic type with the name of
the outer namespace. -/
def hiddenNowhere : List SourceText :=
  [⟨"A.cs", "namespace A.B { class C<T> { class D {} } } class A<T> {}", .empty⟩,
    ⟨"E.cs", "class E {}", .empty⟩]

/-- The nested type is found from another file, past the generic type. -/
theorem lookup_hiddenNowhere : (build hiddenNowhere).symbols.SpacesApart ∧
    ∃ doc d scope, (build hiddenNowhere).document? 1 = some doc ∧ d ∈ doc.tree.typeDecls ∧
      (build hiddenNowhere).scopeOf? 1 d = some scope ∧
      (build hiddenNowhere).symbols.fullName? 18 = some "A.B.C.D" ∧
      scope.lookup true [⟨"A", 0⟩, ⟨"B", 0⟩, ⟨"C", 1⟩, ⟨"D", 0⟩] = some 18 := by
  have hapart : (build hiddenNowhere).symbols.SpacesApart := by decide +kernel
  obtain ⟨doc, hdoc⟩ : ∃ doc, (build hiddenNowhere).document? 1 = some doc :=
    ⟨_, document?_build hiddenNowhere 1⟩
  have hdecl : ((build hiddenNowhere).document? 1).bind (fun doc =>
      doc.tree.typeDecls[0]?.map (·.name)) = some "E" := by decide +kernel
  rw [hdoc, Option.bind_some] at hdecl
  obtain ⟨d, hd, -⟩ := Option.map_eq_some_iff.1 hdecl
  have hsymbol : ((build hiddenNowhere).symbols.typeSymbol? 18).map (fun s =>
      (s.fullName, (build hiddenNowhere).symbols.qualifiedParts s)) =
        some ("A.B.C.D", [⟨"A", 0⟩, ⟨"B", 0⟩, ⟨"C", 1⟩, ⟨"D", 0⟩]) := by decide +kernel
  obtain ⟨s, hs, heq⟩ := Option.map_eq_some_iff.1 hsymbol
  obtain ⟨hname, hparts⟩ := Prod.mk.inj heq
  obtain ⟨scope, hscope, hfound, -⟩ :=
    lookup_qualifiedParts hapart hs hdoc (List.mem_of_getElem? hd)
  refine ⟨hapart, doc, d, scope, hdoc, List.mem_of_getElem? hd, hscope, ?_, hparts ▸ hfound⟩
  rw [fullName?, hs, Option.map_some, hname]

end Workspace

end SelfTypeLint
