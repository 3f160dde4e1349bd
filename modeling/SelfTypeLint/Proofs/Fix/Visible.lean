import SelfTypeLint.Fix.Marker
import SelfTypeLint.Proofs.Fix.Actionable
import SelfTypeLint.Proofs.Symbol.Origins

/-!
# Namespaces visible in a declaration

Whether a declaration sees the types of a namespace is found in two ways: the fix that marks a parameter
asks the trees of all documents, and name lookup goes through the levels of the declaration's scope. The
main statement, `isNamespaceVisible_iff_level`, says that both agree.
-/

namespace SelfTypeLint

open SelfTypeLint.Fix

theorem Fix.imports_iff {space : String} {u : UsingDirective} :
    imports space u = true ↔ u.kind = .ofNamespace ∧ u.target = space := by
  simp [imports]

namespace Level

/-- The levels of a chain of namespaces have the names of these, with the names that they are nested in. -/
theorem map_space_ofChain (space : String) (ns : List NamespaceDecl) :
    (ofChain space ns).map (·.space) = enclosingSpaces space ns := by
  induction ns generalizing space with
  | nil => rfl
  | cons n ns ih =>
    have hne : Dotted.prefixesIn space (Dotted.parts n.name) ≠ [] := by
      rw [← List.length_pos_iff, Dotted.length_prefixesIn, Dotted.parts, List.length_map,
        List.length_pos_iff]
      exact Dotted.pieces_ne_nil _ _
    rw [ofChain, enclosingSpaces]
    simp only [List.map_append, List.map_cons, List.map_map, Function.comp_def, List.map_id', ih]
    rw [List.getLast?_eq_some_getLast hne, Option.getD_some, List.append_cons,
      List.dropLast_append_getLast hne]

/-- The directives of a chain's levels are those written in its namespaces. -/
theorem exists_using_ofChain {space : String} {ns : List NamespaceDecl} {u : UsingDirective} :
    (∃ l ∈ ofChain space ns, u ∈ l.usings) ↔ ∃ n ∈ ns, u ∈ n.usings := by
  induction ns generalizing space with
  | nil => simp [ofChain]
  | cons n ns ih =>
    simp only [ofChain, List.mem_append, List.mem_cons, List.mem_map, or_and_right, exists_or,
      exists_eq_left, ih]
    constructor
    · rintro (⟨_, ⟨_, -, rfl⟩, hu⟩ | hu)
      · exact absurd hu List.not_mem_nil
      · exact hu
    · exact .inr

end Level

/-- The directives of a scope's levels are those at the top of the file, those in the namespaces around
the declaration, and the global ones of other files. -/
theorem Scope.exists_using_ofDecl {table : SymbolTable} {tree : SyntaxTree} {d : TypeDecl}
    {owner : TypeId} {u : UsingDirective} :
    (∃ l ∈ (ofDecl table tree d owner).levels, u ∈ l.usings) ↔
      u ∈ tree.usings ∨ (∃ n ∈ tree.enclosingNamespaces d.span, u ∈ n.usings) ∨
        ∃ file, file ≠ tree.file ∧ (file, u) ∈ table.globalUsings := by
  simp only [ofDecl, List.mem_reverse, List.mem_cons, or_and_right, exists_or, exists_eq_left,
    Level.exists_using_ofChain, List.mem_append, List.mem_map, List.mem_filter]
  grind

/-- The namespaces of a scope's levels are the global one and those around the declaration. -/
theorem Scope.exists_space_ofDecl {table : SymbolTable} {tree : SyntaxTree} {d : TypeDecl}
    {owner : TypeId} {space : String} :
    (∃ l ∈ (ofDecl table tree d owner).levels, l.space = space) ↔
      space = "" ∨ space ∈ enclosingSpaces "" (tree.enclosingNamespaces d.span) := by
  rw [← Level.map_space_ofChain]
  simp only [ofDecl, List.mem_reverse, List.mem_cons, or_and_right, exists_or, exists_eq_left,
    List.mem_map]
  grind

namespace Workspace

variable {sources : List SourceText}

/-- The global directives of a workspace are those of its trees. -/
theorem mem_globalUsings_iff {file : FileId} {u : UsingDirective} :
    (file, u) ∈ (build sources).symbols.globalUsings ↔
      ∃ tree, (build sources).host.syntaxTree file = some tree ∧ u ∈ tree.usings ∧
        u.isGlobal = true := by
  have hsymbols : (build sources).symbols =
      SymbolTable.bind ((build sources).documents.map (·.tree)) := rfl
  rw [hsymbols, SymbolTable.globalUsings_bind, List.mem_flatMap]
  constructor
  · rintro ⟨tree, htree, h⟩
    obtain ⟨_, hu, heq⟩ := List.mem_map.1 h
    obtain ⟨rfl, rfl⟩ := Prod.mk.inj heq
    exact ⟨tree, syntaxTree_of_mem htree, by simpa using hu⟩
  · rintro ⟨tree, htree, hu⟩
    obtain ⟨rfl, hmem, -⟩ := syntaxTree_eq_some htree
    exact ⟨tree, hmem, List.mem_map.2 ⟨u, by simpa using hu, rfl⟩⟩

/-- The trees of other documents are those with other numbers. -/
theorem mem_otherTrees_iff {file : FileId} {tree : SyntaxTree} :
    tree ∈ ((build sources).host.documentIds.filter (· ≠ file)).filterMap
        (build sources).host.syntaxTree ↔
      ∃ other, other ≠ file ∧ (build sources).host.syntaxTree other = some tree := by
  simp only [List.mem_filterMap, List.mem_filter, decide_eq_true_eq]
  constructor
  · rintro ⟨other, ⟨-, hne⟩, htree⟩
    exact ⟨other, hne, htree⟩
  · rintro ⟨other, hne, htree⟩
    obtain ⟨doc, hdoc, -⟩ := Option.map_eq_some_iff.1 htree
    obtain ⟨hid, -⟩ := ofSource_of_document? hdoc
    have hmem : doc ∈ (build sources).documents := mem_documents_iff.2 (hid ▸ hdoc)
    exact ⟨other, ⟨hid ▸ List.mem_map_of_mem hmem, hne⟩, htree⟩

theorem file_of_document? {file : FileId} {doc : Document} (h : (build sources).document? file = some doc) :
    doc.tree.file = file := by
  obtain ⟨-, hread, -⟩ := ofSource_of_document? h
  rw [hread]
  rfl

theorem mem_trees_of_document? {file : FileId} {doc : Document} (h : (build sources).document? file = some doc) :
    doc.tree ∈ (build sources).documents.map (·.tree) :=
  List.mem_map_of_mem (List.mem_of_getElem? h)

/-- Inside a declaration the types of a namespace are visible just if the namespace is the global one or
that of a level of the declaration's scope, or if a directive of a level brings them in. The directives of
the levels include the global ones of other documents. -/
theorem isNamespaceVisible_iff_level {file : FileId} {doc : Document}
    (hdoc : (build sources).document? file = some doc) {d : TypeDecl}
    (hd : d ∈ doc.tree.typeDecls) :
    ∃ scope, (build sources).scopeOf? file d = some scope ∧
      (∀ space, isNamespaceVisible (build sources).host doc.tree d space = true ↔
        space = "" ∨ (∃ l ∈ scope.levels, l.space = space) ∨
          ∃ l ∈ scope.levels, ∃ u ∈ l.usings, u.kind = .ofNamespace ∧ u.target = space) ∧
      ∀ other doc', (build sources).document? other = some doc' → other ≠ file →
        ∀ u ∈ doc'.tree.usings, u.isGlobal = true → ∃ l ∈ scope.levels, u ∈ l.usings := by
  have htree := mem_trees_of_document? hdoc
  have hfile := file_of_document? hdoc
  obtain ⟨-, owner, -, -, howner, -⟩ :=
    (SymbolTable.faithful_bind (nodup_declaredSites sources)).declared doc.tree htree d hd
  have hscope : (build sources).scopeOf? file d =
      some (.ofDecl (build sources).symbols doc.tree d owner) := by
    rw [hfile] at howner
    simp [scopeOf?, hdoc, show (build sources).symbols.declaredType? file d.nameSpan = _ from howner]
  have husing : ∀ u, (∃ l ∈ (Scope.ofDecl (build sources).symbols doc.tree d owner).levels,
      u ∈ l.usings) ↔ u ∈ doc.tree.usings ∨
        (∃ n ∈ doc.tree.enclosingNamespaces d.span, u ∈ n.usings) ∨
        ∃ other, other ≠ file ∧ ∃ tree, (build sources).host.syntaxTree other = some tree ∧
          u ∈ tree.usings ∧ u.isGlobal = true := fun u => by
    rw [Scope.exists_using_ofDecl, hfile]
    simp only [mem_globalUsings_iff]
  refine ⟨_, hscope, fun space => ?_, fun other doc' hdoc' hne u hu hglobal => ?_⟩
  · have hlevels : (∃ l ∈ (Scope.ofDecl (build sources).symbols doc.tree d owner).levels,
        ∃ u ∈ l.usings, u.kind = .ofNamespace ∧ u.target = space) ↔
          ∃ u, (∃ l ∈ (Scope.ofDecl (build sources).symbols doc.tree d owner).levels,
            u ∈ l.usings) ∧ imports space u = true := by
      simp only [imports_iff]
      grind
    rw [hlevels, Scope.exists_space_ofDecl]
    simp only [husing, isNamespaceVisible, Bool.or_eq_true, List.any_eq_true, Bool.and_eq_true,
      List.contains_iff_mem, hfile, mem_otherTrees_iff, String.isEmpty_iff]
    grind
  · exact (husing u).2 (.inr (.inr ⟨other, hne, doc'.tree,
      Option.map_eq_some_iff.2 ⟨doc', hdoc', rfl⟩, hu, hglobal⟩))

/-- A namespace that is visible in a declaration is that of a level of its scope, or a directive of a level brings
it in. -/
theorem exists_level_of_isNamespaceVisible {file : FileId} {doc : Document}
    (hdoc : (build sources).document? file = some doc) {d : TypeDecl} (hd : d ∈ doc.tree.typeDecls) {s : Scope}
    (hs : (build sources).scopeOf? file d = some s) {space : String}
    (h : isNamespaceVisible (build sources).host doc.tree d space = true) :
    ∃ l ∈ s.levels, l.space = space ∨ ∃ u ∈ l.usings, u.kind = .ofNamespace ∧ u.target = space := by
  obtain ⟨s', hs', hiff, -⟩ := isNamespaceVisible_iff_level hdoc hd
  obtain rfl := Option.some.inj (hs.symm.trans hs')
  rcases (hiff space).1 h with rfl | ⟨l, hl, hspace⟩ | ⟨l, hl, hu⟩
  · simp only [scopeOf?, Option.bind_eq_bind, Option.bind_eq_some_iff] at hs
    obtain ⟨_, -, owner, -, hs⟩ := hs
    rw [← Option.some.inj hs]
    obtain ⟨l, hl, hspace⟩ := Scope.exists_space_ofDecl.2 (.inl rfl)
    exact ⟨l, hl, .inl hspace⟩
  · exact ⟨l, hl, .inl hspace⟩
  · exact ⟨l, hl, .inr hu⟩

/-- A declaration in a namespace with a dotted name, and a global directive in another document. -/
def globalElsewhere : List SourceText :=
  [⟨"A.cs", "namespace A.B; using C; class D {}", .empty⟩, ⟨"B.cs", "global using E;", .empty⟩]

/-- The declaration sees the namespace that the other document brings in, and its scope has the
directive; of a namespace that nothing brings in neither is so. -/
theorem isNamespaceVisible_globalElsewhere :
    ∃ doc d scope, (build globalElsewhere).document? 0 = some doc ∧ d ∈ doc.tree.typeDecls ∧
      (build globalElsewhere).scopeOf? 0 d = some scope ∧
      isNamespaceVisible (build globalElsewhere).host doc.tree d "E" = true ∧
      (∃ l ∈ scope.levels, ∃ u ∈ l.usings, u.kind = .ofNamespace ∧ u.target = "E") ∧
      isNamespaceVisible (build globalElsewhere).host doc.tree d "F" = false ∧
      ¬ ∃ l ∈ scope.levels, ∃ u ∈ l.usings, u.kind = .ofNamespace ∧ u.target = "F" := by
  obtain ⟨doc, hdoc⟩ : ∃ doc, (build globalElsewhere).document? 0 = some doc :=
    ⟨_, document?_build globalElsewhere 0⟩
  have hvisible : ((build globalElsewhere).document? 0).bind (fun doc =>
      doc.tree.typeDecls[0]?.map fun d =>
        ["E", "F"].map (isNamespaceVisible (build globalElsewhere).host doc.tree d)) =
          some [true, false] := by decide +kernel
  rw [hdoc, Option.bind_some] at hvisible
  obtain ⟨d, hd, hvisible⟩ := Option.map_eq_some_iff.1 hvisible
  simp only [List.map_cons, List.map_nil, List.cons.injEq, and_true] at hvisible
  obtain ⟨other, hother⟩ : ∃ other, (build globalElsewhere).document? 1 = some other :=
    ⟨_, document?_build globalElsewhere 1⟩
  have hdirective : ((build globalElsewhere).document? 1).bind (fun other =>
      other.tree.usings[0]?.map fun u => (u.isGlobal, u.kind, u.target)) =
        some (true, .ofNamespace, "E") := by decide +kernel
  rw [hother, Option.bind_some] at hdirective
  obtain ⟨u, hu, hdirective⟩ := Option.map_eq_some_iff.1 hdirective
  simp only [Prod.mk.injEq] at hdirective
  obtain ⟨scope, hscope, hiff, hglobal⟩ :=
    isNamespaceVisible_iff_level hdoc (List.mem_of_getElem? hd)
  refine ⟨doc, d, scope, hdoc, List.mem_of_getElem? hd, hscope, hvisible.1, ?_, hvisible.2, ?_⟩
  · obtain ⟨l, hl, hin⟩ := hglobal 1 other hother (by decide) u (List.mem_of_getElem? hu)
      hdirective.1
    exact ⟨l, hl, u, hin, hdirective.2⟩
  · intro h
    exact absurd ((hiff "F").2 (.inr (.inr h))) (by simp [hvisible.2])

end Workspace

end SelfTypeLint
