import SelfTypeLint.Proofs.Grammar.SpaceNames
import SelfTypeLint.Proofs.Symbol.Spaces

/-!
# The levels of scopes

The namespaces whose types a declaration sees are found in two ways: declaring a tree joins the names
of namespaces on the way down to a declaration, and a scope searches the namespaces around its span and
splits their names. The main statement, `levels_of_declaration`, says that both agree in every text.
-/

namespace SelfTypeLint

open Dotted SymbolTable

namespace Level

/-- The levels of a namespace are its dotted prefixes in the namespace around it. -/
theorem map_space_ofChain_cons {space : String} {n : NamespaceDecl} (hn : Led n.name)
    (ns : List NamespaceDecl) : (ofChain space (n :: ns)).map (·.space) =
      prefixesIn space (parts n.name) ++ (ofChain (join space n.name) ns).map (·.space) := by
  have hinner : (prefixesIn space (parts n.name)).getLast?.getD space = join space n.name := by
    rw [getLast?_prefixesIn, foldl_join_parts hn]
  have hsome : prefixesIn space (parts n.name) ≠ [] := by
    obtain ⟨first, rest, hparts⟩ := List.exists_cons_of_ne_nil (pieces_ne_nil '.' n.name.toList)
    simp [parts, hparts, prefixesIn]
  have hlast : (prefixesIn space (parts n.name)).getLast hsome = join space n.name := by
    rw [← hinner, List.getLast?_eq_some_getLast hsome, Option.getD_some]
  have hall := List.dropLast_append_getLast hsome
  rw [hlast] at hall
  simp only [ofChain, hinner, List.map_append, List.map_cons, List.map_map]
  rw [List.append_cons, ← hall]
  simp [Function.comp_def]

/-- The levels of a chain are the prefixes that its names add to those of the namespace around it. -/
theorem prefixes_spaceName {space : String} {ns : List NamespaceDecl} (hns : ∀ n ∈ ns, Led n.name)
    (hspace : space = "" ∨ Led space) :
    prefixes (spaceName space ns) = prefixes space ++ (ofChain space ns).map (·.space) := by
  induction ns generalizing space with
  | nil => simp [spaceName, ofChain]
  | cons n ns ih =>
    have hn := hns n List.mem_cons_self
    have hrest := ih (fun m hm => hns m (List.mem_cons_of_mem n hm)) (.inr (Led.join hspace hn))
    rw [prefixes_join hspace hn, List.append_assoc, ← map_space_ofChain_cons hn] at hrest
    exact hrest

end Level

namespace Workspace

/-- The namespaces found around a type declaration are those that it stands in, outermost first. The
namespaces of the levels that its names are looked up in are, innermost first, the dotted prefixes of the
namespace of its symbol, and then the global one. -/
theorem levels_of_declaration {sources : List SourceText} {file : FileId} {doc : Document}
    (hdoc : (build sources).document? file = some doc) {d : TypeDecl}
    (hd : d ∈ doc.tree.typeDecls) :
    (∀ ns, Within d doc.tree.members ns ↔ doc.tree.enclosingNamespaces d.span = ns) ∧
      ∃ id symbol scope, (build sources).symbols.declaredType? file d.nameSpan = some id ∧
        (build sources).symbols.typeSymbol? id = some symbol ∧
        (build sources).scopeOf? file d = some scope ∧
        scope.levels.map (·.space) = (prefixes symbol.space).reverse ++ [""] := by
  obtain ⟨-, hread, -⟩ := ofSource_of_document? hdoc
  have hfile : doc.tree.file = file := by rw [hread]; rfl
  have htree : doc.tree ∈ (build sources).documents.map (·.tree) :=
    List.mem_map_of_mem (List.mem_of_getElem? hdoc)
  have henclosing : ∀ ns, Within d doc.tree.members ns →
      doc.tree.enclosingNamespaces d.span = ns := by
    intro ns h
    rw [hread] at h ⊢
    exact SyntaxTree.enclosingNamespaces_eq (SyntaxTree.inRow_read file doc.text)
      (fun s hs => SyntaxTree.start_lt_stop_read file doc.text hs) h
  obtain ⟨m, hm, hdm⟩ := List.mem_flatMap.1 hd
  obtain ⟨ns, hns⟩ := exists_within hm hdm
  have hled : ∀ n ∈ ns, Led n.name := by
    rw [hread] at hns
    exact SyntaxTree.led_of_within hns
  have hhoused : (build sources).symbols.Housed := housed_bind _
  have hfaithful : (build sources).symbols.Faithful ((build sources).documents.map (·.tree)) :=
    faithful_bind (nodup_declaredSites sources)
  obtain ⟨id, symbol, hid, hsymbol, hspace⟩ := hhoused.exists_symbol_of_within hfaithful htree hns
  rw [hfile] at hid
  have hscope : (build sources).scopeOf? file d =
      some (.ofDecl (build sources).symbols doc.tree d id) := by
    simp [scopeOf?, hdoc, hid]
  refine ⟨fun ns' => ⟨henclosing ns', ?_⟩, id, symbol, _, hid, hsymbol, hscope, ?_⟩
  · rintro rfl
    exact (henclosing ns hns).symm ▸ hns
  · have hlevels := Level.prefixes_spaceName hled (.inl rfl)
    rw [show prefixes "" = [] from rfl, List.nil_append] at hlevels
    rw [hspace, hlevels, Scope.ofDecl, henclosing ns hns, List.map_reverse, List.map_cons,
      List.reverse_cons]

/-- A type nested in another one, in a namespace with a dotted name inside another namespace. -/
def nestedSpaces : SourceText :=
  ⟨"A.cs", "namespace A { namespace B.C { class D { class E {} } } }", .empty⟩

/-- The nested type sees the three namespaces around it and the global one. -/
theorem levels_nestedSpaces : ∃ d scope, d ∈ (Document.ofSource 0 nestedSpaces).tree.typeDecls ∧
    d.name = "E" ∧ (build [nestedSpaces]).scopeOf? 0 d = some scope ∧
    scope.levels.map (·.space) = ["A.B.C", "A.B", "A", ""] := by
  have hname : (Document.ofSource 0 nestedSpaces).tree.typeDecls[1]?.map (·.name) = some "E" := by
    decide +kernel
  have hspace : (Document.ofSource 0 nestedSpaces).tree.typeDecls[1]?.bind (fun d =>
      ((build [nestedSpaces]).symbols.declaredType? 0 d.nameSpan).bind fun id =>
        ((build [nestedSpaces]).symbols.typeSymbol? id).map (·.space)) = some "A.B.C" := by
    decide +kernel
  obtain ⟨d, hd, hname⟩ := Option.map_eq_some_iff.1 hname
  obtain ⟨-, id, symbol, scope, hid, hsymbol, hscope, hlevels⟩ :=
    levels_of_declaration (document?_build [nestedSpaces] 0) (List.mem_of_getElem? hd)
  rw [hd, Option.bind_some, hid, Option.bind_some, hsymbol, Option.map_some] at hspace
  rw [Option.some.inj hspace] at hlevels
  exact ⟨d, scope, List.mem_of_getElem? hd, hname, hscope, hlevels⟩

end Workspace

end SelfTypeLint
