import Mathlib.Logic.Equiv.Basic
import SelfTypeLint.Proofs.Analysis.Reordered
import SelfTypeLint.Proofs.Symbol.Named

/-!
# The order of documents

Documents have numbers, and types and parameters get theirs in the order of the documents. Where
neither the first of some declarations, directives or types decides for the others, an analysis of a
document says the same in every order of the documents of a workspace.
-/

namespace SelfTypeLint.Workspace

open SymbolTable

/-- Holds of workspaces where what is said first of a type, an alias or a name is not preferred to what
is said later. -/
structure OrderFree (w : Workspace) : Prop where
  /-- Declarations of one type spell the names of its parameters alike. -/
  parameters : ∀ doc ∈ w.documents, ∀ doc' ∈ w.documents, ∀ d ∈ doc.tree.typeDecls,
    ∀ d' ∈ doc'.tree.typeDecls,
      w.symbols.declaredType? doc.id d.nameSpan = w.symbols.declaredType? doc'.id d'.nameSpan →
      d.typeParams.map (·.name) = d'.typeParams.map (·.name)
  /-- Global directives do not give one alias twice. -/
  aliases : w.symbols.globalUsings.Pairwise AliasApart
  /-- Types that are not generic have different qualified names. -/
  names : w.symbols.types.toList.Pairwise NamedApart

variable {sources sources' : List SourceText} {σ : Equiv.Perm FileId}

theorem tree_file {doc : Document} (h : doc ∈ (build sources).documents) : doc.tree.file = doc.id := by
  obtain ⟨-, htree, -⟩ := ofSource_of_document? (mem_documents_iff.1 h)
  rw [htree]
  rfl

theorem nodup_files (sources : List SourceText) :
    (((build sources).documents.map (·.tree)).map (·.file)).Nodup := by
  rw [List.map_map]
  refine (List.map_congr_left fun doc hdoc => ?_).symm ▸ nodup_ids sources
  exact tree_file hdoc

/-- The documents in another order have the same trees. -/
theorem reorders_build (hσ : ∀ i, sources'[σ i]? = sources[i]?) :
    Reorders σ ((build sources).documents.map (·.tree)) ((build sources').documents.map (·.tree)) where
  injective _ _ h := σ.injective h
  mem tree' := by
    have htree : ∀ (sources : List SourceText) (tree : SyntaxTree),
        tree ∈ (build sources).documents.map (·.tree) ↔
          ∃ i s, sources[i]? = some s ∧ tree = (SyntaxTree.read i s.text).tree := by
      intro sources tree
      rw [List.mem_map]
      constructor
      · rintro ⟨doc, hdoc, rfl⟩
        have h := mem_documents_iff.1 hdoc
        rw [document?_build] at h
        obtain ⟨s, hs, heq⟩ := Option.map_eq_some_iff.1 h
        exact ⟨doc.id, s, hs, by rw [← heq]; rfl⟩
      · rintro ⟨i, s, hs, rfl⟩
        refine ⟨Document.ofSource i s, mem_documents_iff.2 ?_, rfl⟩
        exact (document?_build sources i).trans (by rw [hs, Option.map_some])
    simp only [htree]
    constructor
    · rintro ⟨i', s, hs, rfl⟩
      refine ⟨_, ⟨σ.symm i', s, ?_, rfl⟩, ?_⟩
      · rw [← hσ, Equiv.apply_symm_apply, hs]
      · exact congrArg (fun file => (SyntaxTree.read file s.text).tree) (σ.apply_symm_apply i').symm
    · rintro ⟨tree, ⟨i, s, hs, rfl⟩, rfl⟩
      exact ⟨σ i, s, (hσ i).trans hs, rfl⟩

/-- Between the tables of documents in two orders there are renumberings. -/
theorem exists_rebinds (hσ : ∀ i, sources'[σ i]? = sources[i]?) :
    ∃ f g, Rebinds σ f g ((build sources).documents.map (·.tree))
      ((build sources').documents.map (·.tree)) := by
  obtain ⟨f, g, h⟩ := (reorders_build hσ).exists_renumbers (nodup_declaredSites sources)
    (nodup_declaredSites sources')
  exact ⟨f, g, ⟨reorders_build hσ, h, nodup_declaredSites sources, nodup_declaredSites sources',
    nodup_files sources, nodup_files sources'⟩⟩

theorem OrderFree.spelledAlike (h : (build sources).OrderFree) :
    SpelledAlike ((build sources).documents.map (·.tree)) := by
  intro tree htree tree' htree' d hd d' hd' hsame
  obtain ⟨doc, hdoc, rfl⟩ := List.mem_map.1 htree
  obtain ⟨doc', hdoc', rfl⟩ := List.mem_map.1 htree'
  rw [tree_file hdoc, tree_file hdoc'] at hsame
  exact h.parameters doc hdoc doc' hdoc' d hd d' hd' hsame

theorem tree_refile (hσ : ∀ i, sources'[σ i]? = sources[i]?) (file : FileId) :
    ((build sources').document? (σ file)).map (·.tree) =
      ((build sources).document? file).map (·.tree.refile (σ file)) := by
  rw [document?_build, document?_build, hσ, Option.map_map, Option.map_map]
  rfl

/-- The definition of a type with its parameters and arguments. -/
def constructed? (t : SymbolTable) : TypeRef → Option ConstructedType
  | .named definition args =>
    (t.typeSymbol? definition).map fun s => ⟨definition, s.typeParams, args⟩
  | _ => none

theorem constructed?_renumber {f : TypeId → TypeId} {g : TypeParamId → TypeParamId}
    {t t' : SymbolTable} {parts parts' : List Part} (h : Renumbers f g t t') (ht : t.Records parts)
    (ht' : t'.Records parts') (a : TypeRef) :
    constructed? t' (a.renumber f g) = (constructed? t a).map (.renumber f g) := by
  cases a with
  | named definition args =>
    simp only [TypeRef.renumber, constructed?]
    cases hs : t.typeSymbol? definition with
    | none => rw [h.typeSymbol?_eq_none ht ht' hs]; rfl
    | some s =>
      obtain ⟨s', hs', -, -, hparams, -⟩ := h.typeSymbol? ht ht' hs
      rw [hs', Option.map_some, Option.map_some, Option.map_some, hparams]
      rfl
  | param _ => simp only [TypeRef.renumber, constructed?, Option.map_none]
  | error => simp only [TypeRef.renumber, constructed?, Option.map_none]

theorem resolveBaseType_eq (w : Workspace) (file : FileId) (d : TypeDecl) (base : TypeExpr) :
    w.resolveBaseType file d base =
      if base.isGeneric then
        ((w.document? file).map (·.tree)).bind fun tree =>
          (w.symbols.declaredType? file d.nameSpan).bind fun owner =>
            constructed? w.symbols ((Scope.ofDecl w.symbols tree d owner).resolve base)
      else none := by
  rw [resolveBaseType, scopeOf?]
  split
  · cases w.document? file with
    | none => rfl
    | some doc =>
      cases w.symbols.declaredType? file d.nameSpan with
      | none => rfl
      | some owner =>
        simp only [Option.bind_eq_bind, Option.bind_some, Option.map_some, Option.pure_def]
        cases Scope.resolve _ base with
        | named definition args => simp only [constructed?, Option.map_eq_bind, Function.comp_def]
        | param _ => rfl
        | error => rfl
  · rfl

section

variable {f : TypeId → TypeId} {g : TypeParamId → TypeParamId}
  (hbound : Rebinds σ f g ((build sources).documents.map (·.tree))
    ((build sources').documents.map (·.tree))) {doc : Document}
  (hdoc : doc ∈ (build sources).documents)

include hbound hdoc

/-- A parameter says the same to a rule that works in the document. -/
theorem typeParam_corresponds (hfree : (build sources).OrderFree) (j : TypeParamId) :
    Option.Rel (TypeParamSymbol.Corresponds f g σ doc.tree.file)
      ((build sources).symbols.typeParam? j) ((build sources').symbols.typeParam? (g j)) := by
  obtain ⟨parts, hrecords, -⟩ := exists_records_bind ((build sources).documents.map (·.tree))
  obtain ⟨parts', hrecords', -⟩ := exists_records_bind ((build sources').documents.map (·.tree))
  cases hp : (build sources).symbols.typeParam? j with
  | none =>
    rw [show (build sources').symbols.typeParam? (g j) = none from
      hbound.typeParam?_eq_none hrecords' hp]
    exact .none
  | some p =>
    obtain ⟨p', hp', hid, -⟩ := hbound.typeParam? hrecords hrecords' hp
    rw [show (build sources').symbols.typeParam? (g j) = some p' from hp']
    refine .some ⟨?_, ?_, ?_, ?_⟩
    · rw [hid, (hrecords.param j p hp).1]
    · exact hbound.name_eq hfree.spelledAlike hp hp'
    · exact hbound.mem_attributes_iff hfree.aliases hp hp'
    · exact hbound.locations_in_file (List.mem_map_of_mem hdoc) hp hp'

/-- A declaration declares the same type, as seen from inside it. -/
theorem selfType_corresponds {d : TypeDecl} (hd : d ∈ doc.tree.typeDecls) :
    (((build sources').host.declaredType (σ doc.tree.file) d).bind
        (build sources').host.typeSymbol).map (·.selfType) =
      (((build sources).host.declaredType doc.tree.file d).bind
        (build sources).host.typeSymbol).map (·.selfType.renumber f g) := by
  obtain ⟨parts, hrecords, -⟩ := exists_records_bind ((build sources).documents.map (·.tree))
  obtain ⟨parts', hrecords', -⟩ := exists_records_bind ((build sources').documents.map (·.tree))
  have htree : doc.tree ∈ (build sources).documents.map (·.tree) := List.mem_map_of_mem hdoc
  obtain ⟨i, s, s', hi, hs, hs', hparams⟩ := hbound.exists_symbols htree hd
  have hi' := hbound.declaredType? htree hd
  rw [hi, Option.map_some] at hi'
  simp only [host]
  rw [show (build sources').symbols.declaredType? (σ doc.tree.file) d.nameSpan = some (f i) from hi',
    show (build sources).symbols.declaredType? doc.tree.file d.nameSpan = some i from hi,
    Option.bind_some, Option.bind_some,
    show (build sources').symbols.typeSymbol? (f i) = some s' from hs',
    show (build sources).symbols.typeSymbol? i = some s from hs, Option.map_some, Option.map_some,
    TypeSymbol.selfType, TypeSymbol.selfType, hparams, hrecords.typeId i s hs,
    hrecords'.typeId (f i) s' hs', TypeRef.renumber, List.map_map, List.map_map]
  simp only [Function.comp_def, TypeRef.renumber]

/-- A base type means the same. -/
theorem resolveBaseType_corresponds (hσ : ∀ i, sources'[σ i]? = sources[i]?)
    (hfree : (build sources).OrderFree) {d : TypeDecl} (hd : d ∈ doc.tree.typeDecls)
    (base : TypeExpr) :
    (build sources').resolveBaseType (σ doc.tree.file) d base =
      ((build sources).resolveBaseType doc.tree.file d base).map (.renumber f g) := by
  obtain ⟨parts, hrecords, -⟩ := exists_records_bind ((build sources).documents.map (·.tree))
  obtain ⟨parts', hrecords', -⟩ := exists_records_bind ((build sources').documents.map (·.tree))
  have htree : doc.tree ∈ (build sources).documents.map (·.tree) := List.mem_map_of_mem hdoc
  obtain ⟨i, s, s', hi, -⟩ := hbound.exists_symbols htree hd
  have hi' := hbound.declaredType? htree hd
  have hdocument : (build sources).document? doc.tree.file = some doc := by
    rw [tree_file hdoc]
    exact mem_documents_iff.1 hdoc
  rw [hi, Option.map_some] at hi'
  rw [resolveBaseType_eq, resolveBaseType_eq, tree_refile hσ, hdocument,
    show (build sources').symbols.declaredType? (σ doc.tree.file) d.nameSpan = some (f i) from hi',
    show (build sources).symbols.declaredType? doc.tree.file d.nameSpan = some i from hi,
    Option.map_some, Option.map_some, Option.bind_some, Option.bind_some, Option.bind_some,
    Option.bind_some]
  rw [show (Scope.ofDecl (build sources').symbols (doc.tree.refile (σ doc.tree.file)) d
      (f i)).resolve base = _ from hbound.resolve hfree.aliases hfree.spelledAlike doc.tree d i base]
  split
  · exact constructed?_renumber hbound.toRenumbers hrecords hrecords' _
  · rfl

/-- Documents in another order are hosted alike. -/
theorem host_corresponds (hσ : ∀ i, sources'[σ i]? = sources[i]?)
    (hfree : (build sources).OrderFree) :
    Host.Corresponds f g σ doc.id (build sources).host (build sources').host where
  options := by
    simp only [host]
    rw [document?_build, document?_build, hσ, Option.map_map, Option.map_map]
    rfl
  typeByName name := by
    obtain ⟨parts, hrecords, -⟩ := exists_records_bind ((build sources).documents.map (·.tree))
    obtain ⟨parts', hrecords', -⟩ := exists_records_bind ((build sources').documents.map (·.tree))
    have h := hbound.toRenumbers.typeByName? hrecords hrecords' hfree.names name
    simp only [host]
    exact h
  syntaxTree := by
    simp only [host]
    rw [tree_refile hσ, Option.map_map]
    rfl
  model tree htree := by
    have hdocument := mem_documents_iff.1 hdoc
    simp only [host, hdocument, Option.map_some, Option.some.injEq] at htree
    obtain rfl := htree
    refine ⟨tree_file hdoc, hbound.typeInjective, hbound.paramInjective, ?_, ?_, ?_⟩
    · exact fun d hd => selfType_corresponds hbound hdoc hd
    · exact fun j => typeParam_corresponds hbound hdoc hfree j
    · exact fun d hd base => resolveBaseType_corresponds hbound hdoc hσ hfree hd base

end

/-- A document has the same diagnostics in every order of the documents, up to the numbers of files. -/
theorem analyzeDocument_reordered (hσ : ∀ i, sources'[σ i]? = sources[i]?)
    (hfree : (build sources).OrderFree) (file : FileId) (cancelled : Bool) :
    Analysis.analyzeDocument (build sources').host (σ file) cancelled =
      (Analysis.analyzeDocument (build sources).host file cancelled).map
        (List.map (Diagnostic.renumber σ)) := by
  cases hdoc : (build sources).document? file with
  | none =>
    have htree := tree_refile hσ file
    rw [hdoc, Option.map_none] at htree
    simp only [Analysis.analyzeDocument, host, htree, hdoc, Option.map_none]
    rfl
  | some doc =>
    obtain ⟨rfl, -, -⟩ := ofSource_of_document? hdoc
    obtain ⟨f, g, hbound⟩ := exists_rebinds hσ
    exact (host_corresponds hbound (List.mem_of_getElem? hdoc) hσ hfree).analyzeDocument cancelled

/-- A type with parts in two documents, of which one has the base type. -/
def partsApart : List SourceText := [
  ⟨"A.cs", "partial class Leaf<T> : Lib.Node<T> {}", .empty⟩,
  ⟨"B.cs", "namespace Lib { class Node<TSelf> {} } partial class Leaf<T> {}", .empty⟩]

/-- The report of the first document is the same where it is the second. -/
theorem analyzeDocument_partsApart :
    (∀ i, partsApart.reverse[Equiv.swap 0 1 i]? = partsApart[i]?) ∧ (build partsApart).OrderFree ∧
      (Analysis.analyzeDocument (build partsApart).host 0 false).toOption.map
        (List.map (·.location)) = some [⟨0, ⟨19, 20⟩⟩] ∧
      Analysis.analyzeDocument (build partsApart.reverse).host 1 false =
        (Analysis.analyzeDocument (build partsApart).host 0 false).map
          (List.map (Diagnostic.renumber (Equiv.swap 0 1))) := by
  have hswap : ∀ i, partsApart.reverse[Equiv.swap 0 1 i]? = partsApart[i]? := by
    intro i
    match i with
    | 0 | 1 => rfl
    | i + 2 =>
      rw [Equiv.swap_apply_of_ne_of_ne (by omega) (by omega)]
      rfl
  have hfree : (build partsApart).OrderFree :=
    ⟨by decide +kernel, by decide +kernel, by decide +kernel⟩
  refine ⟨hswap, hfree, by decide +kernel, ?_⟩
  exact analyzeDocument_reordered hswap hfree 0 false

end SelfTypeLint.Workspace
