import SelfTypeLint.Proofs.Workspace.Renamed

/-!
# What a renaming leaves alone

In any workspace, with or without faults, a renaming only exchanges identifiers that are spelled as the
parameter and stand in a part of its type, each once. The new name stands nowhere in these parts
afterwards but where it was put, except in attributes of type parameters.
-/

namespace SelfTypeLint

open Token Grammar

namespace Workspace

variable {sources : List SourceText} {param : TypeParamId} {new : String} {cancelled : Bool}
  {edit : EditSet}

/-- A renaming that goes through all parts of a type finds its new name in none of them. -/
theorem capture?_eq_none_of_foldlM {w : Workspace} {old : String} {edit out : EditSet}
    {locations : List Location} (h : locations.foldlM (w.renameInPart old new) edit = .ok out)
    {l : Location} (hl : l ∈ locations) {d : TypeDecl} (hd : w.declarationAt? l = some d) :
    d.capture? new = none := by
  induction locations generalizing edit with
  | nil => exact absurd hl List.not_mem_nil
  | cons k ks ih =>
    rw [List.foldlM_cons] at h
    obtain ⟨next, hpart, h⟩ := exists_of_bind_eq_ok h
    rcases List.mem_cons.1 hl with rfl | hl
    · rw [renameInPart, hd] at hpart
      dsimp only at hpart
      split at hpart
      · exact absurd hpart (by simp)
      · next hnone => exact hnone
    · exact ih h hl

/-- No other parameter of a type has a name that no sibling has. -/
theorem name_ne_of_siblingNamed? {owner : TypeSymbol} {j : TypeParamId} {p : TypeParamSymbol}
    (h : (build sources).siblingNamed? owner param new = none) (hj : j ∈ owner.typeParams)
    (hne : j ≠ param) (hp : (build sources).symbols.typeParam? j = some p) : p.name ≠ new := by
  have hfaithful : (build sources).symbols.Faithful _ :=
    SymbolTable.faithful_bind (nodup_declaredSites sources)
  obtain ⟨hid, -⟩ := hfaithful.param j p hp
  have hnone := List.findSome?_eq_none_iff.1 h j hj
  intro hname
  simp [hp, hid, hne, hname] at hnone

/-- A reference in a declaration of a document is an identifier in its span with the name. -/
theorem exists_token_of_mem_references {doc : Document} (hdoc : doc ∈ (build sources).documents)
    {d : TypeDecl} (hd : d ∈ doc.tree.typeDecls) {name : String} {s : Span}
    (hs : s ∈ d.references name) : ∃ t ∈ Token.read doc.text, t.kind = .ident ∧
      identName t.text = name ∧ s = t.span ∧ d.span.contains t.span = true := by
  obtain ⟨-, htree, -⟩ := ofSource_of_document? (mem_documents_iff.1 hdoc)
  obtain ⟨n, hn, -, i, hi, hname, hspan⟩ := d.exists_of_mem_references hs
  have hplaced := (allPlacedIn_of_document? (mem_documents_iff.1 hdoc)).types n
    (doc.tree.mem_typeDecls_of_withNested hd hn)
  rw [htree] at hd
  have hwithin := (SyntaxTree.idents_within_read _ _ hd).2 n hn i hi
  obtain ⟨t, ht, hk, rfl⟩ := mem_idents_iff.1 (hplaced.idents i hi)
  exact ⟨t, (mem_read_iff (by simp [hk])).2 ht, hk, hname, hspan.symm, hwithin⟩

/-- Edits of a renaming stand at references in the parts of the parameter's type. -/
theorem exists_part_of_mem_edits {symbol : TypeParamSymbol} {owner : TypeSymbol}
    (howner : (build sources).symbols.typeSymbol? symbol.owner = some owner)
    (h : owner.locations.foldlM ((build sources).renameInPart symbol.name new) .empty = .ok edit)
    {f : FileId} {e : TextEdit} (he : e ∈ edit.editsFor f) :
    ∃ doc, (build sources).document? f = some doc ∧ ∃ d ∈ doc.tree.typeDecls,
      (⟨f, d.nameSpan⟩ : Location) ∈ owner.locations ∧
      ∃ s ∈ d.references symbol.name, e = ⟨s, new⟩ := by
  rw [editsFor_renameInParts EditSet.ordered_empty h, EditSet.editsFor_empty, List.nil_append] at he
  obtain ⟨s, hparts, rfl⟩ := List.mem_map.1 he
  obtain ⟨l, hfiltered, hs⟩ := List.mem_flatMap.1 hparts
  obtain ⟨hl, hfile⟩ := List.mem_filter.1 hfiltered
  obtain ⟨doc, hdoc, d, hd, rfl, -, hreferences⟩ := partReferences_eq howner hl
  obtain rfl : doc.id = f := of_decide_eq_true hfile
  rw [hreferences] at hs
  exact ⟨doc, mem_documents_iff.1 hdoc, d, hd, hl, s, hs, rfl⟩

/-- Of two edits of a renaming one ends before the other begins. -/
theorem pairwise_renameTypeParam
    (h : (build sources).renameTypeParam param new cancelled = .ok edit) (f : FileId) :
    (edit.editsFor f).Pairwise fun a b =>
      a.span.stop ≤ b.span.start ∨ b.span.stop ≤ a.span.start := by
  have hpos : ∀ e ∈ edit.editsFor f, e.span.start < e.span.stop := by
    intro e he
    obtain ⟨-, doc, -, i, hi, hspan⟩ := (mem_editsFor_renameTypeParam h).2 f e he
    obtain ⟨t, ht, -, rfl⟩ := mem_idents_iff.1 hi
    rw [hspan]
    exact ((placed_ofSource doc.text).start_le ht).2
  refine (apart_renameTypeParam h f).imp_of_mem fun {a b} ha hb hab => ?_
  have hapos := hpos a ha
  have hbpos := hpos b hb
  rcases Bool.or_eq_true _ _ ▸ TextEdit.before_total a b with hbefore | hbefore
  · exact .inl (TextEdit.stop_le_of_not_overlaps hbefore hab)
  · rw [TextEdit.overlaps_comm] at hab
    exact .inr (TextEdit.stop_le_of_not_overlaps hbefore hab)

/-- A renaming touches only its own tokens and captures nothing. Each edit puts the new name in the
place of a whole identifier of a document that is spelled as the parameter, within a declaration of its
type; no two edits of a document overlap or coincide, and applying them copies all other text. The new
name is an identifier. If it is not the parameter's name already, where there is no edit, it is neither
the name of the type nor that of another of its parameters, and where a declaration of the type or one
nested in it has an identifier with this name, this stands in an attribute list of a type parameter of
the declaration that has it. -/
theorem renameTypeParam_framed
    (h : (build sources).renameTypeParam param new cancelled = .ok edit) :
    isValidIdentifier new = true ∧
    ∃ symbol owner, (build sources).symbols.typeParam? param = some symbol ∧
      (build sources).symbols.typeSymbol? symbol.owner = some owner ∧
      (∀ f, ∀ e ∈ edit.editsFor f, ∃ doc, (build sources).document? f = some doc ∧
        ∃ t ∈ Token.read doc.text, t.kind = .ident ∧ identName t.text = symbol.name ∧
          e = ⟨t.span, new⟩ ∧ ∃ d ∈ doc.tree.typeDecls,
            (⟨f, d.nameSpan⟩ : Location) ∈ owner.locations ∧ d.span.contains t.span = true) ∧
      (∀ f, (edit.editsFor f).Pairwise fun a b =>
        a.span.stop ≤ b.span.start ∨ b.span.stop ≤ a.span.start) ∧
      (∃ text : Document → String, (build sources).withEdit edit =
          .ok (build ((build sources).documents.map fun doc =>
            { doc.source with text := text doc })) ∧
        ∀ doc ∈ (build sources).documents,
          TextEdit.splice? 0 (TextEdit.placeOrder (edit.editsFor doc.id)) doc.text.toList =
            some (text doc).toList) ∧
      (symbol.name = new → edit = .empty) ∧
      (symbol.name ≠ new → owner.name ≠ new ∧
        (∀ j ∈ owner.typeParams, j ≠ param →
          ∀ p, (build sources).symbols.typeParam? j = some p → p.name ≠ new) ∧
        ∀ doc ∈ (build sources).documents, ∀ d ∈ doc.tree.typeDecls,
          (⟨doc.id, d.nameSpan⟩ : Location) ∈ owner.locations →
          ∀ e ∈ d.withNested, ∀ i ∈ e.idents, i.name = new →
            ∃ p ∈ e.typeParams, ∃ l ∈ p.attributes, l.span.contains i.span = true) := by
  have hfaithful : (build sources).symbols.Faithful _ :=
    SymbolTable.faithful_bind (nodup_declaredSites sources)
  obtain ⟨symbol, hsymbol, hvalid, hedit⟩ := renameTypeParam_eq_ok h
  obtain ⟨-, owner, howner, -⟩ := hfaithful.param param symbol hsymbol
  refine ⟨hvalid, symbol, owner, hsymbol, howner, ?_, pairwise_renameTypeParam h,
    (fits_renameTypeParam h).1.exists_withEdit (apart_renameTypeParam h), ?_, ?_⟩
  · intro f e he
    rcases hedit with ⟨-, rfl⟩ | ⟨-, owner', howner', -, -, hparts⟩
    · exact absurd he (by simp)
    · obtain rfl := Option.some.inj (howner.symm.trans howner')
      obtain ⟨doc, hdoc, d, hd, hlocation, s, hs, rfl⟩ := exists_part_of_mem_edits howner hparts he
      obtain ⟨rfl, -, -⟩ := ofSource_of_document? hdoc
      obtain ⟨t, ht, hk, hname, rfl, hwithin⟩ :=
        exists_token_of_mem_references (mem_documents_iff.2 hdoc) hd hs
      exact ⟨doc, hdoc, t, ht, hk, hname, rfl, d, hd, hlocation, hwithin⟩
  · intro hname
    rcases hedit with ⟨-, hempty⟩ | ⟨hne, -⟩
    · exact hempty
    · exact absurd hname hne
  · intro hne
    rcases hedit with ⟨hname, -⟩ | ⟨-, owner', howner', hown, hsibling, hparts⟩
    · exact absurd hname hne
    · obtain rfl := Option.some.inj (howner.symm.trans howner')
      refine ⟨hown, fun j hj hjp p hp => name_ne_of_siblingNamed? hsibling hj hjp hp, ?_⟩
      intro doc hdoc d hd hlocation e he i hi hname
      have hnone := capture?_eq_none_of_foldlM hparts hlocation (declarationAt?_of_mem hdoc hd)
      exact d.exists_list_of_capture?_eq_none hnone he hi hname

/-- A parameter of a type with two parts, the second of which is never closed. -/
def partsUnclosed : List SourceText :=
  [⟨"A.cs", "partial class A<T> \x7b class B \x7b T x; \x7d \x7d", .empty⟩,
    ⟨"B.cs", "partial class A<T> \x7b void M(@T y", .empty⟩]

/-- Renaming the parameter edits both parts in spite of the fault. -/
theorem renameTypeParam_partsUnclosed :
    (build partsUnclosed).documents.map (·.errors) =
      [[], [.expected .closingBrace none ⟨32, 32⟩]] ∧
    ∃ edit, (build partsUnclosed).renameTypeParam 0 "X" false = .ok edit ∧
      edit.editsFor 1 = [⟨⟨16, 17⟩, "X"⟩, ⟨⟨28, 30⟩, "X"⟩] ∧
      (∀ f, (edit.editsFor f).Pairwise fun a b =>
        a.span.stop ≤ b.span.start ∨ b.span.stop ≤ a.span.start) ∧
      ∃ w, (build partsUnclosed).withEdit edit = .ok w := by
  have hrename : (build partsUnclosed).renameTypeParam 0 "X" false =
      .ok ⟨[(0, [⟨⟨16, 17⟩, "X"⟩, ⟨⟨31, 32⟩, "X"⟩]), (1, [⟨⟨16, 17⟩, "X"⟩, ⟨⟨28, 30⟩, "X"⟩])]⟩ := by
    decide +kernel
  obtain ⟨-, symbol, owner, -, -, -, hpairwise, ⟨text, hw, -⟩, -⟩ := renameTypeParam_framed hrename
  exact ⟨by decide +kernel, _, hrename, rfl, hpairwise, _, hw⟩

end Workspace

end SelfTypeLint
