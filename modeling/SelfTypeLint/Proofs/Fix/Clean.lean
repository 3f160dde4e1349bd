import SelfTypeLint.Proofs.Analysis.Findings
import SelfTypeLint.Proofs.Fix.Actionable
import SelfTypeLint.Proofs.Fix.Marked
import SelfTypeLint.Proofs.Workspace.Renamed

/-!
# Actions that keep documents free of faults

An action for what an analysis reports keeps documents free of faults as long as the words that it writes are
no keywords and stand free (`apply_clean`). The fix for a self argument writes the name of a declaration as
the tree has it, without the sign of a verbatim name: for a declaration named after a keyword this is no name
at all (`apply_argument_verbatim`).
-/

namespace SelfTypeLint

open Token TextEdit

namespace FixAll

open SelfTypeLint.Fix Workspace EditSet Text

/-- Holds of an action that writes no keywords: a new name that takes the place of names, a declaration and its
parameters, or an attribute and what its namespace is made of. The only blanks it writes are layout. -/
structure WritesPlain (ctx : FixContext) (action : CodeAction) (edit : EditSet) : Prop where
  name : action.key = nameKey → ∀ file source, ctx.host.sourceText file = some source →
    ∀ e ∈ edit.editsFor file, e.Respells source
  argument : action.key = argumentKey → ∀ d, targetDeclaration ctx = .ok d →
    ∀ w ∈ d.name :: d.typeParams.map (·.name), TokenKind.ofWord? w = none
  mark : action.key = markerKey → ∀ symbol, markerSymbol? ctx = some symbol →
    IsPlainWord (shortAttributeName symbol.name)
  directive : action.key = markerKey → 1 < (edit.editsFor ctx.file).length →
    ∀ symbol, markerSymbol? ctx = some symbol →
      ∀ w ∈ Dotted.parts (namespaceOf ctx.host symbol.id), IsPlainWord w
  blanks : action.key = markerKey → ∀ e ∈ edit.editsFor ctx.file, ∀ c ∈ e.newText.toList,
    isBlank c = true → isLayout c = true

variable {sources : List SourceText} {diagnostic : Diagnostic} {action : CodeAction} {edit : EditSet}

/-- An action that gives the declaring type keeps documents free of faults. -/
theorem compute_argument_clean (hclean : ∀ doc ∈ (build sources).documents, doc.errors = [])
    {tree : SyntaxTree} (htree : (build sources).host.syntaxTree diagnostic.location.file = some tree)
    {d : TypeDecl} (hd : d ∈ tree.typeDecls) {b a : TypeExpr} (hb : b ∈ d.baseList) (ha : a ∈ b.typeArgs)
    (hspan : diagnostic.location.span = a.span)
    (h : argumentFix.compute (.new (build sources).host diagnostic false) action = .ok edit)
    (hwords : ∀ w ∈ d.name :: d.typeParams.map (·.name), TokenKind.ofWord? w = none) :
    ∃ w, (build sources).withEdit edit = .ok w ∧ ∀ doc ∈ w.documents, doc.errors = [] := by
  obtain ⟨d', htarget, h⟩ := exists_of_bind_eq_ok h
  obtain rfl := Except.ok.inj ((targetDeclaration_of_typeArg htree hd hb ha hspan).symm.trans htarget)
  obtain rfl := Except.ok.inj h
  obtain ⟨doc, hdoc, rfl⟩ := document?_of_syntaxTree htree
  obtain ⟨hid, hread, herrors⟩ := ofSource_of_document? hdoc
  have hclean' := herrors ▸ hclean doc (mem_documents_iff.2 (hid.symm ▸ hdoc))
  rw [hread] at hd
  have hplain := isPlainWord_names hclean' hd hwords
  obtain ⟨front, old, back, hsource, hat, hnew⟩ := read_argument hclean' hd hb ha
    (hplain _ List.mem_cons_self) fun p hp => hplain _ (List.mem_cons_of_mem _ (List.mem_map_of_mem hp))
  refine ⟨_, withEdit_ofEdits hdoc (List.pairwise_singleton _ _) ?_, errors_withText hdoc hclean hnew⟩
  rw [TextEdit.applyAll?_singleton, hsource, String.toList_ofList]
  have hstart : (FixContext.new (build sources).host diagnostic false).span =
    ⟨byteSize front, byteSize front + byteSize old⟩ := hspan.trans hat
  rw [hstart]
  exact TextEdit.applyTo?_append ⟨_, d.selfTypeText⟩ front old back rfl rfl

/-- An action that marks a parameter puts a text in the place of a document's in which the parameter is
marked. -/
theorem exists_marked_of_compute (hclean : ∀ doc ∈ (build sources).documents, doc.errors = [])
    (hkey : action.key = markerKey)
    (h : markerFix.compute (.new (build sources).host diagnostic false) action = .ok edit)
    (hwords : WritesPlain (.new (build sources).host diagnostic false) action edit) :
    ∃ symbol doc d p i text, markerSymbol? (.new (build sources).host diagnostic false) = some symbol ∧
      (build sources).document? diagnostic.location.file = some doc ∧ d ∈ doc.tree.typeDecls ∧
      d.typeParams[i]? = some p ∧ p.nameSpan = diagnostic.location.span ∧
      MarkedIn sources diagnostic.location.file d i p (shortAttributeName symbol.name)
        (namespaceOf (build sources).host symbol.id) text ∧
      (build sources).withEdit edit = .ok (build ((build sources).withText diagnostic.location.file text)) := by
  simp only [markerFix] at h
  split at h
  · exact absurd h (by simp)
  · next symbol hsymbol =>
    have hword := hwords.mark hkey symbol hsymbol
    split at h
    · next tree source htree hsource =>
      obtain ⟨doc, hdoc, rfl⟩ := document?_of_syntaxTree htree
      obtain ⟨doc', hdoc', rfl⟩ := Option.map_eq_some_iff.1 hsource
      obtain rfl : doc = doc' := Option.some.inj (hdoc.symm.trans hdoc')
      obtain ⟨hid, -⟩ := ofSource_of_document? hdoc
      have hclean' := hclean doc (mem_documents_iff.2 (hid.symm ▸ hdoc))
      split at h
      · exact absurd h (by simp)
      · next d p hp =>
        obtain rfl := Except.ok.inj h
        obtain ⟨hd, hparam, hspan⟩ := SyntaxTree.findTypeParam_eq_some hp
        obtain ⟨i, hi⟩ := List.mem_iff_getElem?.1 hparam
        have hdirective := hwords.directive hkey
        have hblanks := hwords.blanks hkey
        rw [(editsFor_ofEdits _ _).2, if_pos rfl] at hdirective hblanks
        refine ⟨symbol, doc, d, p, i, ?_⟩
        split
        · next hvisible =>
          obtain ⟨front, back, text, hsource, hsize, htext, hmarked⟩ :=
            exists_marked hdoc hclean' hd hi hword hvisible
          refine ⟨text, hsymbol, hdoc, hd, hi, hspan, hmarked, ?_⟩
          refine withEdit_ofEdits hdoc (List.pairwise_singleton _ _) ?_
          have happly := TextEdit.applyTo?_append (.insertAt (byteSize front)
            ("[" ++ shortAttributeName symbol.name ++ "] ")) front [] back rfl rfl
          rw [List.nil_append, TextEdit.applyAll?_singleton, ← hsize, hsource, htext]
          rwa [List.append_nil] at happly
        · next hhidden =>
          rw [if_neg hhidden] at hdirective hblanks
          obtain ⟨text, happly, hmarked⟩ := exists_marked_using hdoc hclean' hd hi hword
            (hdirective (by simp) symbol hsymbol) (hblanks _ List.mem_cons_self)
          refine ⟨text, hsymbol, hdoc, hd, hi, hspan, hmarked, ?_⟩
          refine withEdit_ofEdits hdoc (List.pairwise_pair.2 ?_) happly
          exact TextEdit.not_overlaps_of_isInsert (isInsert_usingInsertion ..) (TextEdit.isInsert_insertAt _ _)
    · exact absurd h (by simp)

/-- The actions for what an analysis reports keep documents free of faults where they write plain words. -/
theorem apply_clean (hclean : ∀ doc ∈ (build sources).documents, doc.errors = [])
    {ds : List Diagnostic} (hds : Analysis.analyzeAll (build sources).host false = .ok ds) (hd : diagnostic ∈ ds)
    (haction : action ∈ FixRegistry.builtin.actions (.new (build sources).host diagnostic false))
    (h : FixRegistry.builtin.apply (.new (build sources).host diagnostic false) action = .ok edit)
    (hwords : WritesPlain (.new (build sources).host diagnostic false) action edit) :
    ∃ w, (build sources).withEdit edit = .ok w ∧ ∀ doc ∈ w.documents, doc.errors = [] := by
  obtain ⟨fix, hfix, hkey, hcompute⟩ := exists_fix_of_apply_builtin h
  simp only [List.mem_cons, List.not_mem_nil, or_false] at hfix
  rcases hfix with rfl | rfl | rfl
  · obtain ⟨param, new, hrename⟩ := exists_rename_of_apply hkey.symm h
    obtain ⟨w, hw, hclean', -⟩ := exists_withEdit_renameTypeParam hclean hrename fun doc hdoc =>
      hwords.name hkey.symm doc.id doc.text (by
        have := mem_documents_iff.1 hdoc
        exact congrArg (Option.map _) this)
    exact ⟨w, hw, hclean'⟩
  · obtain ⟨symbol, doc, d, p, i, text, -, hdoc, -, -, -, hmarked, hw⟩ :=
      exists_marked_of_compute hclean hkey.symm hcompute hwords
    exact ⟨_, hw, errors_withText hdoc hclean hmarked.clean⟩
  · obtain ⟨ds', hds', hall⟩ := actionable_analyzeAll sources
    obtain rfl := Except.ok.inj (hds'.symm.trans hds)
    obtain ⟨-, tree, e, finding, htree, he, -, -, hrule, hspan, hrecovers⟩ := hall diagnostic hd
    rw [actions_builtin] at haction
    cases finding with
    | selfArgument span name =>
      obtain ⟨⟨b, hb, a, ha, rfl⟩, -⟩ := hrecovers
      exact compute_argument_clean hclean htree he hb ha hspan hcompute
        (hwords.argument hkey.symm e (targetDeclaration_of_typeArg htree he hb ha hspan))
    | forwardedParameter span param name =>
      simp only [FixContext.new, show diagnostic.rule = .forwardedParameter from hrule] at haction
      have hother : action.key = nameKey ∨ action.key = markerKey := by
        rcases List.mem_append.1 haction with haction | haction
        · simp only [nameFix] at haction
          split at haction <;> simp_all
        · simp only [markerFix] at haction
          split at haction <;> [split at haction; skip] <;> simp_all
      rw [← hkey] at hother
      exact absurd hother (by decide)

/-- A parameter that is forwarded to a self parameter, where the namespace of the attribute of self
parameters is not visible. -/
def forwardingElsewhere : List SourceText :=
  let options := Options.empty.insert "dotnet_tselfgeneric.tself_attribute_name.enable" "true"
  [⟨"A.cs", "namespace S \x7b interface I<TSelf> \x7b\x7d class TSelfAttribute \x7b\x7d \x7d", options⟩,
    ⟨"B.cs", "class A<T> : S.I<T> \x7b\x7d", options⟩]

/-- The diagnostic of the parameter. -/
def forwardedElsewhere : Diagnostic :=
  (Diagnostic.new .forwardedParameter ⟨1, ⟨8, 9⟩⟩ ["\"TSelf\"|\"[TSelfAttribute] T\""]).withLabel
    "passed to a self-type parameter"

/-- The action that marks the parameter. -/
def markElsewhere : CodeAction := ⟨"Add [TSelf] attribute", markerKey, forwardedElsewhere⟩

/-- Its edits. -/
def markedElsewhere : EditSet := ⟨[(1, [⟨⟨0, 0⟩, "using S;\n"⟩, ⟨⟨8, 8⟩, "[TSelf] "⟩])]⟩

/-- The symbol of the attribute of self parameters. -/
theorem markerSymbol?_elsewhere :
    markerSymbol? (.new (build forwardingElsewhere).host forwardedElsewhere false) =
      some ⟨18, .classType, "TSelfAttribute", "S", none, [], [⟨0, ⟨42, 56⟩⟩], "S.TSelfAttribute"⟩ := by
  decide +kernel

theorem writesPlain_elsewhere : WritesPlain (.new (build forwardingElsewhere).host forwardedElsewhere false)
    markElsewhere markedElsewhere := by
  have hall : ((markedElsewhere.editsFor 1).all fun e =>
      e.newText.toList.all fun c => !isBlank c || isLayout c) = true := by decide +kernel
  have hblanks : ∀ e ∈ markedElsewhere.editsFor 1, ∀ c ∈ e.newText.toList, isBlank c = true →
      isLayout c = true := by
    simpa [or_iff_not_imp_left] using hall
  refine ⟨fun h => absurd h (by decide), fun h => absurd h (by decide), fun _ symbol h => ?_,
    fun _ _ symbol h => ?_, fun _ => hblanks⟩
  · obtain rfl := Option.some.inj (markerSymbol?_elsewhere.symm.trans h)
    decide +kernel
  · obtain rfl := Option.some.inj (markerSymbol?_elsewhere.symm.trans h)
    decide +kernel

theorem analyzeAll_elsewhere :
    Analysis.analyzeAll (build forwardingElsewhere).host false = .ok [forwardedElsewhere] := by
  have hfound : (build forwardingElsewhere).host.documentIds.mapM
      (Analysis.analyzeDocument (build forwardingElsewhere).host · false) =
        .ok [[], [forwardedElsewhere]] := by decide +kernel
  exact Analysis.analyzeAll_of_pairwise hfound (by decide +kernel)

/-- Marking the parameter and adding the directive keeps the documents free of faults. -/
theorem apply_clean_forwardingElsewhere :
    (∀ doc ∈ (build forwardingElsewhere).documents, doc.errors = []) ∧
      Analysis.analyzeAll (build forwardingElsewhere).host false = .ok [forwardedElsewhere] ∧
      markElsewhere ∈ FixRegistry.builtin.actions (.new (build forwardingElsewhere).host forwardedElsewhere false) ∧
      FixRegistry.builtin.apply (.new (build forwardingElsewhere).host forwardedElsewhere false) markElsewhere =
        .ok markedElsewhere ∧
      WritesPlain (.new (build forwardingElsewhere).host forwardedElsewhere false) markElsewhere
        markedElsewhere ∧
      ∃ w, (build forwardingElsewhere).withEdit markedElsewhere = .ok w ∧
        ∀ doc ∈ w.documents, doc.errors = [] := by
  have hclean : ∀ doc ∈ (build forwardingElsewhere).documents, doc.errors = [] := by
    decide +kernel
  have haction : markElsewhere ∈ FixRegistry.builtin.actions
      (.new (build forwardingElsewhere).host forwardedElsewhere false) := by decide +kernel
  have happly : FixRegistry.builtin.apply
      (.new (build forwardingElsewhere).host forwardedElsewhere false) markElsewhere = .ok markedElsewhere := by
    decide +kernel
  exact ⟨hclean, analyzeAll_elsewhere, haction, happly, writesPlain_elsewhere,
    apply_clean hclean analyzeAll_elsewhere (List.mem_singleton_self _) haction happly writesPlain_elsewhere⟩

/-- A type named after a keyword, with an argument that should be the type. -/
def verbatimSelf : List SourceText :=
  [⟨"A.cs", "interface I<TSelf> {} class @class : I<int> {}", .empty⟩]

/-- The diagnostic of the argument. -/
def verbatimReported : Diagnostic :=
  (Diagnostic.new .selfArgument ⟨0, ⟨39, 42⟩⟩ ["class"]).withLabel "expected \x60class\x60"

/-- The fix for the argument writes the keyword, and the document gets a fault. -/
theorem apply_argument_verbatim :
    (∀ doc ∈ (Workspace.build verbatimSelf).documents, doc.errors = []) ∧
      ∃ ds d action edit w,
        Analysis.analyzeAll (Workspace.build verbatimSelf).host false = .ok ds ∧ d ∈ ds ∧
        action ∈ FixRegistry.builtin.actions (.new (Workspace.build verbatimSelf).host d false) ∧
        FixRegistry.builtin.apply (.new (Workspace.build verbatimSelf).host d false) action =
          .ok edit ∧
        (Workspace.build verbatimSelf).withEdit edit = .ok w ∧
        ¬ ∀ doc ∈ w.documents, doc.errors = [] := by
  have hfound : (Workspace.build verbatimSelf).host.documentIds.mapM
      (Analysis.analyzeDocument (Workspace.build verbatimSelf).host · false) =
        .ok [[verbatimReported]] := by decide +kernel
  have happly : ∀ doc ∈ (Workspace.build verbatimSelf).documents,
      EditSet.applyTo ⟨[(0, [⟨⟨39, 42⟩, "class"⟩])]⟩ doc.id doc.text =
        .ok "interface I<TSelf> {} class @class : I<class> {}" := by
    intro doc hdoc
    obtain rfl := List.mem_singleton.1 hdoc
    exact EditSet.applyTo_of_pairwise (by decide +kernel) (by decide +kernel) (by decide +kernel)
  refine ⟨by decide +kernel, [verbatimReported], verbatimReported,
    ⟨"Use 'class' as the self-type argument", argumentKey, verbatimReported⟩,
    ⟨[(0, [⟨⟨39, 42⟩, "class"⟩])]⟩, _, ?_, List.mem_singleton_self _, ?_, ?_, withEdit_eq happly, ?_⟩
  · exact Analysis.analyzeAll_of_pairwise hfound (by decide +kernel)
  · decide +kernel
  · decide +kernel
  · decide +kernel

end FixAll

end SelfTypeLint
