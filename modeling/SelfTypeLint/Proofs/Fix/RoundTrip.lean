import SelfTypeLint.Proofs.Analysis.Findings
import SelfTypeLint.Proofs.Fix.Clean
import SelfTypeLint.Proofs.Symbol.Sole

/-!
# Marking and analyzing again

A parameter that the fix marks has the attribute type of the configuration afterwards, and is reported no more, if
nothing else can be meant by the word that is written (`mem_attributes_of_marker`). For an attribute type that is
nested in another the word, which is the short name of the type, means nothing in other types, and the parameter
stays without the attribute (`apply_marker_nested`).
-/

namespace SelfTypeLint

namespace Fix

open SymbolTable Scope

/-- A name is its short form, or this with the word for attributes behind it. -/
theorem shortAttributeName_cases (name : String) :
    name = shortAttributeName name ∨ name = shortAttributeName name ++ "Attribute" := by
  unfold shortAttributeName
  dsimp only
  split
  · next h =>
    right
    simp only [Bool.and_eq_true, List.isSuffixOf_iff_suffix] at h
    have hsuffix := List.suffix_iff_eq_append.1 h.1
    apply String.toList_injective
    rw [String.toList_append, String.toList_ofList]
    exact hsuffix.symm
  · exact .inl rfl

/-- Holds of an attribute type of a scope, if nothing else can be meant by its short word: the type has no
parameters and stands in no type, no other such has one of the two names that the word is looked for under,
and no alias is for these. -/
structure Unrivaled (s : Scope) (id : TypeId) (symbol : TypeSymbol) : Prop where
  top : symbol.containingType = none
  closed : symbol.typeParams = []
  ending : endsInAttribute (shortAttributeName symbol.name) = true → shortAttributeName symbol.name = symbol.name
  types : ∀ other ∈ s.table.types.toList, other.typeParams = [] →
    other.name ∈ [shortAttributeName symbol.name, shortAttributeName symbol.name ++ "Attribute"] → other.id = id
  aliases : ∀ l ∈ s.levels, ∀ u ∈ l.usings, u.kind = .ofAlias → ∀ name ∈ [shortAttributeName symbol.name,
    shortAttributeName symbol.name ++ "Attribute"], u.newName ≠ some name

instance (s : Scope) (id : TypeId) (symbol : TypeSymbol) : Decidable (Unrivaled s id symbol) :=
  decidable_of_iff
    ((symbol.containingType = none ∧ symbol.typeParams = []) ∧
      (endsInAttribute (shortAttributeName symbol.name) = true → shortAttributeName symbol.name = symbol.name) ∧
      (∀ other ∈ s.table.types.toList, other.typeParams = [] →
        other.name ∈ [shortAttributeName symbol.name, shortAttributeName symbol.name ++ "Attribute"] →
          other.id = id) ∧
      ∀ l ∈ s.levels, ∀ u ∈ l.usings, u.kind = .ofAlias → ∀ name ∈ [shortAttributeName symbol.name,
        shortAttributeName symbol.name ++ "Attribute"], u.newName ≠ some name)
    ⟨fun h => ⟨h.1.1, h.1.2, h.2.1, h.2.2.1, h.2.2.2⟩, fun h => ⟨⟨h.top, h.closed⟩, h.ending, h.types, h.aliases⟩⟩

variable {s s' : Scope} {id : TypeId} {symbol : TypeSymbol} {parts : List Part}

theorem Unrivaled.sole (h : Unrivaled s id symbol) (ht : s.table.Records parts) {name : String}
    (hname : name ∈ [shortAttributeName symbol.name, shortAttributeName symbol.name ++ "Attribute"]) :
    s.Sole name id where
  types container i hmember := by
    obtain ⟨other, hother, hkey⟩ := (ht.members _ i).1 hmember
    have hmem : other ∈ s.table.types.toList := by
      rw [← Array.getElem?_toList] at hother
      exact List.mem_of_getElem? hother
    have heq : other.name = name := congrArg TypeKey.name hkey
    rw [← ht.typeId i other hother]
    exact h.types other hmem (List.length_eq_zero_iff.1 (congrArg TypeKey.arity hkey)) (by rwa [heq])
  aliases l hl u hu hkind := h.aliases l hl u hu hkind name hname

/-- The short word of an attribute type means this type in a scope that has no fewer directives and no more
aliases, where the namespace of the type is visible. -/
theorem Unrivaled.resolveAttribute (h : Unrivaled s id symbol) (ht : s.table.Records parts)
    (hsymbol : s.table.typeSymbol? id = some symbol) (hmember : s'.table.member? = s.table.member?)
    (hlevels : List.Forall₂ (Level.Corresponds Enriches) s.levels s'.levels)
    (hvisible : ∃ l ∈ s'.levels, l.space = symbol.space ∨
      ∃ u ∈ l.usings, u.kind = .ofNamespace ∧ u.target = symbol.space)
    {segment : NameSegment TypeExpr} (hword : segment.name = shortAttributeName symbol.name)
    (hargs : segment.args = []) (span : Span) :
    s'.resolveAttribute (.path false [segment] span) = some id := by
  have hkey : symbol.key = ⟨.space symbol.space, symbol.name, 0⟩ := by
    simp [TypeSymbol.key, h.top, h.closed]
  have hfound : s'.table.member? (.space symbol.space) symbol.name 0 = some id := by
    rw [hmember]
    exact (ht.members _ id).2 ⟨symbol, hsymbol, hkey⟩
  have hbrings : ∃ l ∈ s'.levels, BringsIn s'.table symbol.name id l := by
    obtain ⟨l, hl, hspace | ⟨u, hu, hkind, htarget⟩⟩ := hvisible
    · exact ⟨l, hl, .inl (by rw [hspace]; exact hfound)⟩
    · exact ⟨l, hl, .inr ⟨u, hu, by simp only [imported?, hkind, htarget]; exact hfound⟩⟩
  have hlong : s.Sole (shortAttributeName symbol.name ++ "Attribute") id := h.sole ht (by simp)
  have hne : shortAttributeName symbol.name ≠ shortAttributeName symbol.name ++ "Attribute" := by
    intro heq
    have hlength := congrArg String.length heq
    simp at hlength
  refine resolveAttribute_word ((h.sole ht (by simp)).enriched hmember hlevels) (hlong.enriched hmember hlevels)
    ?_ hbrings hword hargs span
  rcases shortAttributeName_cases symbol.name with hshort | hshort
  · refine .inl ⟨hshort, fun container => ?_⟩
    -- A type of the longer name would be the attribute type, which has the shorter one.
    rw [hmember]
    by_contra hsome
    obtain ⟨i, hi⟩ := Option.ne_none_iff_exists'.1 hsome
    obtain rfl := hlong.types container i hi
    obtain ⟨other, hother, hkey'⟩ := (ht.members _ _).1 hi
    obtain rfl := Option.some.inj (hsymbol.symm.trans hother)
    exact hne (hshort.symm.trans (congrArg TypeKey.name hkey'))
  · refine .inr ⟨hshort, Bool.eq_false_iff.2 fun hends => hne ?_⟩
    exact (h.ending hends).trans hshort

end Fix

namespace Workspace

open SymbolTable SelfTypeLint.Fix Token

variable {sources sources' : List SourceText} {file : FileId} {doc' : Document} {d d' : TypeDecl} {i : Nat}

/-- A parameter that is marked with the short word of an attribute type later has it then, where nothing else
can be meant by the word. -/
theorem Follows.mem_attributes (h : Follows (build sources) (build sources') file i d d') {p p' : TypeParam}
    (hp : d.typeParams[i]? = some p) (hp' : d'.typeParams[i]? = some p') {j : TypeParamId}
    (hj : (build sources).symbols.declaredTypeParam? file p.nameSpan = some j)
    (hdoc' : (build sources').document? file = some doc') (hd' : d' ∈ doc'.tree.typeDecls)
    {s : Scope} (hs : (build sources).scopeOf? file d = some s) {id : TypeId} {symbol : TypeSymbol}
    (hsymbol : (build sources).symbols.typeSymbol? id = some symbol) (hunrivaled : Unrivaled s id symbol)
    (hvisible : isNamespaceVisible (build sources').host doc'.tree d' symbol.space = true)
    {o t c : Token} (htext : identName t.text = shortAttributeName symbol.name)
    (hmarked : Grammar.wordList o t c ∈ p'.attributes) :
    (build sources').symbols.declaredTypeParam? file p'.nameSpan = some j ∧
      ∃ q, (build sources').symbols.typeParam? j = some q ∧ id ∈ q.attributes := by
  obtain ⟨q, q', hq, hq', hsame⟩ := h.param
  obtain rfl := Option.some.inj (hp.symm.trans hq)
  obtain rfl := Option.some.inj (hp'.symm.trans hq')
  rw [hj] at hsame
  obtain ⟨s₀, s', hs₀, hs', hlevels⟩ := h.levels
  obtain rfl := Option.some.inj (hs.symm.trans hs₀)
  have htree' := mem_trees_of_document? hdoc'
  have hfile := file_of_document? hdoc'
  have hfaithful : (build sources').symbols.Faithful _ := faithful_bind (nodup_declaredSites sources')
  obtain ⟨-, owner, ownerSymbol, -, howner, hownerSymbol, -, hparams⟩ := hfaithful.declared doc'.tree htree' d' hd'
  obtain ⟨k, hk, hformal⟩ := hparams i p' hp'
  rw [hfile] at hk howner
  obtain rfl := Option.some.inj (hsame.symm.trans hk)
  obtain ⟨param, hparam, -⟩ := hfaithful.formal owner ownerSymbol i j hownerSymbol hformal
  have hscope : s' = .ofDecl (build sources').symbols doc'.tree d' owner := by
    simp only [scopeOf?, hdoc', howner, Option.bind_eq_bind, Option.bind_some] at hs'
    exact (Option.some.inj hs').symm
  have hlevel := exists_level_of_isNamespaceVisible hdoc' hd' hs' hvisible
  have htable := table_of_scopeOf? hs
  have htable' := table_of_scopeOf? hs'
  obtain ⟨parts, hparts, -⟩ := exists_records_bind ((build sources).documents.map (·.tree))
  have hrecords : s.table.Records parts := htable ▸ hparts
  rw [← htable] at hsymbol
  have hresolve : s'.resolveAttribute (.path false [⟨identName t.text, t.span, [], none⟩] t.span) = some id :=
    hunrivaled.resolveAttribute hrecords hsymbol (by rw [htable, htable', h.member]) hlevels hlevel htext rfl t.span
  refine ⟨hsame, param, hparam, (SymbolTable.mem_attributes_iff _ hparam id).2 ⟨doc'.tree, htree', d', hd', owner, ?_, p',
    List.mem_of_getElem? hp', ?_, _, hmarked, _, List.mem_singleton_self _, ?_⟩⟩
  · rw [hfile]
    exact howner
  · rw [hfile]
    exact hsame
  · rw [hscope] at hresolve
    exact hresolve

end Workspace

namespace Scan

/-- What is reported at a type parameter is no self parameter. -/
theorem exists_of_classify? {model : SemanticModel} {file : FileId} {config : Config} {d : TypeDecl} {own : TypeRef}
    {slot : SelfSlot} {span : Span} {id : TypeParamId} {name : String}
    (h : classify? model file config d own slot = some (.forwardedParameter span id name)) :
    ∃ k p, model.typeParam k = some p ∧ config.isSelfParam p = false ∧ ⟨file, span⟩ ∈ p.locations ∧ p.id = id := by
  rcases classify?_eq_some h with hother | ⟨k, p, l, hargument, hp, hl, rfl, heq⟩
  · exact absurd hother (by simp)
  · obtain ⟨rfl, rfl, rfl⟩ := Finding.forwardedParameter.inj heq
    refine ⟨k, p, hp, Bool.eq_false_iff.2 fun hself => ?_, hl, rfl⟩
    simp [classify?, hargument, hp, hself] at h

end Scan

namespace Fix

open Workspace

variable {sources : List SourceText} {file : FileId}

/-- No diagnostic of an analysis is at a parameter that is a self parameter for its document. -/
theorem not_reported {j : TypeParamId} {q : TypeParamSymbol} (hq : (build sources).symbols.typeParam? j = some q)
    (hself : (Analysis.configFor (build sources).host file).isSelfParam q = true) {ds : List Diagnostic}
    (hds : Analysis.analyzeAll (build sources).host false = .ok ds) {x : Diagnostic} (hx : x ∈ ds)
    (hrule : x.rule = .forwardedParameter) (hfile : x.location.file = file) :
    (build sources).symbols.declaredTypeParam? file x.location.span ≠ some j := by
  intro hj
  obtain ⟨ds', hds', hall⟩ := Analysis.exists_analyzeAll (build sources).host
  obtain rfl := Except.ok.inj (hds'.symm.trans hds)
  obtain ⟨other, -, tree, htree, e, -, finding, hscan, hreport⟩ := hall x hx
  obtain ⟨hrule', hlocation⟩ := Finding.toDiagnostic?_eq_some hreport
  obtain rfl : other = file := by rw [← hfile, hlocation]
  obtain ⟨hother, -, -⟩ := syntaxTree_eq_some htree
  rw [hother] at hscan
  obtain ⟨r, hr, hcases⟩ := Scan.exists_scanDeclaration (build sources).host.toSemanticModel other
    (Analysis.configFor (build sources).host other) e
  obtain rfl : r = some finding := Except.ok.inj (hr.symm.trans hscan)
  obtain ⟨-, own, base, -, slot, -, hclassify⟩ := hcases finding rfl
  cases finding with
  | selfArgument span name => exact absurd (hrule'.symm.trans hrule) (by simp [Finding.rule])
  | forwardedParameter span id name =>
    obtain ⟨k, param, hk, hnot, hl, -⟩ := Scan.exists_of_classify? hclassify
    obtain ⟨-, hdeclared, -⟩ := declaredTypeParam_of_mem_locations hk hl
    rw [hlocation] at hj
    obtain rfl := Option.some.inj (hdeclared.symm.trans hj)
    obtain rfl := Option.some.inj (hk.symm.trans hq)
    rw [hself] at hnot
    exact absurd hnot (by simp)

theorem configFor_congr {w w' : Workspace} (hoptions : w'.host.options = w.host.options)
    (hnames : w'.symbols.typeByName? = w.symbols.typeByName?) (file : FileId) :
    Analysis.configFor w'.host file = Analysis.configFor w.host file := by
  have hhost : w'.host.typeByName = w.host.typeByName := by
    simp only [Workspace.host]
    exact hnames
  rw [Analysis.configFor, Analysis.configFor, hoptions, hhost]

theorem of_mem_offer_markerFix {ctx : FixContext} {action : CodeAction} (h : action ∈ markerFix.offer ctx) :
    ctx.config.byAttribute = true ∧ action.key = markerKey := by
  simp only [markerFix] at h
  split at h
  · next hby =>
    split at h
    · exact absurd h List.not_mem_nil
    · obtain rfl := List.mem_singleton.1 h
      exact ⟨hby, rfl⟩
  · exact absurd h List.not_mem_nil

theorem isSelfParam_of_mem_attributes {c : Config} {q : TypeParamSymbol} {id : TypeId} (hby : c.byAttribute = true)
    (hid : c.attributeType = some id) (hmem : id ∈ q.attributes) : c.isSelfParam q = true := by
  simp only [Config.isSelfParam, Config.matchesAttribute, hby, hid, Bool.true_and, Bool.or_eq_true]
  right
  simpa using hmem

/-- A type in no other has the namespace that its symbol records. -/
theorem namespaceOf_of_top {host : Host} {id : TypeId} {symbol : TypeSymbol} (h : host.typeSymbol id = some symbol)
    (htop : symbol.containingType = none) : namespaceOf host id = symbol.space := by
  rw [namespaceOf, h]
  simp [htop, namespaceOf.spaceAt, h]

end Fix

namespace FixAll

open SelfTypeLint.Fix Workspace Token SymbolTable

variable {sources : List SourceText} {diagnostic : Diagnostic} {action : CodeAction} {edit : EditSet}

/-- Marking a reported parameter where nothing else can be meant by the word gives it the attribute type of the
configuration. It is declared in the new text, too, and is not reported there. -/
theorem mem_attributes_of_marker (hclean : ∀ doc ∈ (build sources).documents, doc.errors = [])
    (haction : action ∈ markerFix.offer (.new (build sources).host diagnostic false))
    (h : markerFix.compute (.new (build sources).host diagnostic false) action = .ok edit)
    (hwords : WritesPlain (.new (build sources).host diagnostic false) action edit)
    (hunrivaled : ∀ tree d p s id symbol, (build sources).host.syntaxTree diagnostic.location.file = some tree →
      d ∈ tree.typeDecls → p ∈ d.typeParams → p.nameSpan = diagnostic.location.span →
      (build sources).scopeOf? diagnostic.location.file d = some s →
      (Analysis.configFor (build sources).host diagnostic.location.file).attributeType = some id →
      (build sources).host.typeSymbol id = some symbol → Unrivaled s id symbol) :
    ∃ w tree d p j q id, (build sources).withEdit edit = .ok w ∧
      (build sources).host.declaredTypeParam diagnostic.location.file diagnostic.location.span = some j ∧
      w.host.syntaxTree diagnostic.location.file = some tree ∧ d ∈ tree.typeDecls ∧ p ∈ d.typeParams ∧
      w.host.declaredTypeParam diagnostic.location.file p.nameSpan = some j ∧ w.host.typeParam j = some q ∧
      (Analysis.configFor w.host diagnostic.location.file).attributeType = some id ∧ id ∈ q.attributes ∧
      ∃ ds, Analysis.analyzeAll w.host false = .ok ds ∧ ∀ x ∈ ds, x.rule = .forwardedParameter →
        x.location.file = diagnostic.location.file →
          w.host.declaredTypeParam diagnostic.location.file x.location.span ≠ some j := by
  obtain ⟨hby, hkey⟩ := of_mem_offer_markerFix haction
  obtain ⟨symbol, doc, d, p, i, text, hsymbol, hdoc, hd, hi, hspan, ⟨-, d', hd', hfollows, hvisible, p', o, t, c, hp',
    -, htext, hmem⟩, hw⟩ := exists_marked_of_compute hclean hkey h hwords
  obtain ⟨id, hid, hsymbol'⟩ := Option.bind_eq_some_iff.1 hsymbol
  have htree := mem_trees_of_document? hdoc
  have hfile := file_of_document? hdoc
  have hfaithful : (build sources).symbols.Faithful _ := faithful_bind (nodup_declaredSites sources)
  obtain ⟨-, owner, ownerSymbol, -, -, -, -, hparams⟩ := hfaithful.declared doc.tree htree d hd
  obtain ⟨j, hj, -⟩ := hparams i p hi
  rw [hfile] at hj
  obtain ⟨s, s', hs, hs', hlevels⟩ := hfollows.levels
  have hsole := hunrivaled doc.tree d p s id symbol (Option.map_eq_some_iff.2 ⟨doc, hdoc, rfl⟩) hd
    (List.mem_of_getElem? hi) hspan hs hid hsymbol'
  have hspace : namespaceOf (build sources).host id = symbol.space := namespaceOf_of_top hsymbol' hsole.top
  rw [hfaithful.typeId id symbol hsymbol', hspace] at hvisible
  have hplain := hwords.mark hkey symbol hsymbol
  have hdoc' : (build ((build sources).withText diagnostic.location.file text)).document? diagnostic.location.file =
      some _ := document?_withText hdoc
  obtain ⟨hj', q, hq, hattribute⟩ := hfollows.mem_attributes hi hp' hj hdoc' hd' hs hsymbol' hsole hvisible
    (by rw [htext, identName_of_plain hplain]) hmem
  have hconfig := configFor_congr hfollows.options hfollows.typeByName diagnostic.location.file
  have hself : (Analysis.configFor (build sources).host diagnostic.location.file).isSelfParam q = true :=
    isSelfParam_of_mem_attributes hby hid hattribute
  rw [← hconfig] at hself
  obtain ⟨ds, hds, -⟩ := Analysis.exists_analyzeAll
    (build ((build sources).withText diagnostic.location.file text)).host
  rw [hspan] at hj
  exact ⟨_, _, d', p', j, q, id, hw, hj, Option.map_eq_some_iff.2 ⟨_, hdoc', rfl⟩, hd', List.mem_of_getElem? hp', hj',
    hq, hconfig ▸ hid, hattribute, ds, hds, fun x hx hrule hxfile => not_reported hq hself hds hx hrule hxfile⟩

/-- The parameter that is marked has the attribute type, and is not reported again. -/
theorem mem_attributes_of_marker_elsewhere :
    (∀ doc ∈ (build forwardingElsewhere).documents, doc.errors = []) ∧
      Analysis.analyzeAll (build forwardingElsewhere).host false = .ok [forwardedElsewhere] ∧
      markElsewhere ∈ markerFix.offer (.new (build forwardingElsewhere).host forwardedElsewhere false) ∧
      markerFix.compute (.new (build forwardingElsewhere).host forwardedElsewhere false) markElsewhere =
        .ok markedElsewhere ∧
      ∃ w tree d p j q id, (build forwardingElsewhere).withEdit markedElsewhere = .ok w ∧
        (build forwardingElsewhere).host.declaredTypeParam 1 ⟨8, 9⟩ = some j ∧
        w.host.syntaxTree 1 = some tree ∧ d ∈ tree.typeDecls ∧ p ∈ d.typeParams ∧
        w.host.declaredTypeParam 1 p.nameSpan = some j ∧ w.host.typeParam j = some q ∧
        (Analysis.configFor w.host 1).attributeType = some id ∧ id ∈ q.attributes ∧
        ∃ ds, Analysis.analyzeAll w.host false = .ok ds ∧ ∀ x ∈ ds, x.rule = .forwardedParameter →
          x.location.file = 1 → w.host.declaredTypeParam 1 x.location.span ≠ some j := by
  have hclean : ∀ doc ∈ (build forwardingElsewhere).documents, doc.errors = [] := by decide +kernel
  have haction : markElsewhere ∈ markerFix.offer
      (.new (build forwardingElsewhere).host forwardedElsewhere false) := by decide +kernel
  have happly : markerFix.compute (.new (build forwardingElsewhere).host forwardedElsewhere false) markElsewhere =
      .ok markedElsewhere := by decide +kernel
  have hattribute : (Analysis.configFor (build forwardingElsewhere).host 1).attributeType = some 18 := by
    decide +kernel
  have hunrivaled : (((build forwardingElsewhere).document? 1).all fun doc => doc.tree.typeDecls.all fun d =>
      ((build forwardingElsewhere).scopeOf? 1 d).all fun s =>
        ((build forwardingElsewhere).host.typeSymbol 18).all fun symbol => decide (Unrivaled s 18 symbol)) = true := by
    decide +kernel
  simp only [Option.all_eq_true, List.all_eq_true, decide_eq_true_eq] at hunrivaled
  refine ⟨hclean, analyzeAll_elsewhere, haction, happly,
    mem_attributes_of_marker hclean haction happly writesPlain_elsewhere ?_⟩
  intro tree d p s id symbol htree hd _ _ hs hid hsymbol
  obtain ⟨doc, hdoc, rfl⟩ := document?_of_syntaxTree htree
  obtain rfl := Option.some.inj (hattribute.symm.trans hid)
  exact hunrivaled doc hdoc d hd s hs symbol hsymbol

end FixAll

namespace Fix

open Workspace EditSet

/-- A parameter that is forwarded to a self parameter, where the attribute of self parameters is nested
in a type. -/
def attributeNested (text : String) : List SourceText :=
  let options := Options.empty.insert "dotnet_tselfgeneric.tself_attribute_name.enable" "true"
  [⟨"A.cs", "namespace S \x7b interface I<TSelf> \x7b\x7d class O \x7b class TSelfAttribute \x7b\x7d \x7d \x7d", options⟩,
    ⟨"B.cs", text, options⟩]

/-- The parameter before and after it is marked. -/
def unmarkedText : String := "using S; class A<T> : I<T> {}"

def markedText : String := "using S; class A<[TSelf] T> : I<T> {}"

/-- The diagnostic of the parameter. -/
def forwardedReported (span : Span) : Diagnostic :=
  (Diagnostic.new .forwardedParameter ⟨1, span⟩ ["\"TSelf\"|\"[TSelfAttribute] T\""]).withLabel
    "passed to a self-type parameter"

/-- The fix is offered and its edit can be applied, but the parameter does not get the attribute and is
reported again. -/
theorem apply_marker_nested :
    (∀ doc ∈ (build (attributeNested unmarkedText)).documents, doc.errors = []) ∧
      ∃ ds d action edit w,
        Analysis.analyzeAll (build (attributeNested unmarkedText)).host false = .ok ds ∧ d ∈ ds ∧
        action ∈ markerFix.offer (.new (build (attributeNested unmarkedText)).host d false) ∧
        markerFix.compute (.new (build (attributeNested unmarkedText)).host d false) action =
          .ok edit ∧
        (build (attributeNested unmarkedText)).withEdit edit = .ok w ∧
        (w.symbols.typeParam? 1).map (·.attributes) = some [] ∧
        Analysis.analyzeAll w.host false = .ok [forwardedReported ⟨25, 26⟩] := by
  have hfound : (build (attributeNested unmarkedText)).host.documentIds.mapM
      (Analysis.analyzeDocument (build (attributeNested unmarkedText)).host · false) =
        .ok [[], [forwardedReported ⟨17, 18⟩]] := by decide +kernel
  have hfound' : (build (attributeNested markedText)).host.documentIds.mapM
      (Analysis.analyzeDocument (build (attributeNested markedText)).host · false) =
        .ok [[], [forwardedReported ⟨25, 26⟩]] := by decide +kernel
  have happly : ∀ doc ∈ (build (attributeNested unmarkedText)).documents,
      EditSet.applyTo ⟨[(1, [⟨⟨17, 17⟩, "[TSelf] "⟩])]⟩ doc.id doc.text =
        .ok (if doc.id = 1 then markedText else doc.text) := by
    intro doc hdoc
    rcases List.mem_cons.1 hdoc with rfl | hdoc
    · exact EditSet.applyTo_of_pairwise (by decide +kernel) (by decide +kernel) (by decide +kernel)
    · obtain rfl := List.mem_singleton.1 hdoc
      exact EditSet.applyTo_of_pairwise (by decide +kernel) (by decide +kernel) (by decide +kernel)
  refine ⟨by decide +kernel, _, forwardedReported ⟨17, 18⟩,
    ⟨"Add [TSelf] attribute", markerKey, forwardedReported ⟨17, 18⟩⟩,
    ⟨[(1, [⟨⟨17, 17⟩, "[TSelf] "⟩])]⟩, build (attributeNested markedText),
    Analysis.analyzeAll_of_pairwise hfound (by decide +kernel), ?_, ?_, ?_, withEdit_eq happly, ?_,
    Analysis.analyzeAll_of_pairwise hfound' (by decide +kernel)⟩
  · decide +kernel
  · decide +kernel
  · decide +kernel
  · decide +kernel

end Fix

end SelfTypeLint
