import SelfTypeLint.Proofs.Analysis.Findings
import SelfTypeLint.Proofs.Fix.Applies
import SelfTypeLint.Proofs.Symbol.Faithful
import SelfTypeLint.Proofs.Tree.Innermost

/-!
# Every diagnostic can be fixed

A diagnostic says only where something is wrong; a fix finds the declaration or the type parameter there
again. In a tree that is laid out as its text is, with symbols that are faithful to it, this is the one
that the analysis meant, so each diagnostic of an analysis is offered a fix.
-/

namespace SelfTypeLint

open Outline

namespace SymbolTable

/-- A type that is found by name is one of the table's. -/
theorem exists_of_typeByName? {t : SymbolTable} {name : String} {id : TypeId}
    (h : t.typeByName? name = some id) : ∃ s ∈ t.types.toList, s.id = id := by
  have honly : ∀ {p : TypeSymbol → Bool} {s : TypeSymbol},
      t.types.toList.filter p = [s] → s ∈ t.types.toList := fun h =>
    List.filter_sublist.subset (h ▸ List.mem_cons_self)
  unfold typeByName? at h
  dsimp only at h
  split at h
  · exact absurd h (by simp)
  · split at h
    · next only hfilter => exact ⟨only, honly hfilter, Option.some.inj h⟩
    · next a b rest hseveral =>
      obtain ⟨s, hs, hid⟩ := Option.map_eq_some_iff.1 h
      have hmem := List.mem_of_find?_eq_some hs
      rw [← hseveral] at hmem
      exact ⟨s, (List.mem_filter.1 hmem).1, hid⟩
    · split at h
      · exact absurd h (by simp)
      · split at h
        · next only hfilter => exact ⟨only, honly hfilter, Option.some.inj h⟩
        · exact absurd h (by simp)

/-- A type that is found by name has a symbol. -/
theorem Faithful.typeByName? {t : SymbolTable} {trees : List SyntaxTree} (h : t.Faithful trees)
    {name : String} {id : TypeId} (hid : t.typeByName? name = some id) :
    ∃ s, t.typeSymbol? id = some s := by
  obtain ⟨s, hs, rfl⟩ := exists_of_typeByName? hid
  obtain ⟨i, hi⟩ := List.mem_iff_getElem?.1 hs
  have htype : t.typeSymbol? i = some s := by rwa [typeSymbol?, ← Array.getElem?_toList]
  exact ⟨s, h.typeId i s htype ▸ htype⟩

end SymbolTable

namespace Workspace

variable {sources : List SourceText} {file : FileId}

/-- The documents of a workspace with their trees. -/
theorem syntaxTree_eq_some {tree : SyntaxTree}
    (h : (build sources).host.syntaxTree file = some tree) :
    tree.file = file ∧ tree ∈ (build sources).documents.map (·.tree) ∧
      ∃ doc, (build sources).document? file = some doc ∧ doc.tree = tree := by
  obtain ⟨doc, hdoc, rfl⟩ := Option.map_eq_some_iff.1 h
  obtain ⟨-, htree, -⟩ := ofSource_of_document? hdoc
  exact ⟨by rw [htree]; rfl, List.mem_map_of_mem (List.mem_of_getElem? hdoc), doc, hdoc, rfl⟩

/-- A tree of a workspace is that of the document with its number. -/
theorem syntaxTree_of_mem {tree : SyntaxTree}
    (h : tree ∈ (build sources).documents.map (·.tree)) :
    (build sources).host.syntaxTree tree.file = some tree := by
  obtain ⟨doc, hdoc, rfl⟩ := List.mem_map.1 h
  have hat := mem_documents_iff.1 hdoc
  obtain ⟨-, htree, -⟩ := ofSource_of_document? hat
  have hfile : doc.tree.file = doc.id := by rw [htree]; rfl
  rw [hfile]
  exact Option.map_eq_some_iff.2 ⟨doc, hat, rfl⟩

/-- The arguments that a base type gives to its definition are the meanings of those that are written. -/
theorem args_resolveBaseType {w : Workspace} {d : TypeDecl} {base : TypeExpr}
    {c : ConstructedType} (h : w.resolveBaseType file d base = some c) :
    ∃ scope, w.scopeOf? file d = some scope ∧ c.args = base.typeArgs.map scope.resolve := by
  unfold resolveBaseType at h
  split at h
  · next hgeneric =>
    obtain ⟨scope, hscope, h⟩ := Option.bind_eq_some_iff.1 h
    split at h
    · next definition args hresolve =>
      obtain ⟨symbol, -, h⟩ := Option.bind_eq_some_iff.1 h
      obtain rfl := Option.some.inj h
      cases base with
      | path isGlobal segments span =>
        rw [Scope.resolve_path] at hresolve
        split at hresolve
        · exact absurd hresolve (by simp)
        · split at hresolve
          · exact absurd hresolve (by simp)
          · obtain ⟨-, rfl⟩ := TypeRef.named.inj hresolve
            exact ⟨scope, hscope, rfl⟩
      | _ => exact absurd hgeneric (by simp [TypeExpr.isGeneric, TypeExpr.segments])
    · exact absurd h (by simp)
  · exact absurd h (by simp)

/-- The definition of a base type has one argument for each that is written. -/
theorem length_resolveBaseType {w : Workspace} {d : TypeDecl} {base : TypeExpr}
    {c : ConstructedType} (h : w.resolveBaseType file d base = some c) :
    c.args.length = base.typeArgs.length := by
  obtain ⟨scope, -, hargs⟩ := args_resolveBaseType h
  rw [hargs, List.length_map]

/-- A slot stands at an argument that its base type writes. -/
theorem exists_typeArg_of_mem_selfSlots {w : Workspace} {config : Config} {d : TypeDecl}
    {base : TypeExpr} {slot : SelfSlot}
    (h : slot ∈ Scan.selfSlots w.host.toSemanticModel file config d base) :
    ∃ a ∈ base.typeArgs, slot.argumentSpan = a.span := by
  obtain ⟨constructed, hconstructed, -, hargument, -, hspan⟩ := Scan.mem_selfSlots_iff.1 h
  have hlength := length_resolveBaseType hconstructed
  have hlt := (List.getElem?_eq_some_iff.1 hargument).1
  rw [hlength] at hlt
  rw [Scan.writtenSpan, List.getElem?_eq_getElem hlt] at hspan
  exact ⟨_, List.getElem_mem hlt, hspan⟩

/-- What an analysis finds is a written argument of a declaration's base type, or a type parameter at one
of the places of its declaration. -/
theorem place_of_scanDeclaration {w : Workspace} {config : Config} {e : TypeDecl} {f : Finding}
    (h : Scan.scanDeclaration w.host.toSemanticModel file config e false = .ok (some f)) :
    (∃ base ∈ e.baseList, ∃ a ∈ base.typeArgs, f = .selfArgument a.span e.name) ∨
      ∃ id p l formal, w.host.typeParam id = some p ∧ l ∈ p.locations ∧ l.file = file ∧
        config.isSelfParam formal = true ∧ f = .forwardedParameter l.span p.id p.name := by
  obtain ⟨r, hr, hcases⟩ := Scan.exists_scanDeclaration w.host.toSemanticModel file config e
  obtain rfl : r = some f := Except.ok.inj (hr.symm.trans h)
  obtain ⟨-, own, base, hbase, slot, hslot, hclassify⟩ := hcases f rfl
  rcases Scan.classify?_eq_some hclassify with rfl | ⟨id, p, l, -, hp, hl, hfile, rfl⟩
  · obtain ⟨a, ha, hspan⟩ := exists_typeArg_of_mem_selfSlots hslot
    exact .inl ⟨base, hbase, a, ha, by rw [hspan]⟩
  · obtain ⟨-, -, -, -, hself, -⟩ := Scan.mem_selfSlots_iff.1 hslot
    obtain ⟨formal, -, hformal⟩ := (Option.any_eq_true _ _).1 hself
    exact .inr ⟨id, p, l, formal, hp, hl, hfile, hformal, rfl⟩

/-- The shortest declaration around an argument of a base type is the one that has the type in its base
list. -/
theorem enclosingTypeDecl_of_typeArg {tree : SyntaxTree}
    (htree : (build sources).host.syntaxTree file = some tree) {e : TypeDecl}
    (he : e ∈ tree.typeDecls) {b : TypeExpr} (hb : b ∈ e.baseList) {a : TypeExpr}
    (ha : a ∈ b.typeArgs) : tree.enclosingTypeDecl a.span = some e := by
  obtain ⟨-, -, doc, hdoc, rfl⟩ := syntaxTree_eq_some htree
  obtain ⟨-, hread, -⟩ := ofSource_of_document? hdoc
  have hrow := SyntaxTree.inRow_read file doc.text
  have hspans : ∀ s ∈ doc.tree.spans, s.start < s.stop := by
    intro s hs
    rw [hread] at hs
    exact SyntaxTree.start_lt_stop_read file doc.text hs
  rw [← hread] at hrow
  exact SyntaxTree.enclosingTypeDecl_typeArg hrow hspans he hb ha

/-- What is declared at a place of a parameter is the parameter, and what is found there in the tree
is its declaration. -/
theorem declaredTypeParam_of_mem_locations {id : TypeParamId} {p : TypeParamSymbol}
    (hp : (build sources).host.typeParam id = some p) {l : Location} (hl : l ∈ p.locations) :
    p.id = id ∧ (build sources).host.declaredTypeParam l.file l.span = some id ∧
      ∃ tree d q, (build sources).host.syntaxTree l.file = some tree ∧
        tree.findTypeParam l.span = some (d, q) ∧
        (build sources).host.declaredType l.file d = some p.owner ∧
        d.typeParams[p.ordinal]? = some q := by
  have hfaithful : (build sources).symbols.Faithful _ :=
    SymbolTable.faithful_bind (nodup_declaredSites sources)
  obtain ⟨tree, htree, d, hd, q, hq, hdeclared, rfl⟩ :=
    ((hfaithful.paramLocations id p hp).2 l).1 hl
  refine ⟨(hfaithful.param id p hp).1, hdeclared, tree, ?_⟩
  obtain ⟨e, r, hfind⟩ := SyntaxTree.exists_findTypeParam hd hq
  obtain ⟨he, hr, hspan⟩ := SyntaxTree.findTypeParam_eq_some hfind
  refine ⟨e, r, syntaxTree_of_mem htree, hfind, ?_⟩
  obtain ⟨-, i, s, -, htype, hs, -, hparams⟩ := hfaithful.declared tree htree e he
  obtain ⟨k, hk⟩ := List.mem_iff_getElem?.1 hr
  obtain ⟨j, hj, hformal⟩ := hparams k r hk
  rw [hspan, hdeclared] at hj
  obtain rfl := Option.some.inj hj
  obtain ⟨p', hp', rfl, rfl⟩ := hfaithful.formal i s k id hs hformal
  obtain rfl : p' = p := Option.some.inj (hp'.symm.trans hp)
  exact ⟨htype, hk⟩

end Workspace

namespace Fix

/-- Holds of the finding that a diagnostic of a declaration reports, if the fixes find again what is
wrong: the declaration whose base list has the argument, or the type parameter. -/
def Recovers (host : Host) (d : Diagnostic) (e : TypeDecl) : Finding → Prop
  | .selfArgument span _ =>
    (∃ b ∈ e.baseList, ∃ a ∈ b.typeArgs, a.span = span) ∧
      ∀ action, argumentFix.compute (.new host d false) action =
        .ok (.ofEdits d.location.file [⟨span, e.selfTypeText⟩])
  | .forwardedParameter span param _ =>
    host.declaredTypeParam d.location.file span = some param ∧
      (∃ tree p f q, host.syntaxTree d.location.file = some tree ∧
        host.typeParam param = some p ∧ tree.findTypeParam span = some (f, q) ∧
        host.declaredType d.location.file f = some p.owner ∧ f.typeParams[p.ordinal]? = some q) ∧
      ∀ fix ∈ [nameFix, markerFix], ∀ action error,
        fix.compute (.new host d false) action = .error error →
        error ≠ .symbolNotFound ∧ ∀ file, error ≠ .documentNotFound file

/-- Holds of a diagnostic that reports a finding of a declaration, is offered a fix, and whose fixes
find again what is wrong. -/
structure Actionable (host : Host) (d : Diagnostic) : Prop where
  offered : FixRegistry.builtin.actions (.new host d false) ≠ []
  recovered : ∃ tree e finding, host.syntaxTree d.location.file = some tree ∧ e ∈ tree.typeDecls ∧
    Scan.scanDeclaration host.toSemanticModel d.location.file
      (Analysis.configFor host d.location.file) e false = .ok (some finding) ∧
    finding.toDiagnostic? (Analysis.configFor host d.location.file) d.location.file = some d ∧
    d.rule = finding.rule ∧ d.location.span = finding.span ∧ Recovers host d e finding

variable {sources : List SourceText} {d : Diagnostic}

/-- The declaration that has a base type is found again from each argument of the type. -/
theorem targetDeclaration_of_typeArg {tree : SyntaxTree}
    (htree : (Workspace.build sources).host.syntaxTree d.location.file = some tree) {e : TypeDecl}
    (he : e ∈ tree.typeDecls) {b : TypeExpr} (hb : b ∈ e.baseList) {a : TypeExpr}
    (ha : a ∈ b.typeArgs) (hspan : d.location.span = a.span) :
    targetDeclaration (.new (Workspace.build sources).host d false) = .ok e := by
  have henclosing := Workspace.enclosingTypeDecl_of_typeArg htree he hb ha
  rw [← hspan] at henclosing
  have hany : (e.baseList.any fun b =>
      b.span = d.location.span || b.typeArgs.any (·.span = d.location.span)) = true := by
    simp only [List.any_eq_true, Bool.or_eq_true, decide_eq_true_eq]
    exact ⟨b, hb, .inr ⟨a, ha, hspan.symm⟩⟩
  simp only [targetDeclaration, FixContext.new, FixContext.file, FixContext.span, htree,
    henclosing]
  exact if_pos hany

theorem actions_builtin (ctx : FixContext) :
    FixRegistry.builtin.actions ctx = match ctx.diagnostic.rule with
      | .selfArgument => argumentFix.offer ctx
      | .forwardedParameter => nameFix.offer ctx ++ markerFix.offer ctx := by
  rw [FixRegistry.actions]
  cases ctx.diagnostic.rule with
  | selfArgument => exact List.append_nil _
  | forwardedParameter =>
    exact congrArg (nameFix.offer ctx ++ ·) (List.append_nil (markerFix.offer ctx))

/-- A self argument is exchanged for the declaring type, and an action for that is offered. -/
theorem recovers_selfArgument {name : String} {tree : SyntaxTree}
    (htree : (Workspace.build sources).host.syntaxTree d.location.file = some tree) {e : TypeDecl}
    (he : e ∈ tree.typeDecls) {b : TypeExpr} (hb : b ∈ e.baseList) {a : TypeExpr}
    (ha : a ∈ b.typeArgs) (hspan : d.location.span = a.span) (hrule : d.rule = .selfArgument) :
    FixRegistry.builtin.actions (.new (Workspace.build sources).host d false) ≠ [] ∧
      Recovers (Workspace.build sources).host d e (.selfArgument a.span name) := by
  have htarget := targetDeclaration_of_typeArg htree he hb ha hspan
  refine ⟨?_, ⟨b, hb, a, ha, rfl⟩, fun action => ?_⟩
  · have hactions := actions_builtin (.new (Workspace.build sources).host d false)
    simp only [FixContext.new, hrule] at hactions
    rw [FixContext.new, hactions]
    simp only [FixContext.new] at htarget
    simp [argumentFix, htarget]
  · simp only [argumentFix, htarget]
    rw [← hspan]
    rfl

/-- The attribute type of a document is what its attribute name means. -/
theorem attributeType_configFor (host : Host) (file : FileId) :
    (Analysis.configFor host file).attributeType =
      host.typeByName (Analysis.configFor host file).attributeName := rfl

/-- The attribute type of a document has a symbol. -/
theorem typeSymbol_of_attributeType {w : Workspace} {trees : List SyntaxTree}
    (hw : w.symbols.Faithful trees) {file : FileId} {id : TypeId}
    (h : (Analysis.configFor w.host file).attributeType = some id) :
    ∃ s, w.host.typeSymbol id = some s := by
  rw [attributeType_configFor] at h
  simp only [Workspace.host] at h
  exact hw.typeByName? h

/-- A configuration with a self parameter has a fix for what is forwarded to it. -/
theorem offer_forwardedParameter {ctx : FixContext} {p : TypeParamSymbol}
    (hp : ctx.config.isSelfParam p = true)
    (hmarker : ∀ id, ctx.config.attributeType = some id → ∃ s, ctx.host.typeSymbol id = some s) :
    nameFix.offer ctx ++ markerFix.offer ctx ≠ [] := by
  simp only [Config.isSelfParam, Config.matchesName, Config.matchesAttribute, Bool.or_eq_true,
    Bool.and_eq_true] at hp
  rcases hp with ⟨hname, -⟩ | ⟨hattribute, hany⟩
  · simp [nameFix, hname]
  · obtain ⟨id, hid, -⟩ := (Option.any_eq_true _ _).1 hany
    obtain ⟨s, hs⟩ := hmarker id hid
    simp [markerFix, hattribute, markerSymbol?, hid, hs]

/-- Where a type parameter is declared, renaming it can only fail as a renaming. -/
theorem error_nameFix {host : Host} {id : TypeParamId} {action : CodeAction} {error : FixError}
    (hdeclared : host.declaredTypeParam d.location.file d.location.span = some id)
    (h : nameFix.compute (.new host d false) action = .error error) :
    ∃ cause, error = .rename cause := by
  simp only [nameFix] at h
  split at h
  · next hnone => exact absurd (hdeclared.symm.trans hnone) (by simp)
  · split at h
    · exact absurd h (by simp)
    · exact ⟨_, (Except.error.inj h).symm⟩

/-- Where a type parameter is found in a document, marking it can only fail for the attribute. -/
theorem error_markerFix {host : Host} {tree : SyntaxTree} {source : String} {f : TypeDecl}
    {q : TypeParam} {action : CodeAction} {error : FixError}
    (htree : host.syntaxTree d.location.file = some tree)
    (hsource : host.sourceText d.location.file = some source)
    (hfind : tree.findTypeParam d.location.span = some (f, q))
    (h : markerFix.compute (.new host d false) action = .error error) :
    ∃ name, error = .attributeNotResolved name := by
  simp only [markerFix] at h
  split at h
  · exact ⟨_, (Except.error.inj h).symm⟩
  · simp only [FixContext.new, FixContext.file, FixContext.span, htree, hsource, hfind] at h
    exact absurd h (by simp)

/-- A forwarded parameter is found again, and an action for it is offered. -/
theorem recovers_forwardedParameter (e : TypeDecl) (name : String) {id : TypeParamId}
    {p formal : TypeParamSymbol} (hp : (Workspace.build sources).host.typeParam id = some p)
    (hl : d.location ∈ p.locations)
    (hformal : (Analysis.configFor (Workspace.build sources).host d.location.file).isSelfParam
      formal = true) (hrule : d.rule = .forwardedParameter) :
    FixRegistry.builtin.actions (.new (Workspace.build sources).host d false) ≠ [] ∧
      Recovers (Workspace.build sources).host d e
        (.forwardedParameter d.location.span p.id name) := by
  obtain ⟨hid, hdeclared, tree, f, q, htree, hfind, howner, hplace⟩ :=
    Workspace.declaredTypeParam_of_mem_locations hp hl
  rw [hid]
  refine ⟨?_, hdeclared, ⟨tree, p, f, q, htree, hp, hfind, howner, hplace⟩, ?_⟩
  · have hactions := actions_builtin (.new (Workspace.build sources).host d false)
    simp only [FixContext.new, hrule] at hactions
    rw [FixContext.new, hactions]
    exact offer_forwardedParameter hformal fun marker hmarker =>
      typeSymbol_of_attributeType
        (SymbolTable.faithful_bind (Workspace.nodup_declaredSites sources)) hmarker
  · have hdocument := Workspace.syntaxTree_eq_some htree
    obtain ⟨-, -, doc, hdoc, rfl⟩ := hdocument
    have hsource : (Workspace.build sources).host.sourceText d.location.file = some doc.text :=
      Option.map_eq_some_iff.2 ⟨doc, hdoc, rfl⟩
    intro fix hfix action error herror
    simp only [List.mem_cons, List.not_mem_nil, or_false] at hfix
    rcases hfix with rfl | rfl
    · obtain ⟨cause, rfl⟩ := error_nameFix hdeclared herror
      simp
    · obtain ⟨unresolved, rfl⟩ := error_markerFix htree hsource hfind herror
      simp

/-- Every diagnostic of an analysis can be fixed. -/
theorem actionable_analyzeAll (sources : List SourceText) :
    ∃ ds, Analysis.analyzeAll (Workspace.build sources).host false = .ok ds ∧
      ∀ d ∈ ds, Actionable (Workspace.build sources).host d := by
  obtain ⟨ds, hds, hall⟩ := Analysis.exists_analyzeAll (Workspace.build sources).host
  refine ⟨ds, hds, fun d hd => ?_⟩
  obtain ⟨file, -, tree, htree, e, he, finding, hscan, hreport⟩ := hall d hd
  obtain ⟨hrule, hlocation⟩ := Finding.toDiagnostic?_eq_some hreport
  obtain ⟨hfile, -, -⟩ := Workspace.syntaxTree_eq_some htree
  obtain rfl : d.location.file = file := by rw [hlocation]
  have hspan : d.location.span = finding.span := by rw [hlocation]
  rw [hfile] at hscan
  have hboth : FixRegistry.builtin.actions (.new (Workspace.build sources).host d false) ≠ [] ∧
      Recovers (Workspace.build sources).host d e finding := by
    rcases Workspace.place_of_scanDeclaration hscan with
      ⟨base, hbase, a, ha, rfl⟩ | ⟨id, p, l, formal, hp, hl, hlfile, hformal, rfl⟩
    · exact recovers_selfArgument htree he hbase ha hspan hrule
    · have hplace : d.location = l := by
        rw [hlocation, ← hlfile]
        rfl
      have hrecovers := recovers_forwardedParameter e p.name hp (hplace ▸ hl) hformal hrule
      rwa [hspan] at hrecovers
  exact ⟨hboth.1, tree, e, finding, htree, he, hscan, hreport, hrule, hspan, hboth.2⟩

end Fix

namespace FixAll

open SelfTypeLint.Fix

/-- Every diagnostic that an analysis reports can be fixed, so that fixing them all leaves none
without an action. -/
theorem analyzeAll_fixable (sources : List SourceText) :
    ∃ ds, Analysis.analyzeAll (Workspace.build sources).host false = .ok ds ∧
      (∀ d ∈ ds, Actionable (Workspace.build sources).host d) ∧
      ∃ o, fixAll .builtin (Workspace.build sources).host ds none false = .ok o ∧
        o.notOffered = 0 := by
  obtain ⟨ds, hds, hactionable⟩ := actionable_analyzeAll sources
  obtain ⟨o, ho, -⟩ := exists_fixAll_builtin sources ds none
  refine ⟨ds, hds, hactionable, o, ho, ?_⟩
  apply foldlM_ok_induction (P := fun o : FixAllOutcome => o.notOffered = 0) ho rfl
  intro o d hd o' hzero hstep
  refine ((stepped_of_step hstep).notOffered_eq ?_).trans hzero
  have hoffered := (hactionable d hd).offered
  obtain ⟨action, rest, hactions⟩ := List.exists_cons_of_ne_nil hoffered
  rw [chooseAction, hactions]
  simp

end FixAll

end SelfTypeLint
