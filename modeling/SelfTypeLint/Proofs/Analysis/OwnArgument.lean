import SelfTypeLint.Proofs.Analysis.Arrival
import SelfTypeLint.Proofs.Analysis.FirstFinding
import SelfTypeLint.Proofs.Symbol.OwnName

/-!
# The declaring type as an argument

A declaration that gives its own type to a self parameter is never told to do so. The type is written with
the declaration's name and those of its parameters; where nothing else has this name, it means the declared
type (`resolve_spelledSelf`), and an analysis finds nothing wrong at its place.
-/

namespace SelfTypeLint

namespace Workspace

variable {sources : List SourceText} {file : FileId} {doc : Document} {d : TypeDecl} {id : TypeId}
  {symbol : TypeSymbol}

/-- An argument that is found to be another type than the declaring one does not mean the declaring type. -/
theorem resolve_ne_of_scanDeclaration {w : Workspace} {config : Config} {span : Span} {name : String}
    (hid : w.symbols.declaredType? file d.nameSpan = some id)
    (hsymbol : w.symbols.typeSymbol? id = some symbol)
    (h : Scan.scanDeclaration w.host.toSemanticModel file config d false =
      .ok (some (.selfArgument span name))) :
    ∃ base ∈ d.baseList, ∃ a ∈ base.typeArgs, a.span = span ∧
      ∃ scope, w.scopeOf? file d = some scope ∧ scope.resolve a ≠ symbol.selfType := by
  obtain ⟨r, hr, hcases⟩ := Scan.exists_scanDeclaration w.host.toSemanticModel file config d
  obtain rfl : r = some _ := Except.ok.inj (hr.symm.trans h)
  obtain ⟨hactive, -⟩ := hcases _ rfl
  have hdeclared : (w.host.declaredType file d).bind w.host.typeSymbol = some symbol := by
    have hbind : (w.symbols.declaredType? file d.nameSpan).bind w.symbols.typeSymbol? = some symbol := by
      rw [hid, Option.bind_some, hsymbol]
    exact hbind
  rw [Scan.scanDeclaration_eq_findSome? hactive hdeclared] at h
  obtain ⟨⟨i, slot⟩, hslot, hclassify⟩ := List.exists_of_findSome?_eq_some (Except.ok.inj h)
  obtain ⟨base, hbase, hslot⟩ := Scan.mem_numberedSlots.1 hslot
  obtain ⟨constructed, hresolve, -, hargument, -, hwritten⟩ := Scan.mem_selfSlots_iff.1 hslot
  have hspan : span = slot.argumentSpan := by
    rcases Scan.classify?_eq_some hclassify with heq | ⟨_, _, _, -, -, -, -, heq⟩
    · exact (Finding.selfArgument.inj heq).1
    · exact absurd heq (by simp)
  have hother : slot.argument ≠ symbol.selfType := by
    rcases Scan.classify?_isSome_iff.1 (Option.isSome_of_eq_some hclassify) with ⟨-, h⟩ | ⟨_, _, h, -⟩
    · exact h
    · rw [h]
      exact TypeRef.noConfusion
  obtain ⟨scope, hscope, hargs⟩ := args_resolveBaseType hresolve
  rw [hargs, List.getElem?_map] at hargument
  obtain ⟨a, ha, hmeaning⟩ := Option.map_eq_some_iff.1 hargument
  rw [Scan.writtenSpan, ha] at hwritten
  exact ⟨base, List.mem_of_getElem? hbase, a, List.mem_of_getElem? ha, (hspan.trans hwritten).symm,
    scope, hscope, hmeaning ▸ hother⟩

/-- A declaration of a workspace is laid out as its text is. -/
theorem solid_of_typeDecl {tree : SyntaxTree} (htree : (build sources).host.syntaxTree file = some tree)
    (hd : d ∈ tree.typeDecls) : (Outline.node d.span d.parts).Solid := by
  obtain ⟨-, -, doc, hdoc, rfl⟩ := syntaxTree_eq_some htree
  obtain ⟨-, hread, -⟩ := ofSource_of_document? hdoc
  rw [hread] at hd
  obtain ⟨-, hsolid⟩ := SyntaxTree.solid_members (SyntaxTree.inRow_read file doc.text)
    fun s hs => SyntaxTree.start_lt_stop_read file doc.text hs
  obtain ⟨m, hm, hdm⟩ := List.mem_flatMap.1 hd
  exact (Member.solid_typeDecls (hsolid m hm) hdm).1

/-- The declared type is no argument that an analysis finds to be another type. -/
theorem rule_ne_of_resolve {tree : SyntaxTree}
    (htree : (build sources).host.syntaxTree file = some tree) (hd : d ∈ tree.typeDecls)
    (hid : (build sources).symbols.declaredType? file d.nameSpan = some id)
    (hsymbol : (build sources).symbols.typeSymbol? id = some symbol) {scope : Scope}
    (hscope : (build sources).scopeOf? file d = some scope) {base : TypeExpr}
    (hbase : base ∈ d.baseList) {e : TypeExpr} (he : e ∈ base.typeArgs)
    (hself : scope.resolve e = symbol.selfType) {report : Diagnostic} {d' : TypeDecl} {f : Finding}
    (hreport : Analysis.Reports (build sources).host report d' f)
    (hlocation : report.location = ⟨file, e.span⟩) : report.rule ≠ .selfArgument := by
  intro hrule
  obtain ⟨tree', htree', hd'⟩ := hreport.declared
  have hfound := hreport.found
  obtain ⟨hfrule, hplace⟩ := Finding.toDiagnostic?_eq_some hreport.reported
  obtain rfl : file = report.location.file := by rw [hlocation]
  obtain rfl := Option.some.inj (htree.symm.trans htree')
  have hfspan : f.span = e.span := by
    rw [hlocation] at hplace
    exact (Location.mk.inj hplace).2.symm
  cases f with
  | forwardedParameter => exact absurd (hrule.symm.trans hfrule) (by simp [Finding.rule])
  | selfArgument span name =>
    obtain rfl : span = e.span := hfspan
    -- the declaration that was found to be wrong has the argument in its base list, so it is `d`
    obtain rfl : d' = d := by
      rcases place_of_scanDeclaration hfound with
        ⟨base', hbase', a, ha, heq⟩ | ⟨_, _, _, _, -, -, -, -, heq⟩
      · have henclosing := enclosingTypeDecl_of_typeArg htree hd' hbase' ha
        rw [← (Finding.selfArgument.inj heq).1, enclosingTypeDecl_of_typeArg htree hd hbase he]
          at henclosing
        exact (Option.some.inj henclosing).symm
      · exact absurd heq (by simp)
    obtain ⟨base', hbase', a, ha, hspan, scope', hscope', hne⟩ :=
      resolve_ne_of_scanDeclaration hid hsymbol hfound
    obtain rfl := TypeDecl.eq_of_typeArg_span (solid_of_typeDecl htree hd) hbase' hbase ha he hspan
    obtain rfl := Option.some.inj (hscope.symm.trans hscope')
    exact hne hself

/-- A declaration's own name, with the names of its parameters, means the declared type wherever nothing in
the type and no parameter around has it, whatever else the workspace declares and imports. As an argument of
a base type it is never reported as another type. -/
theorem spelledSelf_accepted (hdoc : (build sources).document? file = some doc)
    (hd : d ∈ doc.tree.typeDecls)
    (hid : (build sources).symbols.declaredType? file d.nameSpan = some id)
    (hsymbol : (build sources).symbols.typeSymbol? id = some symbol)
    (hown : (build sources).symbols.Unshadowed d symbol) :
    ∃ scope ds, (build sources).scopeOf? file d = some scope ∧
      Analysis.analyzeAll (build sources).host false = .ok ds ∧
      ∀ e, d.SpellsSelf e → scope.resolve e = symbol.selfType ∧
        ∀ base ∈ d.baseList, e ∈ base.typeArgs → ∀ report ∈ ds,
          report.location = ⟨file, e.span⟩ → report.rule ≠ .selfArgument := by
  obtain ⟨ds, hds, hreports⟩ := exists_reports sources
  have htree : (build sources).host.syntaxTree file = some doc.tree :=
    Option.map_eq_some_iff.2 ⟨doc, hdoc, rfl⟩
  have hscope : (build sources).scopeOf? file d =
      some (.ofDecl (build sources).symbols doc.tree d id) := by
    simp [scopeOf?, hdoc, hid]
  refine ⟨_, ds, hscope, hds, fun e he => ?_⟩
  have hself := resolve_spelledSelf hdoc hd hid hsymbol hown he
  refine ⟨hself, fun base hbase hmem report hreport hlocation => ?_⟩
  obtain ⟨d', f, hfrom⟩ := hreports report hreport
  exact rule_ne_of_resolve htree hd hid hsymbol hscope hbase hmem hself hfrom hlocation

/-- A type in a generic type, named like a type around that one and like an imported type. -/
def namedAlike : List SourceText :=
  [⟨"A.cs", "using N; interface I<TSelf> {} class D<T> {} class A<T> { class D<T> : I<D<T>> {} }", .empty⟩,
    ⟨"B.cs", "namespace N { class D<T> {} }", .empty⟩]

/-- The type gives itself to the self parameter: its name is neither the other type nor the imported one. -/
theorem spelledSelf_namedAlike :
    ∃ doc d symbol scope ds, (build namedAlike).document? 0 = some doc ∧ d ∈ doc.tree.typeDecls ∧
      (build namedAlike).symbols.declaredType? 0 d.nameSpan = some 20 ∧
      (build namedAlike).symbols.typeSymbol? 20 = some symbol ∧
      (build namedAlike).symbols.Unshadowed d symbol ∧
      (build namedAlike).scopeOf? 0 d = some scope ∧
      Analysis.analyzeAll (build namedAlike).host false = .ok ds ∧
      ∃ base ∈ d.baseList, ∃ e ∈ base.typeArgs, scope.resolve e = .named 20 [.param 3] ∧
        ∀ report ∈ ds, report.location = ⟨0, e.span⟩ → report.rule ≠ .selfArgument := by
  obtain ⟨doc, hdoc⟩ : ∃ doc, (build namedAlike).document? 0 = some doc :=
    ⟨_, document?_build namedAlike 0⟩
  have hdecl : ((build namedAlike).document? 0).bind (fun doc => doc.tree.typeDecls[3]?.map fun d =>
      ((build namedAlike).symbols.declaredType? 0 d.nameSpan, d.typeParams.map (·.name))) =
        some (some 20, ["T"]) := by decide +kernel
  have hwritten : ((build namedAlike).document? 0).bind (fun doc => doc.tree.typeDecls[3]?.bind fun d =>
      d.baseList[0]?.bind fun base => base.typeArgs[0]?.map fun e => decide (d.SpellsSelf e)) =
        some true := by decide +kernel
  have hsymbol : (build namedAlike).symbols.typeSymbol? 20 =
      some ⟨20, .classType, "D", "", some 19, [3], [⟨0, ⟨64, 65⟩⟩], "A.D"⟩ := by decide +kernel
  have hparam : ((build namedAlike).symbols.typeParam? 3).map (·.name) = some "T" := by decide +kernel
  have hinside : ∀ s ∈ (build namedAlike).symbols.types.toList, s.containingType ≠ some 20 := by
    decide +kernel
  rw [hdoc, Option.bind_some] at hdecl hwritten
  obtain ⟨d, hd, hdecl⟩ := Option.map_eq_some_iff.1 hdecl
  obtain ⟨hid, hnames⟩ := Prod.mk.inj hdecl
  rw [hd, Option.bind_some] at hwritten
  obtain ⟨base, hbase, hwritten⟩ := Option.bind_eq_some_iff.1 hwritten
  obtain ⟨e, he, hspells⟩ := Option.map_eq_some_iff.1 hwritten
  have hown : (build namedAlike).symbols.Unshadowed d
      ⟨20, .classType, "D", "", some 19, [3], [⟨0, ⟨64, 65⟩⟩], "A.D"⟩ :=
    { spelled := by
        have hsome := congrArg (List.map some) hnames
        rw [List.map_map] at hsome
        exact (congrArg (fun name => [name]) hparam).trans hsome.symm
      distinct := by rw [hnames]; decide
      nested := fun i s hs hinner _ => absurd hinner (hinside s (by
        rw [SymbolTable.typeSymbol?, ← Array.getElem?_toList] at hs
        exact List.mem_of_getElem? hs))
      around := fun hplain => absurd hplain (by decide) }
  have hmem := List.mem_of_getElem? hd
  obtain ⟨scope, ds, hscope, hds, hall⟩ := spelledSelf_accepted hdoc hmem hid hsymbol hown
  obtain ⟨hself, haccepted⟩ := hall e (of_decide_eq_true hspells)
  have hbase := List.mem_of_getElem? hbase
  have he := List.mem_of_getElem? he
  exact ⟨doc, d, _, scope, ds, hdoc, hmem, hid, hsymbol, hown, hscope, hds, base, hbase, e, he, hself,
    haccepted base hbase he⟩

end Workspace

end SelfTypeLint
