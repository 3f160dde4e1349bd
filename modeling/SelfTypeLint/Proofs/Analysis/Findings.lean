import Mathlib.Control.Monad.Basic
import SelfTypeLint.Analysis.Report

/-!
# Where findings come from

An analysis that no request stops ends, whatever the host answers. Each diagnostic is the report of a
finding of one declaration, and each finding is what is wrong with the argument of a slot of one of its
base types.
-/

namespace SelfTypeLint

/-- A step that succeeds for each element succeeds for all of them. -/
theorem exists_mapM_ok {α β ε : Type} {f : α → Except ε β} (as : List α)
    (h : ∀ a ∈ as, ∃ b, f a = .ok b) :
    ∃ bs, as.mapM f = .ok bs ∧ ∀ b ∈ bs, ∃ a ∈ as, f a = .ok b := by
  induction as with
  | nil => exact ⟨[], rfl, by simp⟩
  | cons a as ih =>
    obtain ⟨b, hb⟩ := h a List.mem_cons_self
    obtain ⟨bs, hbs, hall⟩ := ih fun a ha => h a (List.mem_cons_of_mem _ ha)
    refine ⟨b :: bs, ?_, ?_⟩
    · rw [List.mapM_cons, hb, hbs]
      rfl
    · intro c hc
      rcases List.mem_cons.1 hc with rfl | hc
      · exact ⟨a, List.mem_cons_self, hb⟩
      · obtain ⟨a', ha', h'⟩ := hall c hc
        exact ⟨a', List.mem_cons_of_mem _ ha', h'⟩

namespace Finding

/-- The rule that a finding breaks. -/
def rule : Finding → Rule
  | selfArgument .. => .selfArgument
  | forwardedParameter .. => .forwardedParameter

/-- Where a finding is reported. -/
def span : Finding → Span
  | selfArgument span _ => span
  | forwardedParameter span .. => span

/-- The report of a finding is of its rule and at its place. -/
theorem toDiagnostic?_eq_some {config : Config} {file : FileId} {f : Finding} {d : Diagnostic}
    (h : f.toDiagnostic? config file = some d) : d.rule = f.rule ∧ d.location = ⟨file, f.span⟩ := by
  have hleveled : ∀ {e : Diagnostic}, (do
      let severity ← (config.level e.rule).severity? e.rule
      return e.withSeverity severity) = some d → d.rule = e.rule ∧ d.location = e.location := by
    intro e h
    obtain ⟨severity, -, h⟩ := Option.bind_eq_some_iff.1 h
    obtain rfl := Option.some.inj h
    exact ⟨rfl, rfl⟩
  cases f with
  | selfArgument span name => exact hleveled h
  | forwardedParameter span param name =>
    obtain ⟨expected, -, h⟩ := Option.bind_eq_some_iff.1 h
    exact hleveled h

end Finding

namespace Scan

variable {model : SemanticModel} {file : FileId} {config : Config} {d : TypeDecl}

/-- Where the `k`-th argument of a base type is written, or the whole base type if it is not. -/
def writtenSpan (base : TypeExpr) (k : Nat) : Span :=
  match base.typeArgs[k]? with
  | some written => written.span
  | none => base.span

private theorem getD_map_span (base : TypeExpr) (k : Nat) :
    (base.typeArgs[k]?.map (·.span)).getD base.span = writtenSpan base k := by
  unfold writtenSpan
  cases base.typeArgs[k]? <;> rfl

/-- The slots of a base type are the self parameters of its definition that are given an argument. -/
theorem mem_selfSlots_iff {base : TypeExpr} {slot : SelfSlot} :
    slot ∈ selfSlots model file config d base ↔
      ∃ constructed, model.resolveBaseType file d base = some constructed ∧
        constructed.formals[slot.index]? = some slot.formal ∧
          constructed.args[slot.index]? = some slot.argument ∧
            (model.typeParam slot.formal).any config.isSelfParam = true ∧
              slot.argumentSpan = writtenSpan base slot.index := by
  unfold selfSlots
  cases hresolve : model.resolveBaseType file d base with
  | none => simp
  | some constructed =>
    constructor
    · intro h
      obtain ⟨⟨⟨formal, argument⟩, index⟩, hmem, hslot⟩ := List.mem_filterMap.1 h
      obtain ⟨hself, hslot⟩ := Option.ite_none_right_eq_some.1 hslot
      obtain rfl := Option.some.inj hslot
      obtain ⟨hformal, hargument⟩ := List.getElem?_zip_eq_some.1 (List.mem_zipIdx_iff_getElem?.1 hmem)
      exact ⟨constructed, rfl, hformal, hargument, hself, getD_map_span base index⟩
    · rintro ⟨_, ⟨⟩, hformal, hargument, hself, hspan⟩
      refine List.mem_filterMap.2 ⟨((slot.formal, slot.argument), slot.index),
        List.mem_zipIdx_iff_getElem?.2 (List.getElem?_zip_eq_some.2 ⟨hformal, hargument⟩), ?_⟩
      refine Option.ite_none_right_eq_some.2 ⟨hself, ?_⟩
      rw [getD_map_span, ← hspan]

/-- What is wrong with a slot is at its argument or at the type parameter given to it. -/
theorem classify?_eq_some {own : TypeRef} {slot : SelfSlot} {f : Finding}
    (h : classify? model file config d own slot = some f) :
    f = .selfArgument slot.argumentSpan d.name ∨ ∃ id p l, slot.argument = .param id ∧
      model.typeParam id = some p ∧ l ∈ p.locations ∧ l.file = file ∧
        f = .forwardedParameter l.span p.id p.name := by
  unfold classify? at h
  split at h
  · next id hargument =>
    obtain ⟨p, hp, h⟩ := Option.bind_eq_some_iff.1 h
    split at h
    · exact absurd h (by simp)
    · obtain ⟨l, hl, h⟩ := Option.bind_eq_some_iff.1 h
      have hmem : l ∈ p.locations.filter (·.file = file) := by
        unfold reportPlace? at hl
        dsimp only at hl
        split at hl
        · next l' hfind => exact Option.some.inj hl ▸ List.mem_of_find?_eq_some hfind
        · exact List.mem_of_head? hl
      obtain ⟨hmem, hfile⟩ := List.mem_filter.1 hmem
      exact .inr ⟨id, p, l, hargument, hp, hmem, by simpa using hfile, (Option.some.inj h).symm⟩
  · split at h
    · exact absurd h (by simp)
    · exact .inl (Option.some.inj h).symm

/-- A search through base types is one through their slots in order. -/
theorem scanBases_eq_findSome? (own : TypeRef) (bases : List TypeExpr) :
    scanBases model file config d own false bases =
      .ok (bases.findSome? fun base =>
        (selfSlots model file config d base).findSome? (classify? model file config d own)) := by
  induction bases with
  | nil => rfl
  | cons base bases ih =>
    rw [scanBases, List.findSome?_cons]
    cases (selfSlots model file config d base).findSome? (classify? model file config d own) with
    | none => exact ih
    | some f => rfl

/-- What is found in base types is wrong with one of their slots. -/
theorem exists_scanBases (model : SemanticModel) (file : FileId) (config : Config) (d : TypeDecl)
    (own : TypeRef) (bases : List TypeExpr) :
    ∃ r, scanBases model file config d own false bases = .ok r ∧ ∀ f, r = some f →
      ∃ base ∈ bases, ∃ slot ∈ selfSlots model file config d base,
        classify? model file config d own slot = some f := by
  refine ⟨_, scanBases_eq_findSome? own bases, fun f hf => ?_⟩
  obtain ⟨base, hbase, hfind⟩ := List.exists_of_findSome?_eq_some hf
  exact ⟨base, hbase, List.exists_of_findSome?_eq_some hfind⟩

/-- What is found in a declaration is wrong with a slot of one of its base types. -/
theorem exists_scanDeclaration (model : SemanticModel) (file : FileId) (config : Config)
    (d : TypeDecl) :
    ∃ r, scanDeclaration model file config d false = .ok r ∧ ∀ f, r = some f →
      config.isActive = true ∧ ∃ own, ∃ base ∈ d.baseList,
        ∃ slot ∈ selfSlots model file config d base,
          classify? model file config d own slot = some f := by
  unfold scanDeclaration
  split
  · exact ⟨none, rfl, by simp⟩
  · next hactive =>
    split
    · exact ⟨none, rfl, by simp⟩
    · next symbol _ =>
      obtain ⟨r, hr, hall⟩ := exists_scanBases model file config d symbol.selfType d.baseList
      simp only [Bool.or_eq_true, Bool.not_eq_true', not_or, Bool.not_eq_false] at hactive
      exact ⟨r, hr, fun f hf => ⟨hactive.2, symbol.selfType, hall f hf⟩⟩

theorem exists_scanTree (model : SemanticModel) (config : Config) (tree : SyntaxTree) :
    ∃ fs, scanTree model config tree false = .ok fs ∧ ∀ f ∈ fs, ∃ d ∈ tree.typeDecls,
      scanDeclaration model tree.file config d false = .ok (some f) := by
  obtain ⟨rs, hrs, hall⟩ := exists_mapM_ok tree.typeDecls fun d _ =>
    (exists_scanDeclaration model tree.file config d).imp fun _ h => h.1
  refine ⟨rs.filterMap id, ?_, fun f hf => ?_⟩
  · rw [scanTree, hrs]
    rfl
  · obtain ⟨r, hr, hf⟩ := List.mem_filterMap.1 hf
    obtain rfl : r = some f := hf
    exact hall _ hr

end Scan

namespace Analysis

theorem exists_analyzeDocument (host : Host) (file : FileId) :
    ∃ ds, analyzeDocument host file false = .ok ds ∧ ∀ d ∈ ds, ∃ tree,
      host.syntaxTree file = some tree ∧ ∃ e ∈ tree.typeDecls, ∃ f,
        Scan.scanDeclaration host.toSemanticModel tree.file (configFor host file) e false =
          .ok (some f) ∧ f.toDiagnostic? (configFor host file) file = some d := by
  unfold analyzeDocument
  split
  · exact ⟨[], rfl, by simp⟩
  · next tree htree =>
    dsimp only
    split
    · obtain ⟨fs, hfs, hall⟩ :=
        Scan.exists_scanTree host.toSemanticModel (configFor host file) tree
      refine ⟨fs.filterMap (Finding.toDiagnostic? (configFor host file) file), ?_, fun d hd => ?_⟩
      · rw [hfs]
        rfl
      · obtain ⟨f, hf, hd⟩ := List.mem_filterMap.1 hd
        obtain ⟨e, he, hscan⟩ := hall f hf
        exact ⟨tree, htree, e, he, f, hscan, hd⟩
    · exact ⟨[], rfl, by simp⟩

/-- An analysis ends, and each of its diagnostics reports a finding of a declaration. -/
theorem exists_analyzeAll (host : Host) :
    ∃ ds, analyzeAll host false = .ok ds ∧ ∀ d ∈ ds, ∃ file ∈ host.documentIds, ∃ tree,
      host.syntaxTree file = some tree ∧ ∃ e ∈ tree.typeDecls, ∃ f,
        Scan.scanDeclaration host.toSemanticModel tree.file (configFor host file) e false =
          .ok (some f) ∧ f.toDiagnostic? (configFor host file) file = some d := by
  obtain ⟨dss, hdss, hall⟩ := exists_mapM_ok host.documentIds fun file _ =>
    (exists_analyzeDocument host file).imp fun _ h => h.1
  refine ⟨dss.flatten.mergeSort placedBefore, ?_, fun d hd => ?_⟩
  · rw [analyzeAll, hdss]
    rfl
  · obtain ⟨ds, hds, hd⟩ := List.mem_flatten.1 (List.mem_mergeSort.1 hd)
    obtain ⟨file, hfile, hok⟩ := hall ds hds
    obtain ⟨ds', hds', hfrom⟩ := exists_analyzeDocument host file
    obtain rfl := Except.ok.inj (hok.symm.trans hds')
    exact ⟨file, hfile, hfrom d hd⟩

/-- Diagnostics that are found in the order of their places are reported as they are found. -/
theorem analyzeAll_of_pairwise {host : Host} {dss : List (List Diagnostic)}
    (h : host.documentIds.mapM (analyzeDocument host · false) = .ok dss)
    (hplaced : dss.flatten.Pairwise (placedBefore · ·)) :
    analyzeAll host false = .ok dss.flatten := by
  rw [analyzeAll, h]
  exact congrArg Except.ok (List.mergeSort_of_pairwise hplaced)

end Analysis

end SelfTypeLint
