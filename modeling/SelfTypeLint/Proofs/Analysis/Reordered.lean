import SelfTypeLint.Analysis.Report
import SelfTypeLint.Proofs.Symbol.Rebound

/-!
# Analysis under new numbers

An analysis looks at types and parameters by number, compares the numbers, and reports names and spans.
So where a host answers for one file as another one does for a file with the same tree, up to renumbering,
the analyses of the two files report the same.
-/

namespace SelfTypeLint

/-- Holds of the symbols of a parameter that say the same to a rule that works in one file. -/
structure TypeParamSymbol.Corresponds (f : TypeId → TypeId) (g : TypeParamId → TypeParamId)
    (σ : FileId → FileId) (file : FileId) (p p' : TypeParamSymbol) : Prop where
  id : p'.id = g p.id
  name : p'.name = p.name
  attributes : ∀ i, f i ∈ p'.attributes ↔ i ∈ p.attributes
  locations : p'.locations.filter (·.file = σ file) =
    (p.locations.filter (·.file = file)).map (.renumber σ)

/-- A constructed type under new numbers. -/
def ConstructedType.renumber (f : TypeId → TypeId) (g : TypeParamId → TypeParamId)
    (c : ConstructedType) : ConstructedType where
  definition := f c.definition
  formals := c.formals.map g
  args := c.args.map (.renumber f g)

/-- Holds of models that answer the same of the declarations of a tree, up to renumbering. -/
structure SemanticModel.Corresponds (f : TypeId → TypeId) (g : TypeParamId → TypeParamId)
    (σ : FileId → FileId) (tree : SyntaxTree) (model model' : SemanticModel) : Prop where
  typeInjective : ∀ i j, f i = f j → i = j
  paramInjective : ∀ i j, g i = g j → i = j
  selfType : ∀ d ∈ tree.typeDecls,
    ((model'.declaredType (σ tree.file) d).bind model'.typeSymbol).map (·.selfType) =
      ((model.declaredType tree.file d).bind model.typeSymbol).map (·.selfType.renumber f g)
  typeParam : ∀ j, Option.Rel (TypeParamSymbol.Corresponds f g σ tree.file) (model.typeParam j)
    (model'.typeParam (g j))
  resolveBaseType : ∀ d ∈ tree.typeDecls, ∀ base, model'.resolveBaseType (σ tree.file) d base =
    (model.resolveBaseType tree.file d base).map (.renumber f g)

/-- A configuration under new numbers. -/
def Config.renumber (f : TypeId → TypeId) (c : Config) : Config :=
  { c with attributeType := c.attributeType.map f }

/-- A slot under new numbers. -/
def SelfSlot.renumber (f : TypeId → TypeId) (g : TypeParamId → TypeParamId) (s : SelfSlot) :
    SelfSlot :=
  { s with formal := g s.formal, argument := s.argument.renumber f g }

/-- A finding under new numbers. -/
def Finding.renumber (g : TypeParamId → TypeParamId) : Finding → Finding
  | selfArgument span typeName => selfArgument span typeName
  | forwardedParameter span param paramName => forwardedParameter span (g param) paramName

/-- A diagnostic under new numbers. -/
def Diagnostic.renumber (σ : FileId → FileId) (d : Diagnostic) : Diagnostic :=
  { d with location := d.location.renumber σ }

section

variable {f : TypeId → TypeId} {g : TypeParamId → TypeParamId} {σ : FileId → FileId}

theorem TypeParamSymbol.Corresponds.isSelfParam {file : FileId} {p p' : TypeParamSymbol}
    (h : p.Corresponds f g σ file p') (c : Config) :
    (c.renumber f).isSelfParam p' = c.isSelfParam p := by
  have hattribute : (c.attributeType.map f).any p'.attributes.contains =
      c.attributeType.any p.attributes.contains := by
    rw [Bool.eq_iff_iff]
    cases c.attributeType <;> simp [h.attributes]
  simp only [Config.isSelfParam, Config.matchesName, Config.matchesAttribute, Config.renumber,
    h.name, hattribute]

theorem TypeParamSymbol.Corresponds.reportPlace? {file : FileId} {p p' : TypeParamSymbol}
    (h : p.Corresponds f g σ file p') (d : TypeDecl) :
    Scan.reportPlace? (σ file) d p' = (Scan.reportPlace? file d p).map (.renumber σ) := by
  rw [Scan.reportPlace?, Scan.reportPlace?, h.locations]
  generalize p.locations.filter (·.file = file) = inFile
  have hfind : (inFile.map (Location.renumber σ)).find? (d.span.contains ·.span) =
      (inFile.find? (d.span.contains ·.span)).map (.renumber σ) := List.find?_map ..
  simp only [hfind, List.head?_map]
  cases inFile.find? (d.span.contains ·.span) <;> rfl

/-- The report of a finding is the same in the other file. -/
theorem Finding.toDiagnostic?_renumber (c : Config) (file : FileId) (x : Finding) :
    (x.renumber g).toDiagnostic? (c.renumber f) (σ file) =
      (x.toDiagnostic? c file).map (.renumber σ) := by
  cases x with
  | selfArgument span name =>
    simp only [renumber, toDiagnostic?, Option.bind_eq_bind, Option.bind_some, Option.map_bind]
    rfl
  | forwardedParameter span param name =>
    rw [renumber, toDiagnostic?, toDiagnostic?]
    have halternatives : (c.renumber f).alternatives name = c.alternatives name := rfl
    cases hexpected : c.alternatives name with
    | none =>
      simp only [halternatives, hexpected]
      rfl
    | some expected =>
      simp only [halternatives, hexpected, Option.bind_eq_bind, Option.bind_some, Option.map_bind]
      rfl

/-- Steps that give corresponding results for the elements of a list do so for the list. -/
theorem mapM_except_map {α β γ ε : Type} {step : α → Except ε β} {step' : α → Except ε γ}
    {k : β → γ} (as : List α) (h : ∀ a ∈ as, step' a = (step a).map k) :
    as.mapM step' = (as.mapM step).map (List.map k) := by
  induction as with
  | nil => rfl
  | cons a as ih =>
    rw [List.mapM_cons, List.mapM_cons, h a List.mem_cons_self,
      ih fun b hb => h b (List.mem_cons_of_mem _ hb)]
    cases step a with
    | error _ => rfl
    | ok b => cases as.mapM step <;> rfl

namespace Scan

variable {tree : SyntaxTree} {model model' : SemanticModel}
  (h : model.Corresponds f g σ tree model') (c : Config) {d : TypeDecl} (hd : d ∈ tree.typeDecls)

include h

theorem any_isSelfParam (j : TypeParamId) :
    (model'.typeParam (g j)).any (c.renumber f).isSelfParam =
      (model.typeParam j).any c.isSelfParam := by
  have hj := h.typeParam j
  revert hj
  cases model.typeParam j <;> cases model'.typeParam (g j) <;> intro hj
  · rfl
  · cases hj
  · cases hj
  · cases hj with
    | some hp => exact hp.isSelfParam c

include hd

theorem selfSlots_renumber (base : TypeExpr) :
    selfSlots model' (σ tree.file) (c.renumber f) d base =
      (selfSlots model tree.file c d base).map (.renumber f g) := by
  rw [selfSlots, selfSlots, h.resolveBaseType d hd]
  cases model.resolveBaseType tree.file d base with
  | none => rfl
  | some constructed =>
    simp only [Option.map_some, ConstructedType.renumber, List.zip_map, List.zipIdx_map,
      List.filterMap_map, List.map_filterMap]
    refine List.filterMap_congr fun x _ => ?_
    simp only [Function.comp_apply, Prod.map, any_isSelfParam h]
    split <;> rfl

omit hd in
/-- A slot is judged the same. -/
theorem classify?_renumber (own : TypeRef) (slot : SelfSlot) :
    classify? model' (σ tree.file) (c.renumber f) d (own.renumber f g) (slot.renumber f g) =
      (classify? model tree.file c d own slot).map (.renumber g) := by
  have hsame : ∀ a : TypeRef, a.renumber f g = own.renumber f g ↔ a = own := fun a =>
    ⟨TypeRef.renumber_injective h.typeInjective h.paramInjective a own, fun heq => heq ▸ rfl⟩
  obtain ⟨index, formal, argument, span⟩ := slot
  cases argument with
  | param id =>
    simp only [classify?, SelfSlot.renumber, TypeRef.renumber]
    have hj := h.typeParam id
    revert hj
    cases model.typeParam id <;> cases model'.typeParam (g id) <;> intro hj
    · rfl
    · cases hj
    · cases hj
    · cases hj with
      | some hp =>
        simp only [Option.bind_eq_bind, Option.bind_some, hp.isSelfParam, hp.reportPlace?, hp.id,
          hp.name]
        split
        · rfl
        · rw [Option.bind_map, Option.map_bind]
          rfl
  | named definition args =>
    have heq := hsame (.named definition args)
    simp only [TypeRef.renumber] at heq
    simp only [classify?, SelfSlot.renumber, TypeRef.renumber, heq]
    split <;> rfl
  | error =>
    have heq := hsame .error
    simp only [TypeRef.renumber] at heq
    simp only [classify?, SelfSlot.renumber, TypeRef.renumber, heq]
    split <;> rfl

theorem scanBases_renumber (own : TypeRef) (cancelled : Bool) (bases : List TypeExpr) :
    scanBases model' (σ tree.file) (c.renumber f) d (own.renumber f g) cancelled bases =
      (scanBases model tree.file c d own cancelled bases).map (Option.map (.renumber g)) := by
  induction bases with
  | nil => rfl
  | cons base bases ih =>
    rw [scanBases, scanBases, selfSlots_renumber h c hd, List.findSome?_map, ih]
    have hslots : (selfSlots model tree.file c d base).findSome?
          (classify? model' (σ tree.file) (c.renumber f) d (own.renumber f g) ∘ .renumber f g) =
        ((selfSlots model tree.file c d base).findSome?
          (classify? model tree.file c d own)).map (.renumber g) := by
      rw [List.map_findSome?]
      exact congrArg (List.findSome? · _) (funext (classify?_renumber h c own))
    rw [hslots]
    cases checkCancelled cancelled with
    | error _ => rfl
    | ok _ =>
      cases (selfSlots model tree.file c d base).findSome? (classify? model tree.file c d own) <;> rfl

theorem scanDeclaration_renumber (cancelled : Bool) :
    scanDeclaration model' (σ tree.file) (c.renumber f) d cancelled =
      (scanDeclaration model tree.file c d cancelled).map (Option.map (.renumber g)) := by
  have hself := h.selfType d hd
  rw [scanDeclaration, scanDeclaration]
  split
  · next hidle => rw [if_pos (by exact hidle)]; rfl
  · next hbusy =>
    rw [if_neg (by exact hbusy)]
    revert hself
    cases (model.declaredType tree.file d).bind model.typeSymbol <;>
      cases (model'.declaredType (σ tree.file) d).bind model'.typeSymbol <;> intro hself
    · rfl
    · exact absurd hself (by simp)
    · exact absurd hself (by simp)
    · next symbol symbol' =>
      simp only [Option.map_some, Option.some.injEq] at hself
      dsimp only
      rw [hself, scanBases_renumber h c hd]

omit hd in
/-- The declarations of the tree have the same findings. -/
theorem scanTree_renumber (cancelled : Bool) :
    scanTree model' (c.renumber f) (tree.refile (σ tree.file)) cancelled =
      (scanTree model c tree cancelled).map (List.map (.renumber g)) := by
  have hfound := mapM_except_map tree.typeDecls fun d hd => scanDeclaration_renumber h c hd cancelled
  rw [scanTree, scanTree]
  simp only [SyntaxTree.refile, SyntaxTree.typeDecls] at hfound ⊢
  rw [hfound]
  cases List.mapM (fun d => scanDeclaration model tree.file c d cancelled) _ with
  | error _ => rfl
  | ok found =>
    refine congrArg Except.ok ?_
    rw [List.filterMap_map, List.map_filterMap]
    rfl

end Scan

/-- Holds of hosts that answer the same for a document, up to renumbering. -/
structure Host.Corresponds (f : TypeId → TypeId) (g : TypeParamId → TypeParamId)
    (σ : FileId → FileId) (file : FileId) (host host' : Host) : Prop where
  options : host'.options (σ file) = host.options file
  typeByName : ∀ name, host'.typeByName name = (host.typeByName name).map f
  syntaxTree : host'.syntaxTree (σ file) = (host.syntaxTree file).map (·.refile (σ file))
  model : ∀ tree, host.syntaxTree file = some tree → tree.file = file ∧
    SemanticModel.Corresponds f g σ tree host.toSemanticModel host'.toSemanticModel

theorem Host.Corresponds.configFor {file : FileId} {host host' : Host}
    (h : host.Corresponds f g σ file host') :
    Analysis.configFor host' (σ file) = (Analysis.configFor host file).renumber f := by
  rw [Analysis.configFor, Analysis.configFor, h.options]
  simp only [Config.resolve, Config.renumber, h.typeByName]

/-- A document has the same diagnostics. -/
theorem Host.Corresponds.analyzeDocument {file : FileId} {host host' : Host}
    (h : host.Corresponds f g σ file host') (cancelled : Bool) :
    Analysis.analyzeDocument host' (σ file) cancelled =
      (Analysis.analyzeDocument host file cancelled).map (List.map (.renumber σ)) := by
  rw [Analysis.analyzeDocument, Analysis.analyzeDocument, h.syntaxTree]
  cases htree : host.syntaxTree file with
  | none => rfl
  | some tree =>
    obtain ⟨rfl, hmodel⟩ := h.model tree htree
    simp only [Option.map_some, h.configFor]
    have hactive : ((Analysis.configFor host tree.file).renumber f).isActive =
        (Analysis.configFor host tree.file).isActive := rfl
    rw [hactive, Scan.scanTree_renumber hmodel]
    split
    · cases Scan.scanTree host.toSemanticModel (Analysis.configFor host tree.file) tree cancelled with
      | error _ => rfl
      | ok findings =>
        refine congrArg Except.ok ?_
        rw [List.filterMap_map, List.map_filterMap]
        exact List.filterMap_congr fun x _ => x.toDiagnostic?_renumber _ tree.file
    · rfl

end

end SelfTypeLint
