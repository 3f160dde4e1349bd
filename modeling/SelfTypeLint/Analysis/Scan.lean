import SelfTypeLint.Analysis.Config
import SelfTypeLint.Host
import SelfTypeLint.Tree.Query

/-!
# Scanning base lists

Each base type of a declaration that is generic gives arguments to the parameters of its definition. An
argument given to a self parameter has to be the declaring type or a type parameter that is a self
parameter too. The first argument of a declaration that is neither is its finding.
-/

namespace SelfTypeLint

/-- A self parameter of a base type with the argument given to it. -/
structure SelfSlot where
  index : Nat
  formal : TypeParamId
  argument : TypeRef
  /-- The argument as it is written, or the whole base type if it is not. -/
  argumentSpan : Span
  deriving DecidableEq, Repr

/-- What is wrong with a declaration. -/
inductive Finding
  /-- A concrete argument other than the declaring type, which has the name. -/
  | selfArgument (span : Span) (typeName : String)
  /-- A type parameter that is no self parameter, at the place of its declaration. -/
  | forwardedParameter (span : Span) (param : TypeParamId) (paramName : String)
  deriving DecidableEq, Repr

namespace Scan

variable (model : SemanticModel) (file : FileId) (config : Config) (d : TypeDecl)

/-- The self parameters of a base type with their arguments, in order. Parameters without an argument
and arguments without a parameter do not count. -/
def selfSlots (base : TypeExpr) : List SelfSlot :=
  match model.resolveBaseType file d base with
  | none => []
  | some constructed =>
    let written := base.typeArgs
    let pairs := (constructed.formals.zip constructed.args).zipIdx
    pairs.filterMap fun ((formal, argument), index) =>
      if (model.typeParam formal).any config.isSelfParam then
        some { index, formal, argument
               argumentSpan := ((written[index]?).map (·.span)).getD base.span }
      else none

/-- Where a type parameter is reported: at its declaration in the scanned file, in the scanned
declaration if it has one there. -/
def reportPlace? (p : TypeParamSymbol) : Option Location :=
  let inFile := p.locations.filter (·.file = file)
  match inFile.find? fun l => d.span.contains l.span with
  | some l => some l
  | none => inFile.head?

/-- What is wrong with the argument of a slot, where `own` is the declaring type. -/
def classify? (own : TypeRef) (slot : SelfSlot) : Option Finding :=
  match slot.argument with
  | .param id => do
    let p ← model.typeParam id
    if config.isSelfParam p then none
    else
      let l ← reportPlace? file d p
      some (.forwardedParameter l.span p.id p.name)
  | argument =>
    if argument = own then none else some (.selfArgument slot.argumentSpan d.name)

/-- The finding of the first slot that has one, over several base types. A request to stop is observed
before each. -/
def scanBases (own : TypeRef) (cancelled : Bool) : List TypeExpr → Except Cancelled (Option Finding)
  | [] => .ok none
  | base :: bases => do
    checkCancelled cancelled
    match (selfSlots model file config d base).findSome? (classify? model file config d own) with
    | some finding => return some finding
    | none => scanBases own cancelled bases

/-- The finding of a declaration, without those nested in it. -/
def scanDeclaration (cancelled : Bool) : Except Cancelled (Option Finding) :=
  if d.baseList.isEmpty || !config.isActive then .ok none
  else
    match (model.declaredType file d).bind model.typeSymbol with
    | none => .ok none
    | some symbol => scanBases model file config d symbol.selfType cancelled d.baseList

/-- The findings of a tree's declarations, outer ones first. -/
def scanTree (tree : SyntaxTree) (cancelled : Bool) : Except Cancelled (List Finding) := do
  let found ← tree.typeDecls.mapM fun d => scanDeclaration model tree.file config d cancelled
  return found.filterMap id

/-- Where nothing makes self parameters nothing is found. -/
theorem scanDeclaration_of_not_isActive {model : SemanticModel} {file : FileId} {config : Config}
    (h : config.isActive = false) (d : TypeDecl) (cancelled : Bool) :
    scanDeclaration model file config d cancelled = .ok none := by
  simp [scanDeclaration, h]

end Scan

end SelfTypeLint
