import SelfTypeLint.Settings.Options
import SelfTypeLint.Symbol.Basic
import SelfTypeLint.Text.Edit

/-!
# What the rules ask of a program

The rules and fixes do not depend on how documents are kept and names are bound. A `SemanticModel`
answers questions about symbols, and a `Host` also about documents; any answers will do.
-/

namespace SelfTypeLint

/-- Says that an operation observed a request to stop. -/
structure Cancelled where
  deriving DecidableEq, Repr

/-- The wording of a cancellation. -/
def Cancelled.message (_ : Cancelled) : String := "operation was cancelled"

/-- Stops if a request to stop was made. -/
def checkCancelled (cancelled : Bool) : Except Cancelled Unit :=
  if cancelled then .error {} else .ok ()

/-- Why a type parameter cannot be renamed. -/
inductive RenameError
  | invalidIdentifier (name : String)
  /-- The new name has a meaning already, at a place if it is known. -/
  | conflict (name : String) (existing : Option Location)
  | unknownSymbol (param : TypeParamId)
  | cancelled
  deriving DecidableEq, Repr

/-- The wording of a failed renaming. -/
def RenameError.message : RenameError → String
  | invalidIdentifier name => "`" ++ name ++ "` is not a valid identifier"
  | conflict name _ => "renaming to `" ++ name ++ "` conflicts with an existing declaration"
  | unknownSymbol param => "rename target " ++ TypeParamId.render param ++ " does not exist"
  | cancelled => Cancelled.message {}

/-- Answers about symbols. -/
structure SemanticModel where
  /-- The type that a declaration of a document declares. -/
  declaredType : FileId → TypeDecl → Option TypeId
  typeSymbol : TypeId → Option TypeSymbol
  typeParam : TypeParamId → Option TypeParamSymbol
  /-- The definition and arguments that an entry of a declaration's base list means, if it is
  generic. -/
  resolveBaseType : FileId → TypeDecl → TypeExpr → Option ConstructedType
  /-- The type parameter declared at a name token. -/
  declaredTypeParam : FileId → Span → Option TypeParamId
  /-- The only type with a qualified or simple name. -/
  typeByName : String → Option TypeId

/-- Answers about symbols and documents, and the renaming of type parameters. -/
structure Host extends SemanticModel where
  /-- All documents in a fixed order. -/
  documentIds : List FileId
  syntaxTree : FileId → Option SyntaxTree
  sourceText : FileId → Option String
  options : FileId → Option Options
  /-- The edits that rename a type parameter everywhere. The last argument says whether a request to
  stop was made. -/
  renameTypeParam : TypeParamId → String → Bool → Except RenameError EditSet

end SelfTypeLint
