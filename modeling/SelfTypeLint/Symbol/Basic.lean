import SelfTypeLint.Text.Dotted
import SelfTypeLint.Tree.Basic

/-!
# Symbols

Each declared type and each of its type parameters has a symbol, known by a number. A `TypeRef` is a
type after its names are resolved: a definition applied to arguments, an open type parameter, or an
error for what does not resolve.
-/

namespace SelfTypeLint

/-- Number of a type symbol. -/
abbrev TypeId := Nat

/-- Number of a type parameter symbol. -/
abbrev TypeParamId := Nat

/-- A type symbol's number, if the index fits in 32 bits. `SymbolTable.declarePart` numbers types and their
parameters without this test: the branch for those that 32 bits cannot number is left out there. -/
def TypeId.ofIndex (index : Nat) : Option TypeId := if index < Span.limit then some index else none

/-- The number of a type symbol in writing. -/
def TypeId.render (id : TypeId) : String := "type#" ++ toString id

/-- The number of a type parameter in writing. -/
def TypeParamId.render (id : TypeParamId) : String := "tparam#" ++ toString id

/-- A resolved type. -/
inductive TypeRef
  /-- A definition with its arguments. -/
  | named (definition : TypeId) (args : List TypeRef)
  /-- An open type parameter. -/
  | param (id : TypeParamId)
  /-- A type that does not resolve. -/
  | error
  deriving Repr, Inhabited

namespace TypeRef

mutual

/-- Decides equality of types. -/
def same : TypeRef → TypeRef → Bool
  | named d as, named e bs => decide (d = e) && sameAll as bs
  | param a, param b => decide (a = b)
  | error, error => true
  | _, _ => false

/-- Decides equality of lists of types. -/
def sameAll : List TypeRef → List TypeRef → Bool
  | [], [] => true
  | a :: as, b :: bs => same a b && sameAll as bs
  | _, _ => false

end

mutual

theorem same_iff : ∀ a b : TypeRef, same a b = true ↔ a = b
  | named d as, b => by
    cases b with
    | named e bs => simp [same, sameAll_iff as bs]
    | param b => simp [same]
    | error => simp [same]
  | param a, b => by cases b <;> simp [same]
  | error, b => by cases b <;> simp [same]

theorem sameAll_iff : ∀ as bs : List TypeRef, sameAll as bs = true ↔ as = bs
  | [], bs => by cases bs <;> simp [sameAll]
  | a :: as, bs => by
    cases bs with
    | nil => simp [sameAll]
    | cons b bs => simp [sameAll, same_iff a b, sameAll_iff as bs]

end

instance : DecidableEq TypeRef := fun a b => decidable_of_iff _ (same_iff a b)

end TypeRef

/-- A type definition. Its parts, if there are several, share one symbol. -/
structure TypeSymbol where
  id : TypeId
  kind : TypeKind
  name : String
  /-- Dotted name of the namespace, empty for the global one. -/
  space : String
  containingType : Option TypeId
  typeParams : List TypeParamId
  /-- The name tokens of the declaring parts. -/
  locations : List Location
  /-- The name after those of its namespace and containing types. -/
  fullName : String
  deriving DecidableEq, Repr, Inhabited

namespace TypeSymbol

/-- The type as seen from inside its declaration: the definition applied to its own parameters. -/
def selfType (t : TypeSymbol) : TypeRef := .named t.id (t.typeParams.map .param)

/-- The qualified name, given that of the containing type if there is one. -/
def qualifiedName (t : TypeSymbol) (containing : Option String) : String :=
  match containing with
  | some outer => outer ++ "." ++ t.name
  | none => Dotted.join t.space t.name

end TypeSymbol

/-- A declared type parameter. -/
structure TypeParamSymbol where
  id : TypeParamId
  owner : TypeId
  /-- Its place among the parameters of its owner. -/
  ordinal : Nat
  name : String
  /-- The types of the attributes on its declarations. -/
  attributes : List TypeId
  /-- Its name tokens in the declaring parts. -/
  locations : List Location
  deriving DecidableEq, Repr, Inhabited

/-- A generic base type with the parameters of its definition and the arguments given to them. -/
structure ConstructedType where
  definition : TypeId
  formals : List TypeParamId
  args : List TypeRef
  deriving DecidableEq, Repr, Inhabited

end SelfTypeLint
