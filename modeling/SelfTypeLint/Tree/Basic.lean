import SelfTypeLint.Text.Span

/-!
# Declaration trees

The parts of a source file that the rules look at: namespaces, using directives, and type
declarations with their type parameters, attribute lists and base lists. Of a member body only the
identifiers and the nested type declarations are kept.
-/

namespace SelfTypeLint

/-- An identifier with its place; the name lacks the sign of a verbatim identifier. -/
structure Ident where
  name : String
  span : Span
  deriving DecidableEq, Repr, Inhabited

/-- One segment of a name, such as `List<int>`, over the type of its arguments. -/
structure NameSegment (α : Type) where
  name : String
  span : Span
  args : List α
  /-- From `<` to `>`, if an argument list is written. -/
  argListSpan : Option Span
  deriving Repr

/-- A type as it is written. -/
inductive TypeExpr
  /-- A simple, generic or qualified name; `isGlobal` if `global::` stands in front. -/
  | path (isGlobal : Bool) (segments : List (NameSegment TypeExpr)) (span : Span)
  /-- A keyword type such as `int`. -/
  | predefined (keyword : String) (span : Span)
  | array (element : TypeExpr) (span : Span)
  | nullable (inner : TypeExpr) (span : Span)
  | tuple (elements : List TypeExpr) (span : Span)
  deriving Repr

namespace TypeExpr

instance : Inhabited TypeExpr := ⟨predefined "" ⟨0, 0⟩⟩

/-- The whole type. -/
def span : TypeExpr → Span
  | path _ _ span | predefined _ span | array _ span | nullable _ span | tuple _ span => span

/-- The segments of a name; empty for every other form. -/
def segments : TypeExpr → List (NameSegment TypeExpr)
  | path _ segments _ => segments
  | _ => []

/-- Type arguments written on the last segment of a name. -/
def typeArgs (e : TypeExpr) : List TypeExpr :=
  match e.segments.getLast? with
  | some segment => segment.args
  | none => []

/-- Holds if the last segment of a name carries an argument list. -/
def isGeneric (e : TypeExpr) : Bool :=
  e.segments.getLast?.any (·.argListSpan.isSome)

/-- A name without its type arguments, such as `System.Collections.List`; none for other forms. -/
def dottedName? : TypeExpr → Option String
  | path _ segments _ => some (".".intercalate (segments.map (·.name)))
  | _ => none

end TypeExpr

/-- An attribute as it is written, with its arguments in the span. -/
structure Attribute where
  name : TypeExpr
  span : Span
  deriving Repr, Inhabited

/-- A bracketed list of attributes. -/
structure AttributeList where
  /-- The word before a colon, such as `assembly`. -/
  target : Option String
  attributes : List Attribute
  span : Span
  deriving Repr, Inhabited

/-- The variance of a type parameter. -/
inductive Variance
  | contravariant
  | covariant
  deriving DecidableEq, Repr

/-- A declared type parameter. -/
structure TypeParam where
  attributes : List AttributeList
  variance : Option (Variance × Span)
  name : String
  nameSpan : Span
  span : Span
  deriving Repr, Inhabited

/-- Where a new attribute list belongs: after those there are, before the variance. -/
def TypeParam.attributeOffset (p : TypeParam) : Nat :=
  match p.variance with
  | some (_, span) => span.start
  | none => p.nameSpan.start

/-- The kinds of type declaration. -/
inductive TypeKind
  | classType
  | structType
  | interfaceType
  | recordType
  | recordStructType
  deriving DecidableEq, Repr, Inhabited

/-- The words that introduce a declaration. -/
def TypeKind.keyword : TypeKind → String
  | classType => "class"
  | structType => "struct"
  | interfaceType => "interface"
  | recordType => "record"
  | recordStructType => "record struct"

/-- A class, struct, interface or record declaration. -/
structure TypeDecl where
  kind : TypeKind
  attributes : List AttributeList
  modifiers : List String
  name : String
  nameSpan : Span
  typeParams : List TypeParam
  /-- From `<` to `>`, if the declaration is generic. -/
  typeParamListSpan : Option Span
  baseList : List TypeExpr
  nested : List TypeDecl
  /-- The identifiers of header, constraints and body that no nested declaration owns. -/
  idents : List Ident
  span : Span
  deriving Repr, Inhabited

namespace TypeDecl

/-- Number of type parameters. -/
def arity (d : TypeDecl) : Nat := d.typeParams.length

/-- Holds if the declaration is one part of several. -/
def isPartial (d : TypeDecl) : Bool := d.modifiers.contains "partial"

/-- The declared type as it is written inside its own body, such as `Node<TKey, TValue>`. -/
def selfTypeText (d : TypeDecl) : String :=
  if d.typeParams.isEmpty then d.name
  else d.name ++ "<" ++ ", ".intercalate (d.typeParams.map (·.name)) ++ ">"

end TypeDecl

/-- What a using directive brings in: the types of a namespace, the members of a type, or one name
for another. -/
inductive UsingKind
  | ofNamespace
  | ofMembers
  | ofAlias
  deriving DecidableEq, Repr, Inhabited

/-- A using directive. -/
structure UsingDirective where
  kind : UsingKind
  isGlobal : Bool
  /-- The new name that an alias directive gives. -/
  newName : Option String
  /-- The dotted target, without `global::`. -/
  target : String
  targetSpan : Span
  span : Span
  deriving DecidableEq, Repr, Inhabited

/-- A namespace declaration over the type of its members. -/
structure NamespaceOf (M : Type) where
  /-- Dotted name. -/
  name : String
  nameSpan : Span
  /-- Holds of the form `namespace A.B;`, which reaches to the end of the file. -/
  fileScoped : Bool
  usings : List UsingDirective
  members : List M
  span : Span
  /-- Just after the opening brace or the semicolon. -/
  bodyStart : Nat
  deriving Repr

/-- A member of a file or of a namespace. -/
inductive Member
  | space (decl : NamespaceOf Member)
  | type (decl : TypeDecl)
  deriving Repr

/-- A namespace declaration. -/
abbrev NamespaceDecl := NamespaceOf Member

/-- The tree of a source file. -/
structure SyntaxTree where
  file : FileId
  usings : List UsingDirective
  members : List Member
  deriving Repr, Inhabited

end SelfTypeLint
