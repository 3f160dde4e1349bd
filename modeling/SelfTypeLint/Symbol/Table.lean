import SelfTypeLint.Symbol.Basic
import SelfTypeLint.Text.Blank
import SelfTypeLint.Tree.Query

/-!
# Symbol tables

A `SymbolTable` numbers the types and type parameters declared by a list of trees. A type is
identified by its container, its name and its number of parameters, so the parts of a partial type
share a symbol while `Foo` and `Foo<T>` are two. The table begins with the types of `System` that
keywords stand for.

Types are numbered without a bound, and so are parameters. Numbers of 32 bits suffice for trees with fewer
than 2³² declarations; that a type or parameter beyond these is not declared is left out.
-/

namespace SelfTypeLint

/-- Where a type is declared. -/
inductive Container
  | space (name : String)
  | type (id : TypeId)
  deriving DecidableEq, Repr

/-- What identifies a type. -/
structure TypeKey where
  container : Container
  name : String
  arity : Nat
  deriving DecidableEq, Repr

/-- The place of a name token. -/
structure NameSite where
  file : FileId
  span : Span
  deriving DecidableEq, Repr

/-- The symbols of a list of trees. -/
structure SymbolTable where
  types : Array TypeSymbol
  params : Array TypeParamSymbol
  /-- The numbers of the types by what identifies them. -/
  members : List (TypeKey × TypeId)
  /-- Every namespace with the names it is nested in, and the global one. -/
  spaces : List String
  /-- The types declared at name tokens. -/
  decls : List (NameSite × TypeId)
  /-- The parameters declared at name tokens. -/
  paramDecls : List (NameSite × TypeParamId)
  /-- The global using directives of all documents. -/
  globalUsings : List (FileId × UsingDirective)
  deriving Repr

namespace SymbolTable

/-- The keywords for types of `System`, with the names of these types. -/
def predefinedTypes : List (String × String) := [
  ("bool", "Boolean"), ("byte", "Byte"), ("sbyte", "SByte"), ("char", "Char"),
  ("short", "Int16"), ("ushort", "UInt16"), ("int", "Int32"), ("uint", "UInt32"),
  ("long", "Int64"), ("ulong", "UInt64"), ("nint", "IntPtr"), ("nuint", "UIntPtr"),
  ("float", "Single"), ("double", "Double"), ("decimal", "Decimal"), ("string", "String"),
  ("object", "Object")]

/-- The symbol of a type of `System`. -/
def predefinedSymbol (id : TypeId) (name : String) : TypeSymbol :=
  { id, name, space := "System", containingType := none, typeParams := [], locations := []
    kind := if name = "String" ∨ name = "Object" then .classType else .structType
    fullName := "System." ++ name }

/-- The table that holds the types of `System` alone. -/
def initial : SymbolTable :=
  let named := predefinedTypes.zipIdx
  { types := (named.map fun ((_, name), id) => predefinedSymbol id name).toArray
    params := #[]
    members := named.map fun ((_, name), id) => (⟨.space "System", name, 0⟩, id)
    spaces := ["", "System"]
    decls := [], paramDecls := [], globalUsings := [] }

/-- The symbol with a number. -/
def typeSymbol? (t : SymbolTable) (id : TypeId) : Option TypeSymbol := t.types[id]?

/-- The parameter with a number. -/
def typeParam? (t : SymbolTable) (id : TypeParamId) : Option TypeParamSymbol := t.params[id]?

/-- The type in a container with a name and a number of parameters. -/
def member? (t : SymbolTable) (container : Container) (name : String) (arity : Nat) :
    Option TypeId :=
  t.members.lookup ⟨container, name, arity⟩

/-- Holds of the names of namespaces. -/
def isSpace (t : SymbolTable) (name : String) : Bool := t.spaces.contains name

/-- The type declared at a name token. -/
def declaredType? (t : SymbolTable) (file : FileId) (nameSpan : Span) : Option TypeId :=
  t.decls.lookup ⟨file, nameSpan⟩

/-- The parameter declared at a name token. -/
def declaredTypeParam? (t : SymbolTable) (file : FileId) (nameSpan : Span) : Option TypeParamId :=
  t.paramDecls.lookup ⟨file, nameSpan⟩

/-- The type that a keyword stands for. -/
def predefined? (keyword : String) : Option TypeId :=
  predefinedTypes.findIdx? (·.1 == keyword)

/-- The qualified name of a type. -/
def fullName? (t : SymbolTable) (id : TypeId) : Option String := (t.typeSymbol? id).map (·.fullName)

/-! ## Declaring -/

/-- Registers a namespace with all names it is nested in. -/
def declareSpace (t : SymbolTable) (name : String) : SymbolTable :=
  { t with spaces := Dotted.prefixesIn "" (Dotted.parts name) ++ t.spaces }

/-- The symbols of the parameters of a new type, numbered from `first` on. -/
def newParams (owner : TypeId) (first : TypeParamId) (d : TypeDecl) : List TypeParamSymbol :=
  d.typeParams.zipIdx.map fun (p, ordinal) =>
    { id := first + ordinal, owner, ordinal, name := p.name, attributes := [], locations := [] }

/-- Adds the symbol of a type that no part has declared yet. -/
def addType (t : SymbolTable) (container : Container) (space : String) (d : TypeDecl) :
    SymbolTable :=
  let id := t.types.size
  let params := newParams id t.params.size d
  let containing := match container with
    | .type outer => some outer
    | .space _ => none
  let fullName := match containing.bind t.fullName? with
    | some outer => outer ++ "." ++ d.name
    | none => Dotted.join space d.name
  { t with
    types := t.types.push
      { id, kind := d.kind, name := d.name, space, containingType := containing
        typeParams := params.map (·.id), locations := [], fullName }
    params := t.params ++ params.toArray
    members := (⟨container, d.name, d.arity⟩, id) :: t.members }

/-- Records one declaring part of a parameter. -/
def addParamPart (file : FileId) (t : SymbolTable) (part : TypeParam × TypeParamId) : SymbolTable :=
  let (p, id) := part
  { t with
    params := t.params.modify id fun s => { s with locations := s.locations ++ [⟨file, p.nameSpan⟩] }
    paramDecls := (⟨file, p.nameSpan⟩, id) :: t.paramDecls }

/-- Records one declaring part of a type. -/
def addPart (t : SymbolTable) (file : FileId) (id : TypeId) (d : TypeDecl) : SymbolTable :=
  let t :=
    { t with
      types := t.types.modify id fun s => { s with locations := s.locations ++ [⟨file, d.nameSpan⟩] }
      decls := (⟨file, d.nameSpan⟩, id) :: t.decls }
  let formals := ((t.typeSymbol? id).map (·.typeParams)).getD []
  (d.typeParams.zip formals).foldl (addParamPart file) t

/-- Declares one part of a type, without the types nested in it; gives the type's number. -/
def declarePart (t : SymbolTable) (file : FileId) (container : Container) (space : String)
    (d : TypeDecl) : TypeId × SymbolTable :=
  match t.member? container d.name d.arity with
  | some id => (id, t.addPart file id d)
  | none => (t.types.size, (t.addType container space d).addPart file t.types.size d)

/-- Declares a type with the types nested in it. -/
def declareType (file : FileId) (space : String) (container : Container) (t : SymbolTable)
    (d : TypeDecl) : SymbolTable :=
  let (id, t) := t.declarePart file container space d
  d.nested.attach.foldl (fun t ⟨n, h⟩ =>
    have := TypeDecl.sizeOf_lt_of_mem_nested h
    declareType file space (.type id) t n) t
  termination_by sizeOf d

/-- Declares a member of a namespace with all that is in it. -/
def declareMember (file : FileId) (space : String) (t : SymbolTable) : Member → SymbolTable
  | .type d => declareType file space (.space space) t d
  | .space n =>
    let full := Dotted.join space n.name
    n.members.attach.foldl (fun t ⟨m, h⟩ =>
      have : sizeOf m < 1 + sizeOf n :=
        Nat.lt_trans (List.sizeOf_lt_of_mem h) (Nat.lt_add_left 1 n.sizeOf_members_lt)
      declareMember file full t m) (t.declareSpace full)
  termination_by m => sizeOf m
  decreasing_by simpa using this

/-- Declares all that a tree holds. -/
def declareTree (t : SymbolTable) (tree : SyntaxTree) : SymbolTable :=
  let t := tree.members.foldl (declareMember tree.file "") t
  let globals := tree.usings.filter (·.isGlobal)
  { t with globalUsings := t.globalUsings ++ globals.map fun u => (tree.file, u) }

/-- The table of some trees, without the attributes of the parameters. -/
def declareTrees (trees : List SyntaxTree) : SymbolTable := trees.foldl declareTree initial

/-- Records an attribute of a parameter, once. -/
def addAttribute (t : SymbolTable) (param : TypeParamId) (marker : TypeId) : SymbolTable :=
  { t with
    params := t.params.modify param fun s =>
      if s.attributes.contains marker then s
      else { s with attributes := s.attributes ++ [marker] } }

/-! ## Finding types by name -/

/-- A name without any number of `global::` in front. -/
def withoutGlobal (cs : List Char) : List Char :=
  match cs with
  | 'g' :: 'l' :: 'o' :: 'b' :: 'a' :: 'l' :: ':' :: ':' :: rest => withoutGlobal rest
  | _ => cs

/-- The type with a qualified name, or else the only type with that simple name. Of several types
with one qualified name the first that is not generic is taken. -/
def typeByName? (t : SymbolTable) (name : String) : Option TypeId :=
  let name := String.ofList (withoutGlobal (Text.trim name).toList)
  if name.isEmpty then none
  else
    match t.types.toList.filter (·.fullName == name) with
    | [only] => some only.id
    | several@(_ :: _ :: _) => (several.find? (·.typeParams.isEmpty)).map (·.id)
    | [] =>
      if name.toList.contains '.' then none
      else
        match t.types.toList.filter (·.name == name) with
        | [only] => some only.id
        | _ => none

theorem declareType_eq (file : FileId) (space : String) (container : Container) (t : SymbolTable)
    (d : TypeDecl) :
    declareType file space container t d =
      d.nested.foldl (declareType file space (.type (t.declarePart file container space d).1))
        (t.declarePart file container space d).2 := by
  rw [declareType]
  simp

theorem declareMember_type (file : FileId) (space : String) (t : SymbolTable) (d : TypeDecl) :
    declareMember file space t (.type d) = declareType file space (.space space) t d := by
  rw [declareMember]

theorem declareMember_space (file : FileId) (space : String) (t : SymbolTable)
    (n : NamespaceDecl) :
    declareMember file space t (.space n) =
      n.members.foldl (declareMember file (Dotted.join space n.name))
        (t.declareSpace (Dotted.join space n.name)) := by
  rw [declareMember]
  simp

end SymbolTable

end SelfTypeLint
