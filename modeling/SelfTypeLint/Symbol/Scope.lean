import SelfTypeLint.Symbol.Table

/-!
# Name lookup

What a name means inside a type declaration. A simple name is looked for among

1. the type parameters of the declaration and of the types around it,
2. the types nested in the declaration and in the types around it,
3. the types of each enclosing namespace, from the innermost out, each followed by the using
   directives written at that level.

Two types that using directives of one level bring in under one name make the name ambiguous, and it
does not resolve.
-/

namespace SelfTypeLint

/-- A segment of a name as lookup sees it: the word, and how many type arguments it has. -/
structure NamePart where
  name : String
  arity : Nat
  deriving DecidableEq, Repr, Inhabited

/-- The lookup view of a written segment. -/
def NamePart.ofSegment (s : NameSegment TypeExpr) : NamePart := ⟨s.name, s.args.length⟩

/-- A namespace around a declaration, with the using directives written in it. -/
structure Level where
  space : String
  usings : List UsingDirective
  deriving Repr, Inhabited

/-- What is visible from inside a type declaration. -/
structure Scope where
  table : SymbolTable
  /-- The declared type and the types around it, innermost first. -/
  types : List TypeId
  /-- The namespaces around it, innermost first; the last is the global one. -/
  levels : List Level
  deriving Repr

namespace SymbolTable

/-- A type and the types around it, innermost first. A type has a smaller number than those in it. -/
def typeChain (t : SymbolTable) (id : TypeId) : List TypeId :=
  match (t.typeSymbol? id).bind (·.containingType) with
  | some outer => if outer < id then id :: t.typeChain outer else [id]
  | none => [id]
  termination_by id

end SymbolTable

namespace Level

/-- The levels that a chain of namespaces adds inside a namespace, outermost first. The directives of
a dotted declaration belong to the innermost of its levels. -/
def ofChain (space : String) : List NamespaceDecl → List Level
  | [] => []
  | n :: ns =>
    let names := Dotted.prefixesIn space (Dotted.parts n.name)
    let inner := names.getLast?.getD space
    names.dropLast.map (⟨·, []⟩) ++ ⟨inner, n.usings⟩ :: ofChain inner ns

end Level

namespace Scope

/-- The scope inside a declaration of a tree. To the directives at the top of the file those of other
files are added that are global. -/
def ofDecl (table : SymbolTable) (tree : SyntaxTree) (d : TypeDecl) (owner : TypeId) : Scope :=
  let foreign := (table.globalUsings.filter (·.1 ≠ tree.file)).map (·.2)
  { table, types := table.typeChain owner
    levels := (⟨"", tree.usings ++ foreign⟩ ::
      Level.ofChain "" (tree.enclosingNamespaces d.span)).reverse }

/-- The type parameter that a name stands for. -/
def typeParam? (s : Scope) (name : String) : Option TypeParamId :=
  s.types.findSome? fun id => do
    let symbol ← s.table.typeSymbol? id
    symbol.typeParams.find? fun p => (s.table.typeParam? p).any (·.name == name)

/-- The type found by going from a type into the types nested in it. -/
def descend (t : SymbolTable) : TypeId → List NamePart → Option TypeId
  | id, [] => some id
  | id, p :: ps => do descend t (← t.member? (.type id) p.name p.arity) ps

/-- The type with a name in a namespace: first segments name namespaces, the next a type, and the
others types nested in it. The first segment that names a type decides. -/
def lookupInSpace (t : SymbolTable) (space : String) : List NamePart → Option TypeId
  | [] => none
  | p :: ps =>
    match t.member? (.space space) p.name p.arity with
    | some id => descend t id ps
    | none =>
      let inner := Dotted.join space p.name
      if t.isSpace inner then lookupInSpace t inner ps else none

/-- The type that the target of a using directive names. -/
def lookupTarget (t : SymbolTable) (target : String) : Option TypeId :=
  lookupInSpace t "" ((Dotted.parts target).map fun name => ⟨Text.trim name, 0⟩)

/-- The first directive of a level that gives a name to something. -/
def Level.alias? (l : Level) (name : String) : Option UsingDirective :=
  l.usings.find? fun u => u.kind = .ofAlias && u.newName == some name

/-- The type that a directive brings in under a name. -/
def imported? (t : SymbolTable) (name : String) (arity : Nat) (u : UsingDirective) :
    Option TypeId :=
  match u.kind with
  | .ofNamespace => t.member? (.space u.target) name arity
  | .ofMembers => do t.member? (.type (← lookupTarget t u.target)) name arity
  | .ofAlias => none

/-- What a level of the lookup answers. -/
inductive Found
  | type (id : TypeId)
  | nothing
  | ambiguous
  deriving DecidableEq, Repr

/-- What a simple name means at one level: a type of the namespace, an alias, or the only type that
the directives bring in. -/
def lookupAtLevel (t : SymbolTable) (name : String) (arity : Nat) (l : Level) : Found :=
  match t.member? (.space l.space) name arity with
  | some id => .type id
  | none =>
    let aliased := if arity = 0 then
        (Level.alias? l name).bind fun u => lookupTarget t u.target
      else none
    match aliased with
    | some id => .type id
    | none =>
      match (l.usings.filterMap (imported? t name arity)).eraseDups with
      | [] => .nothing
      | [only] => .type only
      | _ => .ambiguous

/-- What a simple name means at the first level that knows it. -/
def lookupLevels (t : SymbolTable) (name : String) (arity : Nat) : List Level → Option TypeId
  | [] => none
  | l :: ls =>
    match lookupAtLevel t name arity l with
    | .type id => some id
    | .ambiguous => none
    | .nothing => lookupLevels t name arity ls

/-- The type that a simple name means. -/
def lookupSimple (s : Scope) (name : String) (arity : Nat) : Option TypeId :=
  match s.types.findSome? fun id => s.table.member? (.type id) name arity with
  | some id => some id
  | none => lookupLevels s.table name arity s.levels

/-- The type that a name means whose first segment is an alias of a namespace or a type. -/
def lookupAliased (s : Scope) (first : NamePart) (rest : List NamePart) : Option TypeId :=
  if first.arity ≠ 0 then none
  else
    match s.levels.findSome? (Level.alias? · first.name) with
    | none => none
    | some u =>
      if s.table.isSpace u.target then lookupInSpace s.table u.target rest
      else do descend s.table (← lookupTarget s.table u.target) rest

/-- The type that a name means. -/
def lookup (s : Scope) (isGlobal : Bool) : List NamePart → Option TypeId
  | [] => none
  | first :: rest =>
    if isGlobal then lookupInSpace s.table "" (first :: rest)
    else
      match lookupSimple s first.name first.arity with
      | some id => descend s.table id rest
      | none =>
        if rest.isEmpty then none
        else
          match lookupAliased s first rest with
          | some id => some id
          | none => s.levels.findSome? fun l => lookupInSpace s.table l.space (first :: rest)

/-- The type parameter that a written name stands for; only a single word without arguments can. -/
def asParam? (s : Scope) (isGlobal : Bool) : List (NameSegment TypeExpr) → Option TypeParamId
  | [only] => if !isGlobal && only.args.isEmpty then s.typeParam? only.name else none
  | _ => none

/-- The meaning of a written type. Arrays, nullable types and tuples are none that the rules know. -/
def resolve (s : Scope) : TypeExpr → TypeRef
  | .predefined keyword _ =>
    match SymbolTable.predefined? keyword with
    | some id => .named id []
    | none => .error
  | .path isGlobal segments _ =>
    match s.asParam? isGlobal segments with
    | some p => .param p
    | none =>
      match s.lookup isGlobal (segments.map .ofSegment) with
      | none => .error
      | some id =>
        match hs : segments.getLast? with
        | none => .named id []
        | some last => .named id (last.args.attach.map fun ⟨e, he⟩ =>
            have : sizeOf e < 1 + sizeOf segments := by
              have h1 := List.sizeOf_lt_of_mem he
              have h2 := List.sizeOf_lt_of_mem (List.mem_of_getLast? hs)
              cases last
              simp at h1 h2
              omega
            resolve s e)
  | .array .. | .nullable .. | .tuple .. => .error
  termination_by e => sizeOf e
  decreasing_by
    simp
    omega

/-- Holds of the names that already end in the word for attributes. -/
def endsInAttribute (name : String) : Bool := "Attribute".toList.isSuffixOf name.toList

/-- The type that an attribute name means: with the word for attributes at its end if it means
something so, else as it stands. -/
def resolveAttribute (s : Scope) : TypeExpr → Option TypeId
  | .path isGlobal segments _ =>
    let parts := segments.map .ofSegment
    match parts.getLast? with
    | none => none
    | some last =>
      let longer := if endsInAttribute last.name then none
        else s.lookup isGlobal (parts.dropLast ++ [{ last with name := last.name ++ "Attribute" }])
      match longer with
      | some id => some id
      | none => s.lookup isGlobal parts
  | _ => none

theorem resolve_predefined (s : Scope) (keyword : String) (span : Span) :
    s.resolve (.predefined keyword span) =
      match SymbolTable.predefined? keyword with
      | some id => .named id []
      | none => .error := by
  rw [resolve]

theorem resolve_path (s : Scope) (isGlobal : Bool) (segments : List (NameSegment TypeExpr))
    (span : Span) :
    s.resolve (.path isGlobal segments span) =
      match s.asParam? isGlobal segments with
      | some p => .param p
      | none =>
        match s.lookup isGlobal (segments.map .ofSegment) with
        | none => .error
        | some id => .named id ((TypeExpr.path isGlobal segments span).typeArgs.map s.resolve) := by
  rw [resolve]
  split
  · rfl
  · split
    · rfl
    · split
      · next h => simp [TypeExpr.typeArgs, TypeExpr.segments, h]
      · next h => simp [TypeExpr.typeArgs, TypeExpr.segments, h]

end Scope

end SelfTypeLint
