import SelfTypeLint.Tree.Reader.Types

/-!
# Reading declarations

A file holds using directives, namespaces and type declarations. A member that does not fit the
grammar is reported and skipped; what stands before and after it is kept. Enumerations, delegates and
attribute lists with a target are read and dropped. As with types, a number bounds the depth of the
recursion, and `SyntaxTree.read` chooses it from the number of tokens.

A text is read whatever its length. That one of 2³² bytes or more, whose offsets 32 bits do not hold, is
refused as a whole, with an empty tree, is left out.
-/

namespace SelfTypeLint.Read

/-- What a member adds to the lists around it. -/
abbrev Members := List UsingDirective × List Member

/-- A using directive, which may begin with the word `global`. -/
def usingDirective : Read UsingDirective := do
  let c ← get
  let start := c.current.span.start
  let isGlobal := c.atWord "global"
  if isGlobal then set c.bump
  let _ ← expect .kwUsing .usingWord
  let c ← get
  let (kind, newName) ←
    if c.kind = .kwStatic then do
      set c.bump
      pure (UsingKind.ofMembers, none)
    else if c.kind = .ident ∧ c.peek 1 = .eq then do
      set (c.advance 2)
      pure (UsingKind.ofAlias, some (identName c.current.text))
    else pure (UsingKind.ofNamespace, none)
  let target ← typeExpr
  let text := target.dottedName?.getD (target.span.text c.source)
  let _ ← expect .semi .semicolon
  return { kind, isGlobal, newName, target := text, targetSpan := target.span,
           span := ← spanFrom start }

/-- Words that modify a declaration if another word follows. -/
def contextualModifiers : List String := ["partial", "file", "required", "async"]

/-- The modifiers at the front of a list of tokens. -/
def leadingModifiers : List Token → List String
  | [] => []
  | t :: ts =>
    let next := (ts.head?.map (·.kind)).getD .eof
    if t.kind = .modifier ∨ t.kind = .kwStatic ∨ t.kind = .kwNew ∨
        (t.kind = .ident ∧ t.text ∈ contextualModifiers ∧
          (next = .ident ∨ next.isKeyword = true)) then
      t.text :: leadingModifiers ts
    else []

/-- The modifiers of a declaration. -/
def modifiers : Read (List String) := do
  let c ← get
  let words := leadingModifiers c.ahead
  set (c.advance words.length)
  return words

/-- Holds where the word `record` begins a declaration. -/
def atRecord (c : Cursor) : Bool :=
  c.atWord "record" && (c.peek 1 = .ident || c.peek 1 = .kwClass || c.peek 1 = .kwStruct)

/-- Holds where a type declaration begins, after attributes and modifiers. -/
def atTypeDecl (c : Cursor) : Bool :=
  c.kind = .kwClass || c.kind = .kwStruct || c.kind = .kwInterface || atRecord c

/-- The word or words that say which kind of type is declared. -/
def typeKind : Read TypeKind := do
  match (← next).kind with
  | .kwClass => return .classType
  | .kwStruct => return .structType
  | .kwInterface => return .interfaceType
  | _ =>
    let c ← get
    if c.kind = .kwStruct then
      set c.bump
      return .recordStructType
    else
      if c.kind = .kwClass then set c.bump
      return .recordType

/-- The variance of a type parameter. -/
def variance : Read (Option (Variance × Span)) := do
  let c ← get
  match c.kind with
  | .kwIn =>
    set c.bump
    return some (.contravariant, c.current.span)
  | .kwOut =>
    set c.bump
    return some (.covariant, c.current.span)
  | _ => return none

/-- Type parameters, joined by commas. The number bounds the list. -/
def typeParamList : Nat → Read (List TypeParam)
  | 0 => fail .typeParamName
  | n + 1 => do
    let attributes ← attributeLists
    let c ← get
    let start := (attributes.head?.map (·.span.start)).getD c.current.span.start
    let variance ← variance
    let t ← expect .ident .typeParamName
    let p : TypeParam :=
      { attributes, variance, name := identName t.text, nameSpan := t.span
        span := ⟨start, t.span.stop⟩ }
    if ← eat .comma then return p :: (← typeParamList n) else return [p]

/-- The type parameters of a declaration with the span of their list, if it has one. -/
def typeParams : Read (List TypeParam × Option Span) := do
  let c ← get
  if c.kind = .lt then
    set c.bump
    let ps ← typeParamList c.ahead.length
    let close ← expect .gt .commaOrClosingAngle
    return (ps, some (c.current.span.merge close.span))
  else return ([], none)

/-- Base types, joined by commas, each with optional arguments for its constructor. The number bounds
the list. -/
def baseTypeList : Nat → Read (List TypeExpr)
  | 0 => fail .type
  | n + 1 => do
    let e ← typeExpr
    skipArguments
    if ← eat .comma then return e :: (← baseTypeList n) else return [e]

/-- The base types of a declaration. -/
def baseTypes : Read (List TypeExpr) := do
  if ← eat .colon then baseTypeList ((← get).ahead.length + 1) else return []

/-- The closing brace of a body with an optional semicolon; its absence is reported. -/
def closeBody : Read Unit := do
  let c ← get
  if c.kind = .rbrace then set (c.bump.eat .semi)
  else set (c.report (c.unexpected .closingBrace))

/-- Runs a step with an empty list of identifiers and gives those it met; the list of before is
current again afterwards, also if the step fails. -/
def collecting {α : Type} (step : Read α) : Read (α × List Ident) := do
  let outer := (← get).idents
  modify fun c => { c with idents := [] }
  let result ← attempt step
  let met := (← get).idents.reverse
  modify fun c => { c with idents := outer }
  match result with
  | .ok a => return (a, met)
  | .error e => throw e

mutual

/-- A type declaration from the word that says its kind. -/
def typeDeclWith (start : Nat) (attributes : List AttributeList) (modifiers : List String) :
    Nat → Read TypeDecl
  | 0 => fail .typeName
  | n + 1 => do
    let (d, idents) ← collecting do
      let kind ← typeKind
      let t ← expect .ident .typeName
      let (params, paramsSpan) ← typeParams
      skipArguments
      let baseList ← baseTypes
      skipConstraintClauses (← get).ahead.length
      let c ← get
      let nested ←
        match c.kind with
        | .lbrace => do
          set c.bump
          let nested ← bodyWith n
          closeBody
          pure nested
        | .semi => do
          set c.bump
          pure []
        | _ => fail .bodyOrSemicolon
      let d : TypeDecl :=
        { kind, attributes, modifiers, name := identName t.text, nameSpan := t.span
          typeParams := params, typeParamListSpan := paramsSpan, baseList, nested, idents := []
          span := ← spanFrom start }
      pure d
    return { d with idents }

/-- The nested types of a body up to its closing brace or the end. -/
def bodyWith : Nat → StateM Cursor (List TypeDecl)
  | 0 => pure []
  | n + 1 => do
    let c ← get
    match c.kind with
    | .rbrace | .eof => pure []
    | .semi =>
      set c.bump
      bodyWith n
    | _ =>
      match ← (bodyMemberWith n).run with
      | .ok (some d) => return d :: (← bodyWith n)
      | .ok none => bodyWith n
      | .error e =>
        modify fun c => (c.report e).skipMember
        bodyWith n

/-- A member of a body; only a nested type is kept. -/
def bodyMemberWith : Nat → Read (Option TypeDecl)
  | 0 => fail .declaration
  | n + 1 => do
    let start := (← get).current.span.start
    let attributes ← attributeLists
    let modifiers ← modifiers
    let c ← get
    if atTypeDecl c then
      return some (← typeDeclWith start attributes modifiers n)
    match c.kind with
    | .kwEnum => skipEnum
    | .kwDelegate => set c.skipDelegate
    | _ => set c.skipMember
    return none

end

/-- The parts of a dotted name after its first word, joined to what stands before. The number bounds
the parts. -/
def dottedTail : Nat → String → Span → Read (String × Span)
  | 0, name, span => pure (name, span)
  | n + 1, name, span => do
    let c ← get
    if c.kind = .dot ∧ c.peek 1 = .ident then
      set c.bump
      let t ← next
      dottedTail n (name ++ "." ++ identName t.text) (span.merge t.span)
    else return (name, span)

/-- A depth that no declaration in so many tokens exceeds. -/
def declarationFuel (tokens : Nat) : Nat := 4 * (tokens + 1)

mutual

/-- Members of a file or namespace up to a closing brace or the end. -/
def membersWith : Nat → StateM Cursor Members
  | 0 => pure ([], [])
  | n + 1 => do
    let c ← get
    match c.kind with
    | .eof | .rbrace => pure ([], [])
    | .semi =>
      set c.bump
      membersWith n
    | _ =>
      if c.kind = .kwUsing ∨ (c.atWord "global" = true ∧ c.peek 1 = .kwUsing) then
        match ← usingDirective.run with
        | .ok u =>
          let (us, ms) ← membersWith n
          return (u :: us, ms)
        | .error e =>
          modify fun c => (c.report e).skipStatement
          membersWith n
      else if c.kind = .modifier ∧ c.current.text = "extern" ∧ c.peek 1 = .ident then
        set c.skipStatement
        membersWith n
      else
        match ← (memberWith n).run with
        | .ok (some m) =>
          let (us, ms) ← membersWith n
          return (us, m :: ms)
        | .ok none => membersWith n
        | .error e =>
          modify fun c => (c.report e).skipMember
          membersWith n

/-- A namespace or type declaration; none for what the tree does not keep. -/
def memberWith : Nat → Read (Option Member)
  | 0 => fail .declaration
  | n + 1 => do
    let start := (← get).current.span.start
    let attributes ← attributeLists
    let modifiers ← modifiers
    let c ← get
    if atTypeDecl c then
      return some (.type (← typeDeclWith start attributes modifiers n))
    match c.kind with
    | .kwNamespace => return some (.space (← namespaceWith start n))
    | .kwEnum =>
      skipEnum
      return none
    | .kwDelegate =>
      set c.skipDelegate
      return none
    | _ =>
      if !attributes.isEmpty && modifiers.isEmpty && attributes.all (·.target.isSome) then
        return none
      else fail .declaration

/-- A namespace from its keyword. -/
def namespaceWith (start : Nat) : Nat → Read NamespaceDecl
  | 0 => fail .namespaceWord
  | n + 1 => do
    let _ ← expect .kwNamespace .namespaceWord
    let first ← expect .ident .namespaceName
    let (name, nameSpan) ← dottedTail (← get).ahead.length (identName first.text) first.span
    let fileScoped ← eat .semi
    unless fileScoped do
      let _ ← expect .lbrace .openingBrace
    let bodyStart := (← get).prevEnd
    let (usings, members) ← membersWith n
    unless fileScoped do closeBody
    return { name, nameSpan, fileScoped, usings, members, span := ← spanFrom start, bodyStart }

end

/-- The members of a whole file: closing braces that close nothing are reported and passed over. The
number bounds those. -/
def fileMembers (fuel : Nat) : Nat → StateM Cursor Members
  | 0 => pure ([], [])
  | n + 1 => do
    let (us, ms) ← membersWith fuel
    let c ← get
    if c.kind = .rbrace then
      set (c.report (c.unexpected .declaration)).bump
      let (us', ms') ← fileMembers fuel n
      return (us ++ us', ms ++ ms')
    else return (us, ms)

end SelfTypeLint.Read

namespace SelfTypeLint

/-- What reading a file gives. -/
structure ReadOutput where
  tree : SyntaxTree
  errors : List ParseError
  deriving Repr, Inhabited

/-- The declarations of a file with the faults found in its text. -/
def SyntaxTree.read (file : FileId) (source : String) : ReadOutput :=
  let start := Cursor.ofSource source
  let size := start.ahead.length
  let ((usings, members), c) := (Read.fileMembers (Read.declarationFuel size) (size + 1)).run start
  { tree := { file, usings, members }, errors := c.errors.reverse }

end SelfTypeLint
