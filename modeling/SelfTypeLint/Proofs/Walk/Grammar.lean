import SelfTypeLint.Proofs.Walk.Walker

/-!
# Walking through types and declarations

The grammar of files, read by a walker. A loop over members makes sure by the index that it gets on.
-/

namespace SelfTypeLint.Walk

open Read (Members contextualModifiers)

/-! ## Types -/

/-- The suffixes of a type that begins at an offset. -/
def suffixes (start : Nat) : Nat → TypeExpr → Walk TypeExpr
  | 0, _ => spent
  | n + 1, e => do
    let k ← kind
    if k = .question then
      let _ ← bump
      suffixes start n (.nullable e (← spanFrom start))
    else if k = .lbracket then
      let next := (← get).peek 1
      if next = .rbracket ∨ next = .comma then
        let _ ← bump
        commas n
        let _ ← expect .rbracket .closingBracket
        suffixes start n (.array e (← spanFrom start))
      else return e
    else if k = .op then
      if (← current).text = "*" then
        let _ ← bump
        suffixes start n e
      else return e
    else return e

/-- The word before `::`, if there is one: whether it is `global`, and the segment it makes
otherwise. -/
def qualifier : Walk (Bool × List (NameSegment TypeExpr)) := do
  if (← get).peek 1 = .colonColon then
    let t ← bump
    let _ ← bump
    let name := identName t.text
    return if name = "global" then (true, []) else (false, [⟨name, t.span, [], none⟩])
  else return (false, [])

mutual

/-- A type. -/
def typeExpr : Nat → Walk TypeExpr
  | 0 => spent
  | n + 1 => do
    let start := (← current).span.start
    let e ← atom n
    suffixes start n e

/-- A type without its suffixes. -/
def atom : Nat → Walk TypeExpr
  | 0 => spent
  | n + 1 => do
    let start := (← current).span.start
    let k ← kind
    if k = .predefined then
      let t ← bump
      return .predefined t.text t.span
    else if k = .lparen then
      let _ ← bump
      let es ← elements n
      let _ ← expect .rparen .closingParenthesis
      return .tuple es (← spanFrom start)
    else if k = .ident then
      let (isGlobal, first) ← qualifier
      let rest ← segments n
      return .path isGlobal (first ++ rest) ⟨start, (← get).prevEnd⟩
    else fail .type

/-- The elements of a tuple, each with an optional name. -/
def elements : Nat → Walk (List TypeExpr)
  | 0 => spent
  | n + 1 => do
    let e ← typeExpr n
    let _ ← eat .ident
    if ← eat .comma then return e :: (← elements n) else return [e]

/-- The segments of a name, joined by dots. -/
def segments : Nat → Walk (List (NameSegment TypeExpr))
  | 0 => spent
  | n + 1 => do
    let t ← expect .ident .typeName
    let segment ← argumentsOf n t
    if (← kind) = .dot ∧ (← get).peek 1 = .ident then
      let _ ← bump
      return segment :: (← segments n)
    else return [segment]

/-- The segment of a word with the type arguments after it. -/
def argumentsOf : Nat → Token → Walk (NameSegment TypeExpr)
  | 0, _ => spent
  | n + 1, t => do
    if (← kind) = .lt then
      let opening ← bump
      let args ← arguments n
      commas n
      let close ← expect .gt .commaOrClosingAngle
      return ⟨identName t.text, t.span, args, some (opening.span.merge close.span)⟩
    else return ⟨identName t.text, t.span, [], none⟩

/-- The arguments of a generic name; none if it is written with commas alone. -/
def arguments : Nat → Walk (List TypeExpr)
  | 0 => spent
  | n + 1 => do
    let k ← kind
    if k = .gt ∨ k = .comma then return [] else argumentList n

/-- A list of types, joined by commas. -/
def argumentList : Nat → Walk (List TypeExpr)
  | 0 => spent
  | n + 1 => do
    let e ← typeExpr n
    if ← eat .comma then return e :: (← argumentList n) else return [e]

end

/-- The attributes of a list up to its closing bracket. -/
def attributes : Nat → Walk (List Attribute)
  | 0 => spent
  | n + 1 => do
    if (← kind) = .rbracket then return []
    else
      let name ← typeExpr n
      callArguments n
      let a : Attribute := ⟨name, ← spanFrom name.span.start⟩
      if ← eat .comma then return a :: (← attributes n) else return [a]

/-- The word before a colon at the head of an attribute list. -/
def attributeTarget : Walk (Option String) := do
  if (← kind) = .ident ∧ (← get).peek 1 = .colon then
    let t ← bump
    let _ ← bump
    return some t.text
  else return none

/-- Any number of attribute lists. -/
def attributeLists : Nat → Walk (List AttributeList)
  | 0 => spent
  | n + 1 => do
    if (← kind) = .lbracket then
      let opening ← bump
      let target ← attributeTarget
      let entries ← attributes n
      let close ← expect .rbracket .closingBracket
      let l : AttributeList := ⟨target, entries, opening.span.merge close.span⟩
      return l :: (← attributeLists n)
    else return []

/-! ## Heads of declarations -/

/-- What a using directive says before its target. -/
def usingKind : WalkM (UsingKind × Option String) := do
  if (← kind) = .kwStatic then
    let _ ← bump
    return (.ofMembers, none)
  else if (← kind) = .ident ∧ (← get).peek 1 = .eq then
    let t ← bump
    let _ ← bump
    return (.ofAlias, some (identName t.text))
  else return (.ofNamespace, none)

/-- A using directive from its keyword. -/
def usingRest (n start : Nat) (isGlobal : Bool) : Walk UsingDirective := do
  let _ ← expect .kwUsing .usingWord
  let (kind, newName) ← usingKind
  let target ← typeExpr n
  let text := target.dottedName?.getD (target.span.text (← get).source)
  let _ ← expect .semi .semicolon
  return { kind, isGlobal, newName, target := text, targetSpan := target.span,
           span := ← spanFrom start }

/-- A using directive, which may begin with the word `global`. -/
def usingDirective (n : Nat) : Walk UsingDirective := do
  let start := (← current).span.start
  let isGlobal ← atWord "global"
  if isGlobal then let _ ← bump
  usingRest n start isGlobal

/-- The modifiers of a declaration. -/
def modifiers : Nat → WalkM (List String)
  | 0 => spent
  | n + 1 => do
    let t ← current
    let next := (← get).peek 1
    if t.kind = .modifier ∨ t.kind = .kwStatic ∨ t.kind = .kwNew ∨
        (t.kind = .ident ∧ t.text ∈ contextualModifiers ∧
          (next = .ident ∨ next.isKeyword = true)) then
      let _ ← bump
      return t.text :: (← modifiers n)
    else return []

/-- Holds where the word `record` begins a declaration. -/
def atRecord : WalkM Bool := do
  if ← atWord "record" then
    let next := (← get).peek 1
    return next = .ident || next = .kwClass || next = .kwStruct
  else return false

/-- Holds where a type declaration begins, after attributes and modifiers. -/
def atTypeDecl : WalkM Bool := do
  let k ← kind
  if k = .kwClass ∨ k = .kwStruct ∨ k = .kwInterface then return true else atRecord

/-- The word or words that say which kind of type is declared. -/
def typeKind : Walk TypeKind := do
  let t ← bump
  if t.kind = .kwClass then return .classType
  else if t.kind = .kwStruct then return .structType
  else if t.kind = .kwInterface then return .interfaceType
  else if ← eat .kwStruct then return .recordStructType
  else
    let _ ← eat .kwClass
    return .recordType

/-- The variance of a type parameter. -/
def variance : Walk (Option (Variance × Span)) := do
  let k ← kind
  if k = .kwIn then return some (.contravariant, (← bump).span)
  else if k = .kwOut then return some (.covariant, (← bump).span)
  else return none

/-- Type parameters, joined by commas. -/
def typeParamList : Nat → Walk (List TypeParam)
  | 0 => spent
  | n + 1 => do
    let attributes ← attributeLists n
    let start := (attributes.head?.map (·.span.start)).getD (← current).span.start
    let variance ← variance
    let t ← expect .ident .typeParamName
    let p : TypeParam :=
      { attributes, variance, name := identName t.text, nameSpan := t.span
        span := ⟨start, t.span.stop⟩ }
    if ← eat .comma then return p :: (← typeParamList n) else return [p]

/-- The type parameters of a declaration with the span of their list, if it has one. -/
def typeParams (n : Nat) : Walk (List TypeParam × Option Span) := do
  if (← kind) = .lt then
    let opening ← bump
    let ps ← typeParamList n
    let close ← expect .gt .commaOrClosingAngle
    return (ps, some (opening.span.merge close.span))
  else return ([], none)

/-- Base types, joined by commas, each with optional arguments for its constructor. -/
def baseTypeList : Nat → Walk (List TypeExpr)
  | 0 => spent
  | n + 1 => do
    let e ← typeExpr n
    callArguments n
    if ← eat .comma then return e :: (← baseTypeList n) else return [e]

/-- The base types of a declaration. -/
def baseTypes (n : Nat) : Walk (List TypeExpr) := do
  if ← eat .colon then baseTypeList n else return []

/-- The closing brace of a body with an optional semicolon; its absence is reported. -/
def closeBody : Walk Unit := do
  if (← kind) = .rbrace then
    let _ ← bump
    let _ ← eat .semi
  else
    let e ← unexpected .closingBrace
    modify (·.report e)

/-! ## Declarations -/

/-- Passes the rest of a member after a fault. -/
def recover (n : Nat) (e : ParseError) : WalkM Unit := do
  modify (·.report e)
  member n 0

/-- Passes one token more if a loop over members, begun at an index, did not get on and its end is not
reached. -/
def insist (before : Nat) : WalkM Unit := do
  if (← get).pos = before then
    let k ← kind
    if k ≠ .rbrace ∧ k ≠ .eof then
      let _ ← bump

/-- Runs a walk and gives its outcome, without failing itself. -/
def attempt {α : Type} (f : Walk α) : Walk (Except ParseError α) := ExceptT.lift f.run

/-- Runs a walk with a new list of identifiers and gives those it met; the lists of before are back
afterwards, also if the walk fails. -/
def collecting {α : Type} (f : Walk α) : Walk (α × List Ident) := do
  modify fun w => { w with sinks := [] :: w.sinks }
  let result ← attempt f
  let met := ((← get).sinks.head?.getD []).reverse
  modify fun w => { w with sinks := w.sinks.tail }
  match result with
  | .ok a => return (a, met)
  | .error e => throw e

mutual

/-- A type declaration from the word that says its kind. Identifiers met on the way are its own. -/
def typeDecl (start : Nat) (attributes : List AttributeList) (modifiers : List String) :
    Nat → Walk TypeDecl
  | 0 => spent
  | n + 1 => do
    let (d, idents) ← collecting do
      let kind ← typeKind
      let t ← expect .ident .typeName
      let (params, paramsSpan) ← typeParams n
      callArguments n
      let baseList ← baseTypes n
      constraintClauses n
      let nested ← block n
      let d : TypeDecl :=
        { kind, attributes, modifiers, name := identName t.text, nameSpan := t.span
          typeParams := params, typeParamListSpan := paramsSpan, baseList, nested, idents := []
          span := ← spanFrom start }
      pure d
    return { d with idents }

/-- The body of a declaration, or the semicolon in its place. -/
def block : Nat → Walk (List TypeDecl)
  | 0 => spent
  | n + 1 => do
    let k ← kind
    if k = .lbrace then
      let _ ← bump
      let nested ← body n
      closeBody
      return nested
    else if k = .semi then
      let _ ← bump
      return []
    else fail .bodyOrSemicolon

/-- The nested types of a body up to its closing brace or the end. -/
def body : Nat → WalkM (List TypeDecl)
  | 0 => spent
  | n + 1 => do
    let before := (← get).pos
    let k ← kind
    if k = .rbrace ∨ k = .eof then return []
    else
      let found ← bodyEntry n
      insist before
      return found.toList ++ (← body n)

/-- What stands next in a body, if it is a nested type. -/
def bodyEntry : Nat → WalkM (Option TypeDecl)
  | 0 => spent
  | n + 1 => do
    if (← kind) = .semi then
      let _ ← bump
      return none
    else
      match ← (bodyMember n).run with
      | .ok found => return found
      | .error e =>
        recover n e
        return none

/-- A member of a body; only a nested type is kept. -/
def bodyMember : Nat → Walk (Option TypeDecl)
  | 0 => spent
  | n + 1 => do
    let start := (← current).span.start
    let attributes ← attributeLists n
    let modifiers ← modifiers n
    if ← atTypeDecl then
      return some (← typeDecl start attributes modifiers n)
    else
      let k ← kind
      if k = .kwEnum then enumeration n
      else if k = .kwDelegate then delegate n
      else member n 0
      return none

end

/-- The parts of a dotted name after its first word, joined to what stands before. -/
def dottedTail : Nat → String → Span → Walk (String × Span)
  | 0, _, _ => spent
  | n + 1, name, span => do
    if (← kind) = .dot ∧ (← get).peek 1 = .ident then
      let _ ← bump
      let t ← bump
      dottedTail n (name ++ "." ++ identName t.text) (span.merge t.span)
    else return (name, span)

/-- A using directive as a member of a file or namespace. -/
def usingEntry (n : Nat) : WalkM Members := do
  match ← (usingDirective n).run with
  | .ok u => return ([u], [])
  | .error e =>
    modify (·.report e)
    statement n 0
    return ([], [])

mutual

/-- Members of a file or namespace up to a closing brace or the end. -/
def members : Nat → WalkM Members
  | 0 => spent
  | n + 1 => do
    let before := (← get).pos
    let k ← kind
    if k = .eof ∨ k = .rbrace then return ([], [])
    else
      let (us, ms) ← entry n
      insist before
      let (us', ms') ← members n
      return (us ++ us', ms ++ ms')

/-- What stands next in a file or namespace, if the tree keeps it. -/
def entry : Nat → WalkM Members
  | 0 => spent
  | n + 1 => do
    let k ← kind
    let next := (← get).peek 1
    if k = .semi then
      let _ ← bump
      return ([], [])
    else if k = .kwUsing then usingEntry n
    else if (← atWord "global") = true ∧ next = .kwUsing then usingEntry n
    else if k = .modifier ∧ (← current).text = "extern" ∧ next = .ident then
      statement n 0
      return ([], [])
    else
      match ← (fileMember n).run with
      | .ok found => return ([], found.toList)
      | .error e =>
        recover n e
        return ([], [])

/-- A namespace or type declaration; none for what the tree does not keep. -/
def fileMember : Nat → Walk (Option Member)
  | 0 => spent
  | n + 1 => do
    let start := (← current).span.start
    let attributes ← attributeLists n
    let modifiers ← modifiers n
    let k ← kind
    if k = .kwNamespace then return some (.space (← space start n))
    else if ← atTypeDecl then return some (.type (← typeDecl start attributes modifiers n))
    else if k = .kwEnum then
      enumeration n
      return none
    else if k = .kwDelegate then
      delegate n
      return none
    else if !attributes.isEmpty && modifiers.isEmpty && attributes.all (·.target.isSome) then
      return none
    else fail .declaration

/-- A namespace from its keyword. -/
def space (start : Nat) : Nat → Walk NamespaceDecl
  | 0 => spent
  | n + 1 => do
    let _ ← expect .kwNamespace .namespaceWord
    let first ← expect .ident .namespaceName
    let (name, nameSpan) ← dottedTail n (identName first.text) first.span
    let fileScoped ← eat .semi
    if fileScoped then spaceBody start name nameSpan fileScoped n
    else
      let _ ← expect .lbrace .openingBrace
      spaceBody start name nameSpan fileScoped n

/-- The members of a namespace, after its opening brace or semicolon, and its end. -/
def spaceBody (start : Nat) (name : String) (nameSpan : Span) (fileScoped : Bool) :
    Nat → Walk NamespaceDecl
  | 0 => spent
  | n + 1 => do
    let bodyStart := (← get).prevEnd
    let (usings, members) ← members n
    unless fileScoped do closeBody
    return { name, nameSpan, fileScoped, usings, members, span := ← spanFrom start, bodyStart }
end

/-- The members of a whole file: closing braces that close nothing are reported and passed over. -/
def file : Nat → WalkM Members
  | 0 => spent
  | n + 1 => do
    let (us, ms) ← members n
    if (← kind) = .rbrace then
      let e ← unexpected .declaration
      modify (·.report e)
      let _ ← bump
      let (us', ms') ← file n
      return (us ++ us', ms ++ ms')
    else return (us, ms)

end SelfTypeLint.Walk
