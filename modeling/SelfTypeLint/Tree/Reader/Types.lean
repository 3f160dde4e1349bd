import SelfTypeLint.Tree.Reader.Skip

/-!
# Reading types and attribute lists

A type is a keyword, a parenthesised list of types or a qualified name, followed by any number of the
suffixes `?`, `[,]` and `*`. The readers below take a number that bounds the depth of their recursion
and the length of their lists; `typeExpr` and `attributeLists` choose it from the tokens ahead.
-/

namespace SelfTypeLint.Read

/-- Consumes commas. -/
def commas : Read Unit := modify (·.skipWhile (·.kind = .comma))

/-- The suffixes of a type that begins at an offset. A pointer star leaves no trace. -/
def suffixes (start : Nat) : Nat → TypeExpr → Read TypeExpr
  | 0, e => pure e
  | n + 1, e => do
    let c ← get
    match c.kind with
    | .question =>
      set c.bump
      suffixes start n (.nullable e (← spanFrom start))
    | .lbracket =>
      if c.peek 1 = .rbracket ∨ c.peek 1 = .comma then
        set c.bump
        commas
        let _ ← expect .rbracket .closingBracket
        suffixes start n (.array e (← spanFrom start))
      else pure e
    | .op =>
      if c.current.text = "*" then
        set c.bump
        suffixes start n e
      else pure e
    | _ => pure e

/-- The word before `::`, if there is one: whether it is `global`, and the segment it makes
otherwise. -/
def qualifier : Read (Bool × List (NameSegment TypeExpr)) := do
  let c ← get
  if c.peek 1 = .colonColon then
    let t ← next
    modify Cursor.bump
    let name := identName t.text
    return if name = "global" then (true, []) else (false, [⟨name, t.span, [], none⟩])
  else return (false, [])

mutual

/-- A type. -/
def typeExprWith : Nat → Read TypeExpr
  | 0 => fail .type
  | n + 1 => do
    let c ← get
    let start := c.current.span.start
    let atom ← match c.kind with
      | .predefined => do
        let t ← next
        pure (.predefined t.text t.span)
      | .lparen => do
        modify Cursor.bump
        let elements ← elementsWith n
        let _ ← expect .rparen .closingParenthesis
        pure (.tuple elements (← spanFrom start))
      | .ident => do
        let (isGlobal, first) ← qualifier
        let rest ← segmentsWith n
        pure (.path isGlobal (first ++ rest) ⟨start, (← get).prevEnd⟩)
      | _ => fail .type
    suffixes start (← get).ahead.length atom

/-- The elements of a tuple, each with an optional name. -/
def elementsWith : Nat → Read (List TypeExpr)
  | 0 => fail .type
  | n + 1 => do
    let e ← typeExprWith n
    modify (·.eat .ident)
    if ← eat .comma then return e :: (← elementsWith n) else return [e]

/-- The segments of a name, joined by dots. -/
def segmentsWith : Nat → Read (List (NameSegment TypeExpr))
  | 0 => fail .typeName
  | n + 1 => do
    let t ← expect .ident .typeName
    let c ← get
    let segment ←
      if c.kind = .lt then do
        set c.bump
        let args ← argumentsWith n
        commas
        let close ← expect .gt .commaOrClosingAngle
        pure ⟨identName t.text, t.span, args, some (c.current.span.merge close.span)⟩
      else pure ⟨identName t.text, t.span, [], none⟩
    let c ← get
    if c.kind = .dot ∧ c.peek 1 = .ident then
      set c.bump
      return segment :: (← segmentsWith n)
    else return [segment]

/-- The arguments of a generic name; none if it is written with commas alone. -/
def argumentsWith : Nat → Read (List TypeExpr)
  | 0 => fail .type
  | n + 1 => do
    let c ← get
    if c.kind = .gt ∨ c.kind = .comma then return []
    else argumentListWith n

/-- A list of types, joined by commas. -/
def argumentListWith : Nat → Read (List TypeExpr)
  | 0 => fail .type
  | n + 1 => do
    let e ← typeExprWith n
    if ← eat .comma then return e :: (← argumentListWith n) else return [e]

end

/-- A depth that no type in so many tokens exceeds. -/
def typeFuel (tokens : Nat) : Nat := 4 * (tokens + 1)

/-- A type. -/
def typeExpr : Read TypeExpr := do typeExprWith (typeFuel (← get).ahead.length)

/-- The attributes of a list up to its closing bracket. The number bounds the list. -/
def attributes : Nat → Read (List Attribute)
  | 0 => pure []
  | n + 1 => do
    if (← get).kind = .rbracket then return []
    let name ← typeExpr
    skipArguments
    let a : Attribute := ⟨name, ← spanFrom name.span.start⟩
    if ← eat .comma then return a :: (← attributes n) else return [a]

/-- The word before a colon at the head of an attribute list. -/
def attributeTarget : Read (Option String) := do
  let c ← get
  if c.kind = .ident ∧ c.peek 1 = .colon then
    set (c.advance 2)
    return some c.current.text
  else return none

/-- Any number of attribute lists. The number bounds them. -/
def attributeListsWith : Nat → Read (List AttributeList)
  | 0 => pure []
  | n + 1 => do
    let c ← get
    if c.kind = .lbracket then
      set c.bump
      let target ← attributeTarget
      let entries ← attributes c.ahead.length
      let close ← expect .rbracket .closingBracket
      let l : AttributeList := ⟨target, entries, c.current.span.merge close.span⟩
      return l :: (← attributeListsWith n)
    else return []

/-- Any number of attribute lists. -/
def attributeLists : Read (List AttributeList) := do attributeListsWith (← get).ahead.length

end SelfTypeLint.Read
