import SelfTypeLint.Tree.Reader.Cursor

/-!
# Skipping

The tree keeps no members of a type but the nested types, so most of a body is skipped. Each skip is
measured on the tokens ahead (`memberLength` and the like) and then consumed, so that the identifiers
on the way are recorded.
-/

namespace SelfTypeLint

namespace TokenKind

/-- Holds of the opening round, square and curly brackets. -/
def isOpener : TokenKind → Bool
  | lparen | lbracket | lbrace => true
  | _ => false

/-- Holds of the closing round, square and curly brackets. -/
def isCloser : TokenKind → Bool
  | rparen | rbracket | rbrace => true
  | _ => false

/-- The bracket that closes an opening one. -/
def closer : TokenKind → TokenKind
  | lparen => rparen
  | lbracket => rbracket
  | _ => rbrace

/-- The character of an opening bracket. -/
def delimiter : TokenKind → Char
  | lparen => '('
  | lbracket => '['
  | _ => '\x7b'

end TokenKind

/-- Number of tokens up to the one that closes the last bracket of the stack of closers still
awaited; none if the tokens end before. A closer that is not awaited counts as any other token. -/
def balancedLength? : List TokenKind → List Token → Option Nat
  | [], _ => some 0
  | _ :: _, [] => none
  | top :: stack, t :: ts =>
    let awaited :=
      if t.kind.isOpener then t.kind.closer :: top :: stack
      else if t.kind = top then stack
      else top :: stack
    (balancedLength? awaited ts).map (· + 1)

/-- Number of tokens through the next semicolon outside of `depth` brackets and those opened on the
way, or up to a closing brace outside of them. -/
def statementLength : Nat → List Token → Nat
  | _, [] => 0
  | depth, t :: ts =>
    if t.kind = .rbrace ∧ depth = 0 then 0
    else if t.kind = .semi ∧ depth = 0 then 1
    else if t.kind.isOpener then statementLength (depth + 1) ts + 1
    else if t.kind.isCloser then statementLength (depth - 1) ts + 1
    else statementLength depth ts + 1

/-- Number of tokens of a member: through a semicolon outside of brackets, or through a closing brace
that is the last open bracket, unless an initial value follows it (as in `get; = value;` after
braces). It stops in front of the brace that closes the body around it. -/
def memberLength : Nat → List Token → Nat
  | _, [] => 0
  | depth, t :: ts =>
    if t.kind = .rbrace then
      if depth = 0 then 0
      else if depth = 1 ∧ ts.head?.map (·.kind) ≠ some .eq then 1
      else memberLength (depth - 1) ts + 1
    else if t.kind = .semi ∧ depth = 0 then 1
    else if t.kind.isOpener then memberLength (depth + 1) ts + 1
    else if t.kind.isCloser then memberLength (depth - 1) ts + 1
    else memberLength depth ts + 1

namespace Cursor

/-- Consumes the rest of a statement. -/
def skipStatement (c : Cursor) : Cursor := c.advance (statementLength 0 c.ahead)

/-- Consumes one member of a body. -/
def skipMember (c : Cursor) : Cursor := c.advance (memberLength 0 c.ahead)

/-- Consumes a delegate. Its identifiers belong to no declaration, since it may declare type
parameters of its own. -/
def skipDelegate (c : Cursor) : Cursor := { c.skipStatement with idents := c.idents }

end Cursor

namespace Read

/-- Consumes a bracketed group that begins with the next token; all that is left if it is not
closed. -/
def skipBalanced : Read Unit := do
  let opener ← next
  let c ← get
  match balancedLength? [opener.kind.closer] c.ahead with
  | some n => set (c.advance n)
  | none =>
    set (c.advance c.ahead.length)
    throw (.unclosed opener.kind.delimiter opener.span)

/-- Consumes a bracketed group if the next token is an opening parenthesis. -/
def skipArguments : Read Unit := do
  if (← get).kind = .lparen then skipBalanced

/-- Consumes an enumeration. -/
def skipEnum : Read Unit := do
  modify Cursor.bump
  modify (·.skipWhile fun t => t.kind ≠ .lbrace && t.kind ≠ .semi)
  if (← get).kind = .lbrace then skipBalanced
  modify (·.eat .semi)

/-- Consumes the constraints after the word `where`, up to the body, the next clause or an arrow. The
number bounds the tokens and groups consumed. -/
def skipConstraints : Nat → Read Unit
  | 0 => pure ()
  | n + 1 => do
    let c ← get
    match c.kind with
    | .lbrace | .semi | .eof | .arrow => pure ()
    | .lparen =>
      skipBalanced
      skipConstraints n
    | _ =>
      if c.atWord "where" then pure ()
      else
        set c.bump
        skipConstraints n

/-- Consumes all constraint clauses. The number bounds the clauses. -/
def skipConstraintClauses : Nat → Read Unit
  | 0 => pure ()
  | n + 1 => do
    let c ← get
    if c.atWord "where" then
      set c.bump
      skipConstraints c.ahead.length
      skipConstraintClauses n

end Read

end SelfTypeLint
