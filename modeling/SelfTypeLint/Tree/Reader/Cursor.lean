import SelfTypeLint.Token.Lexer
import SelfTypeLint.Tree.Basic

/-!
# The reading position

Reading a declaration tree is done with a `Cursor` over the tokens of the text. It remembers where
the last token ended, the errors found so far, and the identifiers met since the innermost type
declaration began. A reading step `Read` changes the cursor and may fail; the cursor keeps what a
failed step has consumed.
-/

namespace SelfTypeLint

/-- What the grammar wants at a place. -/
inductive Wanted
  | usingWord | namespaceWord
  | declaration
  | type
  | typeName | namespaceName | typeParamName
  | semicolon
  | openingBrace | closingBrace | closingParenthesis | closingBracket
  | commaOrClosingAngle
  | bodyOrSemicolon
  deriving DecidableEq, Repr

/-- The wording of what is wanted. -/
def Wanted.text : Wanted → String
  | usingWord => "`using`"
  | namespaceWord => "`namespace`"
  | declaration => "a namespace or type declaration"
  | type => "a type"
  | typeName => "a type name"
  | namespaceName => "a namespace name"
  | typeParamName => "a type parameter name"
  | semicolon => "`;`"
  | openingBrace => "`\x7b`"
  | closingBrace => "`\x7d`"
  | closingParenthesis => "`)`"
  | closingBracket => "`]`"
  | commaOrClosingAngle => "`,` or `>`"
  | bodyOrSemicolon => "`\x7b` or `;`"

/-- A fault in the text of a file. -/
inductive ParseError
  /-- The grammar wants something else than the token that is there; no token at the end. -/
  | expected (wanted : Wanted) (found : Option String) (span : Span)
  /-- A bracket that is never closed. -/
  | unclosed (delimiter : Char) (span : Span)
  /-- Characters that begin no token. -/
  | invalidToken (text : String) (span : Span)
  deriving DecidableEq, Repr

namespace ParseError

/-- Where the fault was found. -/
def span : ParseError → Span
  | expected _ _ span | unclosed _ span | invalidToken _ span => span

/-- The wording of a fault. -/
def message : ParseError → String
  | expected wanted (some text) _ => "expected " ++ wanted.text ++ ", found `" ++ text ++ "`"
  | expected wanted none _ => "expected " ++ wanted.text ++ ", found end of file"
  | unclosed delimiter _ => "unclosed `" ++ delimiter.toString ++ "`"
  | invalidToken text _ => "unrecognized character `" ++ text ++ "`"

end ParseError

/-- A place between the tokens of a text. -/
structure Cursor where
  source : String
  /-- The tokens that follow, without the one that marks the end. -/
  ahead : List Token
  /-- The token that marks the end. -/
  eof : Token
  /-- End of the last token consumed. -/
  prevEnd : Nat
  /-- The errors found so far, the last one first. -/
  errors : List ParseError
  /-- The identifiers of the innermost type declaration so far, the last one first. -/
  idents : List Ident
  deriving Repr

namespace Cursor

/-- The cursor before the first token of a text. Tokens that are errors are reported at once. -/
def ofSource (source : String) : Cursor :=
  let tokens := Token.read source
  let ahead := tokens.dropLast
  { source, ahead
    eof := tokens.getLast?.getD default
    prevEnd := 0
    errors := (ahead.filterMap fun t =>
      if t.kind = .error then some (.invalidToken t.text t.span) else none).reverse
    idents := [] }

/-- The next token. -/
def current (c : Cursor) : Token := c.ahead.head?.getD c.eof

/-- The kind of the next token. -/
def kind (c : Cursor) : TokenKind := c.current.kind

/-- The kind of the token `n` places after the next. -/
def peek (c : Cursor) (n : Nat) : TokenKind := (c.ahead[n]?.map (·.kind)).getD .eof

/-- Holds at an identifier with this spelling. -/
def atWord (c : Cursor) (word : String) : Bool := c.kind = .ident && c.current.text == word

/-- Consumes the next token; the end is never consumed. -/
def bump (c : Cursor) : Cursor :=
  match c.ahead with
  | [] => c
  | t :: rest =>
    { c with
      ahead := rest
      prevEnd := t.span.stop
      idents := if t.kind = .ident then ⟨identName t.text, t.span⟩ :: c.idents else c.idents }

/-- Consumes `n` tokens. -/
def advance : Nat → Cursor → Cursor
  | 0, c => c
  | n + 1, c => advance n c.bump

/-- Consumes the next token if it is of this kind. -/
def eat (kind : TokenKind) (c : Cursor) : Cursor := if c.kind = kind then c.bump else c

/-- Consumes the tokens up to the first that fails the test. -/
def skipWhile (p : Token → Bool) (c : Cursor) : Cursor := c.advance (c.ahead.takeWhile p).length

/-- The fault of finding the next token where something else is wanted. -/
def unexpected (wanted : Wanted) (c : Cursor) : ParseError :=
  .expected wanted (if c.kind = .eof then none else some c.current.text) c.current.span

/-- Records a fault. -/
def report (e : ParseError) (c : Cursor) : Cursor := { c with errors := e :: c.errors }

/-- The span from an offset to the last token consumed. -/
def spanFrom (start : Nat) (c : Cursor) : Span := ⟨start, max c.prevEnd start⟩

end Cursor

/-- A reading step. -/
abbrev Read (α : Type) := ExceptT ParseError (StateM Cursor) α

namespace Read

/-- Fails for want of something at the next token. -/
def fail {α : Type} (wanted : Wanted) : Read α := do throw ((← get).unexpected wanted)

/-- Consumes the next token, whatever it is. -/
def next : Read Token := do
  let c ← get
  set c.bump
  return c.current

/-- Consumes a token of this kind, or fails. -/
def expect (kind : TokenKind) (wanted : Wanted) : Read Token := do
  if (← get).kind = kind then next else fail wanted

/-- Consumes the next token if it is of this kind, and says so. -/
def eat (kind : TokenKind) : Read Bool := do
  if (← get).kind = kind then
    modify Cursor.bump
    return true
  else return false

/-- Runs a step and gives its outcome, without failing itself. -/
def attempt {α : Type} (step : Read α) : Read (Except ParseError α) := ExceptT.lift step.run

/-- The span from an offset to the last token consumed. -/
def spanFrom (start : Nat) : Read Span := do return (← get).spanFrom start

end Read

end SelfTypeLint
