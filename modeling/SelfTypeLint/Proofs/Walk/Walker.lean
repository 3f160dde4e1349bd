import SelfTypeLint.Tree.Reader.Declarations

/-!
# Walking over a vector of tokens

The readers take tokens off a list and give some answer in any case. Here the same grammar is read with
an index into the vector of all tokens, and a walk has no outcome at all if it reads outside of the
vector or counts below zero. Loops and recursions take a number that limits how deep their turns nest;
a walk that reaches its limit has no outcome either. So a walk that would not end has none at any limit.
-/

namespace SelfTypeLint

/-- A place in a vector of tokens. -/
structure Walker where
  source : String
  /-- All tokens; the last one marks the end. -/
  tokens : List Token
  pos : Nat
  /-- The errors found so far, the last one first. -/
  errors : List ParseError
  /-- The identifiers of the type declarations around the place, those of the innermost first, and of
  each the last one first. -/
  sinks : List (List Ident)

namespace Walker

/-- The walker before the first token of a text. Tokens that are errors are reported at once. -/
def ofSource (source : String) : Walker where
  source
  tokens := Token.read source
  pos := 0
  errors := ((Token.read source).filterMap fun t =>
    if t.kind = .error then some (.invalidToken t.text t.span) else none).reverse
  sinks := []

/-- End of the last token passed. -/
def prevEnd (w : Walker) : Nat :=
  match w.pos with
  | 0 => 0
  | i + 1 => (w.tokens[i]?.map (·.span.stop)).getD 0

/-- The kind of the token `n` places on; past the last that of the end. -/
def peek (w : Walker) (n : Nat) : TokenKind := (w.tokens[w.pos + n]?.map (·.kind)).getD .eof

/-- Adds an identifier to those of the innermost declaration. -/
def collect (i : Ident) (w : Walker) : Walker :=
  match w.sinks with
  | [] => w
  | sink :: outer => { w with sinks := (i :: sink) :: outer }

/-- Goes on behind a token. -/
def pass (t : Token) (w : Walker) : Walker :=
  let w := { w with pos := w.pos + 1 }
  if t.kind = .ident then w.collect ⟨identName t.text, t.span⟩ else w

/-- Records a fault. -/
def report (e : ParseError) (w : Walker) : Walker := { w with errors := e :: w.errors }

/-- The span from an offset to the last token passed. -/
def spanFrom (start : Nat) (w : Walker) : Span := ⟨start, max w.prevEnd start⟩

end Walker

/-- A walk that does not fail; it has no outcome if it leaves the vector, counts below zero or reaches
its limit. -/
abbrev WalkM (α : Type) := StateT Walker Option α

/-- A walk. -/
abbrev Walk (α : Type) := ExceptT ParseError (StateT Walker Option) α

namespace Walk

/-- The token at the place; there is no outcome outside of the vector. -/
def current : WalkM Token := do
  let w ← get
  w.tokens[w.pos]?

example (source : String) (t : Token) : current.run ⟨source, [t], 1, [], []⟩ = none := rfl

/-- The kind of the token at the place. -/
def kind : WalkM TokenKind := do return (← current).kind

/-- Holds at an identifier with this spelling. -/
def atWord (word : String) : WalkM Bool := do
  if (← kind) = .ident then return (← current).text == word
  else return false

/-- Passes the token at the place; the end is never passed. -/
def bump : WalkM Token := do
  let t ← current
  if t.kind = .eof then return t
  else
    modify (·.pass t)
    return t

/-- Passes the token at the place if it is of this kind, and says so. -/
def eat (k : TokenKind) : WalkM Bool := do
  if (← kind) = k then
    let _ ← bump
    return true
  else return false

/-- The fault of finding the token at the place where something else is wanted. -/
def unexpected (wanted : Wanted) : WalkM ParseError := do
  let t ← current
  return .expected wanted (if t.kind = .eof then none else some t.text) t.span

/-- Fails for want of something at the place. -/
def fail {α : Type} (wanted : Wanted) : Walk α := do throw (← unexpected wanted)

/-- Passes a token of this kind, or fails. -/
def expect (k : TokenKind) (wanted : Wanted) : Walk Token := do
  if (← kind) = k then bump else fail wanted

/-- The span from an offset to the last token passed. -/
def spanFrom (start : Nat) : WalkM Span := do return (← get).spanFrom start

/-- One less than a count; there is no outcome below zero. -/
def lower : Nat → WalkM Nat
  | 0 => failure
  | n + 1 => return n

/-- The limit is reached: there is no outcome. -/
def spent {α : Type} : WalkM α := failure

/-! ## Skipping -/

/-- Passes tokens until no closer of the stack is awaited. -/
def balance (opener : Token) : Nat → List TokenKind → Walk Unit
  | _, [] => return ()
  | 0, _ :: _ => spent
  | n + 1, top :: stack => do
    let t ← current
    if t.kind = .eof then throw (.unclosed opener.kind.delimiter opener.span)
    else
      let awaited :=
        if t.kind.isOpener then t.kind.closer :: top :: stack
        else if t.kind.isCloser ∧ t.kind = top then stack
        else top :: stack
      let _ ← bump
      balance opener n awaited

/-- Passes a bracketed group that begins at the place. -/
def balanced (n : Nat) : Walk Unit := do
  let opener ← bump
  balance opener n [opener.kind.closer]

/-- Passes a bracketed group if the token at the place is an opening parenthesis. -/
def callArguments (n : Nat) : Walk Unit := do
  if (← kind) = .lparen then balanced n

/-- Passes the rest of a statement inside of `depth` brackets. -/
def statement : Nat → Nat → WalkM Unit
  | 0, _ => spent
  | n + 1, depth => do
    let k ← kind
    if k = .eof then return ()
    else if k = .rbrace ∧ depth = 0 then return ()
    else if k = .semi ∧ depth = 0 then
      let _ ← bump
      return ()
    else
      let _ ← bump
      statement n (if k.isOpener then depth + 1 else if k.isCloser then depth - 1 else depth)

/-- Passes the rest of a member inside of `depth` brackets. A closing brace lowers the depth, which is
not zero then; other closers lower it unless it is. -/
def member : Nat → Nat → WalkM Unit
  | 0, _ => spent
  | n + 1, depth => do
    let k ← kind
    if k = .eof then return ()
    else if k = .rbrace ∧ depth = 0 then return ()
    else if k = .semi ∧ depth = 0 then
      let _ ← bump
      return ()
    else if k = .rbrace then
      let depth ← lower depth
      let _ ← bump
      if depth = 0 ∧ (← kind) ≠ .eq then return ()
      else member n depth
    else
      let _ ← bump
      member n (if k.isOpener then depth + 1 else if k.isCloser then depth - 1 else depth)

/-- Passes a delegate, whose identifiers belong to no declaration. -/
def delegate (n : Nat) : WalkM Unit := do
  modify fun w => { w with sinks := [] :: w.sinks }
  statement n 0
  modify fun w => { w with sinks := w.sinks.tail }

/-- Passes tokens up to an opening brace or a semicolon. -/
def enumHead : Nat → WalkM Unit
  | 0 => spent
  | n + 1 => do
    let k ← kind
    if k = .lbrace ∨ k = .semi ∨ k = .eof then return ()
    else
      let _ ← bump
      enumHead n

/-- Passes an enumeration. -/
def enumeration (n : Nat) : Walk Unit := do
  let _ ← bump
  enumHead n
  if (← kind) = .lbrace then balanced n
  let _ ← eat .semi

/-- Passes constraints up to the body, the next clause or an arrow. -/
def constraints : Nat → Walk Unit
  | 0 => spent
  | n + 1 => do
    let k ← kind
    if k = .lbrace ∨ k = .semi ∨ k = .eof ∨ k = .arrow then return ()
    else if ← atWord "where" then return ()
    else if k = .lparen then
      balanced n
      constraints n
    else
      let _ ← bump
      constraints n

/-- Passes all constraint clauses. -/
def constraintClauses : Nat → Walk Unit
  | 0 => spent
  | n + 1 => do
    if ← atWord "where" then
      let _ ← bump
      constraints n
      constraintClauses n

/-- Passes commas. -/
def commas : Nat → WalkM Unit
  | 0 => spent
  | n + 1 => do if ← eat .comma then commas n

end Walk

end SelfTypeLint
