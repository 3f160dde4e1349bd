import SelfTypeLint.Token.Basic
import SelfTypeLint.Token.Identifier

/-!
# Reading tokens

`Token.read` cuts a text into its tokens. At each position `munch` decides by the first character
how many further characters belong to the piece that stands there and whether the piece is a token or
is skipped: blanks, comments, directive lines and byte order marks are. A token list always ends with
one `eof` token at the end of the text.
-/

namespace SelfTypeLint.Token

/-- The piece at the front of a text: its kind, none if it is skipped, and the number of characters
that follow its first one. -/
structure Piece where
  kind : Option TokenKind
  more : Nat
  deriving DecidableEq, Repr

namespace Piece

/-- A piece that is no token. -/
def skipped (more : Nat) : Piece := ⟨none, more⟩

/-- A piece that is a token. -/
def token (kind : TokenKind) (more : Nat) : Piece := ⟨some kind, more⟩

end Piece

/-- Length of the longest front part made of such characters. -/
def run (p : Char → Bool) (cs : List Char) : Nat := (cs.takeWhile p).length

/-- Blanks between tokens. -/
def isLayout (c : Char) : Bool := c == ' ' || c == '\t' || c == '\r' || c == '\n' || c == '\x0c'

/-- Holds if a keyword stays one when this character follows it directly. The character is ASCII, or
its first UTF-8 byte (EE, F1, F2 or F4) begins no character that continues a word. -/
def endsKeyword (c : Char) : Bool :=
  let n := c.toNat
  n < 0x80 || (0xE000 ≤ n && n < 0xF000) || (0x40000 ≤ n && n < 0xC0000) || 0x100000 ≤ n

/-- A word: a keyword or an identifier. -/
def word (c : Char) (cs : List Char) : Piece :=
  let more := run isWordPart cs
  match TokenKind.ofWord? (String.ofList (c :: cs.take more)) with
  | some kind => if (cs.drop more).head?.all endsKeyword then .token kind more else .token .ident more
  | none => .token .ident more

/-- Characters of a number after its first digit. -/
def isNumberPart (c : Char) : Bool := c.isAlphanum || c == '_'

/-- A number after its first digit: digits and letters, and after a point the same again. -/
def number (cs : List Char) : Piece :=
  let more := run isNumberPart cs
  match cs.drop more with
  | '.' :: d :: rest =>
    if d.isDigit then .token .number (more + 2 + run isNumberPart rest) else .token .number more
  | _ => .token .number more

/-- A comment up to the end of the line. -/
def lineComment (cs : List Char) : Piece := .skipped (run (· != '\n') cs)

/-- A stroke: the start of a comment, or an operator. A comment that is never closed is an error of
two characters. -/
def stroke : List Char → Piece
  | '/' :: cs => lineComment ('/' :: cs)
  | '*' :: cs =>
    match Text.before? ['*', '/'] cs with
    | some inner => .skipped (inner.length + 3)
    | none => .token .error 1
  | _ => .token .op 0

/-- Length of the elements of a literal on one line: characters other than the quote, the backslash
and the line feed, and backslashes with the character they escape, which is no line feed. -/
def elements (quote : Char) : List Char → Nat
  | [] => 0
  | [c] => if c == quote || c == '\\' || c == '\n' then 0 else 1
  | c :: d :: rest =>
    if c == '\\' then
      if d == '\n' then 0 else elements quote rest + 2
    else if c == quote || c == '\n' then 0
    else elements quote (d :: rest) + 1

/-- The rest of a string literal after `opening` characters; an error up to its last element if the
closing quote is missing. -/
def string (opening : Nat) (cs : List Char) : Piece :=
  let n := elements '"' cs
  if (cs.drop n).head? = some '"' then .token .str (opening + n + 1) else .token .error (opening + n)

/-- Length of the elements of a verbatim string: characters other than the quote, and quotes written
twice. -/
def verbatimElements : List Char → Nat
  | [] => 0
  | [c] => if c == '"' then 0 else 1
  | c :: d :: rest =>
    if c == '"' then
      if d == '"' then verbatimElements rest + 2 else 0
    else verbatimElements (d :: rest) + 1

/-- The rest of a verbatim string after the sign and the quote. -/
def verbatimString (cs : List Char) : Piece :=
  let n := verbatimElements cs
  if (cs.drop n).head? = some '"' then .token .str (n + 2) else .token .error (n + 1)

/-- The rest of a raw string after `opening` characters that end in `quotes` quotes: closed by as
many quotes, and an error of the opening alone if these are missing. -/
def rawString (opening quotes : Nat) (cs : List Char) : Piece :=
  match Text.before? (List.replicate quotes '"') cs with
  | some inner => .token .str (opening + inner.length + quotes)
  | none => .token .error opening

/-- A double quote: the start of a raw string if three or more stand together, else of a string. -/
def doubleQuote (cs : List Char) : Piece :=
  let quotes := run (· == '"') cs
  if 2 ≤ quotes then rawString quotes (quotes + 1) (cs.drop quotes) else string 0 cs

/-- A dollar sign: the start of an interpolated string, or an operator. Several of them need a raw
string to follow. An interpolated string that has neither an element nor an end is no string. -/
def dollar (cs : List Char) : Piece :=
  let dollars := run (· == '$') cs
  let after := cs.drop dollars
  let quotes := run (· == '"') after
  if 3 ≤ quotes then rawString (dollars + quotes) quotes (after.drop quotes)
  else if 1 ≤ dollars then .token .error dollars
  else match cs with
    | '"' :: rest => if string 1 rest = .token .error 1 then .token .op 0 else string 1 rest
    | '@' :: '"' :: rest => string 2 rest
    | _ => .token .op 0

/-- An at sign: the start of a verbatim identifier or string, or an operator. -/
def atSign : List Char → Piece
  | '"' :: rest => verbatimString rest
  | c :: rest => if isWordStart c then .token .ident (1 + run isWordPart rest) else .token .op 0
  | [] => .token .op 0

/-- A character literal after its quote. It has at least one element. -/
def apostrophe (cs : List Char) : Piece :=
  let n := elements '\'' cs
  if 1 ≤ n ∧ (cs.drop n).head? = some '\'' then .token .char (n + 1) else .token .error n

/-- The kind of a punctuation mark of one character. -/
def mark? : Char → Option TokenKind
  | '\x7b' => some .lbrace
  | '\x7d' => some .rbrace
  | '(' => some .lparen
  | ')' => some .rparen
  | '[' => some .lbracket
  | ']' => some .rbracket
  | '<' => some .lt
  | '>' => some .gt
  | ',' => some .comma
  | '.' => some .dot
  | ';' => some .semi
  | ':' => some .colon
  | '?' => some .question
  | '=' => some .eq
  | '+' | '-' | '*' | '%' | '&' | '|' | '^' | '!' | '~' => some .op
  | _ => none

/-- The piece that begins with the character `c` and goes on in `cs`. -/
def munch (c : Char) (cs : List Char) : Piece :=
  if isLayout c then .skipped (run isLayout cs)
  else if isWordStart c then word c cs
  else if c.isDigit then number cs
  else match c, cs with
    | '/', _ => stroke cs
    | '#', _ => lineComment cs
    | '"', _ => doubleQuote cs
    | '$', _ => dollar cs
    | '@', _ => atSign cs
    | '\'', _ => apostrophe cs
    | ':', ':' :: _ => .token .colonColon 1
    | '=', '>' :: _ => .token .arrow 1
    | '\ufeff', _ => .skipped 0
    | _, _ => .token ((mark? c).getD .error) 0

/-- The tokens of a text that stands at a byte offset, with the `eof` token at its end. -/
def readFrom (offset : Nat) : List Char → List Token
  | [] => [⟨.eof, .point offset, ""⟩]
  | c :: cs =>
    let piece := munch c cs
    let text := c :: cs.take piece.more
    let next := offset + Text.byteSize text
    match piece.kind with
    | some kind => ⟨kind, ⟨offset, next⟩, String.ofList text⟩ :: readFrom next (cs.drop piece.more)
    | none => readFrom next (cs.drop piece.more)
  termination_by cs => cs.length
  decreasing_by
    all_goals
      simp only [List.length_drop, List.length_cons]
      omega

/-- The tokens of a source text. -/
def read (source : String) : List Token := readFrom 0 source.toList

end SelfTypeLint.Token
