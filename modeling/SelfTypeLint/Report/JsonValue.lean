/-!
# JSON texts

A JSON value and its text with an indentation of two blanks. Numbers are natural numbers, and the
fields of an object stand in the order given.
-/

namespace SelfTypeLint

/-- A JSON value. -/
inductive JsonValue
  | bool (b : Bool)
  | number (n : Nat)
  | string (s : String)
  | array (items : List JsonValue)
  | object (fields : List (String × JsonValue))
  deriving Repr, Inhabited

namespace JsonValue

/-- A digit of a hexadecimal number in small letters. -/
def hexDigit (n : Nat) : Char := Nat.digitChar (n % 16)

/-- A character inside a string. Quotes, backslashes and control characters are escaped. -/
def escape (c : Char) : List Char :=
  if c = '"' then ['\\', '"']
  else if c = '\\' then ['\\', '\\']
  else if c = '\n' then ['\\', 'n']
  else if c = '\r' then ['\\', 'r']
  else if c = '\t' then ['\\', 't']
  else if c = '\x08' then ['\\', 'b']
  else if c = '\x0c' then ['\\', 'f']
  else if c.toNat < 0x20 then ['\\', 'u', '0', '0', hexDigit (c.toNat / 16), hexDigit c.toNat]
  else [c]

/-- A string between quotes. -/
def quote (s : String) : String := "\"" ++ String.ofList (s.toList.flatMap escape) ++ "\""

/-- The start of a line at a depth. -/
def newLine (depth : Nat) : String := "\n" ++ String.ofList (List.replicate (2 * depth) ' ')

/-- A bracketed list of texts, each on a line of its own. -/
def block (opening closing : String) (depth : Nat) (items : List String) : String :=
  if items.isEmpty then opening ++ closing
  else
    opening ++ newLine (depth + 1) ++ ("," ++ newLine (depth + 1)).intercalate items ++
      newLine depth ++ closing

mutual

/-- The text of a value at a depth. -/
def renderAt (depth : Nat) : JsonValue → String
  | bool b => if b then "true" else "false"
  | number n => toString n
  | string s => quote s
  | array items => block "[" "]" depth (renderItems (depth + 1) items)
  | object fields => block "\x7b" "\x7d" depth (renderFields (depth + 1) fields)

/-- The texts of the items of an array. -/
def renderItems (depth : Nat) : List JsonValue → List String
  | [] => []
  | v :: vs => renderAt depth v :: renderItems depth vs

/-- The texts of the fields of an object. -/
def renderFields (depth : Nat) : List (String × JsonValue) → List String
  | [] => []
  | (key, v) :: rest => (quote key ++ ": " ++ renderAt depth v) :: renderFields depth rest

end

/-- The text of a value, with a line feed at its end. -/
def render (v : JsonValue) : String := renderAt 0 v ++ "\n"

end JsonValue

end SelfTypeLint
