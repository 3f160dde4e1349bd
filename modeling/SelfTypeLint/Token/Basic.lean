import SelfTypeLint.Text.Span

/-!
# Tokens

A token is a word, literal or punctuation mark of a declaration file, with the span and the text it
was read from. Words that only some positions reserve (`record`, `partial`, `where`, `global`) are
plain identifiers.
-/

namespace SelfTypeLint

/-- The kinds of token that the grammar tells apart. -/
inductive TokenKind
  | ident
  | kwNamespace | kwUsing | kwStatic | kwClass | kwStruct | kwInterface | kwEnum | kwDelegate
  | kwIn | kwOut | kwNew
  | modifier
  | predefined
  | str | char | number
  | lbrace | rbrace | lparen | rparen | lbracket | rbracket
  | lt | gt | comma | dot | semi | colonColon | colon | question | arrow | eq | op
  | error
  | eof
  deriving DecidableEq, Repr, Inhabited

namespace TokenKind

/-- Holds of the reserved words. -/
def isKeyword : TokenKind → Bool
  | kwNamespace | kwUsing | kwStatic | kwClass | kwStruct | kwInterface | kwEnum | kwDelegate
  | kwIn | kwOut | kwNew | modifier | predefined => true
  | _ => false

/-- The reserved words by kind. The word `inter` stands with `in`. -/
def words : List (TokenKind × List String) := [
  (kwNamespace, ["namespace"]), (kwUsing, ["using"]), (kwStatic, ["static"]),
  (kwClass, ["class"]), (kwStruct, ["struct"]), (kwInterface, ["interface"]), (kwEnum, ["enum"]),
  (kwDelegate, ["delegate"]), (kwIn, ["in", "inter"]), (kwOut, ["out"]), (kwNew, ["new"]),
  (modifier, ["public", "private", "protected", "internal", "abstract", "sealed", "readonly",
    "unsafe", "virtual", "override", "extern", "volatile", "const", "ref"]),
  (predefined, ["bool", "byte", "sbyte", "char", "decimal", "double", "float", "int", "uint",
    "long", "ulong", "short", "ushort", "object", "string", "void"])]

/-- The kind of a reserved word; none for any other word. -/
def ofWord? (word : String) : Option TokenKind :=
  (words.find? fun (_, ws) => ws.contains word).map Prod.fst

/-- Every word of the table gives a keyword kind. -/
theorem isKeyword_of_ofWord? {word : String} {k : TokenKind} (h : ofWord? word = some k) :
    k.isKeyword = true := by
  obtain ⟨⟨k', ws⟩, hf, rfl⟩ := Option.map_eq_some_iff.1 h
  have hm := List.mem_of_find?_eq_some hf
  simp only [words, List.mem_cons, Prod.mk.injEq, List.not_mem_nil, or_false] at hm
  rcases hm with h | h | h | h | h | h | h | h | h | h | h | h | h <;> simp [h.1, isKeyword]

end TokenKind

/-- A token with the place and the text it was read from. -/
structure Token where
  kind : TokenKind
  span : Span
  text : String
  deriving DecidableEq, Repr, Inhabited

end SelfTypeLint
