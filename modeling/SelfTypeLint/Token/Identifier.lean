import SelfTypeLint.Unicode.Alphabetic
import SelfTypeLint.Unicode.Letter
import SelfTypeLint.Unicode.Mark
import SelfTypeLint.Unicode.Number
import SelfTypeLint.Unicode.Recent

/-!
# Words and identifiers

`isWordStart` and `isWordPart` say which characters begin and continue a word when a file is read; they
go by Unicode 16. `isValidIdentifier` says which names may be given to a declaration; its character
classes are those of the property Alphabetic in Unicode 17. So the two differ on a few marks and
numbers, and a name may hold recent letters that no file is read with.
-/

namespace SelfTypeLint

/-- Holds of the characters that begin a word: letters, letter numbers and the low line. -/
def isWordStart (c : Char) : Bool :=
  if c.toNat < 128 then c.isAlpha || c == '_' else Unicode.letters.contains c

/-- Holds of the characters that continue a word: those that begin one, digits, marks, connectors
and format characters. -/
def isWordPart (c : Char) : Bool :=
  if c.toNat < 128 then c.isAlphanum || c == '_'
  else Unicode.letters.contains c || Unicode.digits.contains c || Unicode.marks.contains c ||
    Unicode.connectors.contains c || Unicode.formats.contains c

/-- Holds of the characters with the property Alphabetic. -/
def isAlphabetic (c : Char) : Bool :=
  if c.toNat < 128 then c.isAlpha
  else Unicode.letters.contains c || Unicode.otherAlphabetic.contains c ||
    Unicode.recentAlphabetic.contains c

/-- Holds of the alphabetic characters and of the digits and other numbers. -/
def isAlphanumeric (c : Char) : Bool :=
  if c.toNat < 128 then c.isAlphanum
  else isAlphabetic c || Unicode.digits.contains c || Unicode.otherNumbers.contains c ||
    Unicode.recentDigits.contains c

/-- The words that cannot name a declaration. -/
def reservedWords : List String := [
  "abstract", "as", "base", "bool", "break", "byte", "case", "catch", "char", "checked", "class",
  "const", "continue", "decimal", "default", "delegate", "do", "double", "else", "enum", "event",
  "explicit", "extern", "false", "finally", "fixed", "float", "for", "foreach", "goto", "if",
  "implicit", "in", "int", "interface", "internal", "is", "lock", "long", "namespace", "new",
  "null", "object", "operator", "out", "override", "params", "private", "protected", "public",
  "readonly", "ref", "return", "sbyte", "sealed", "short", "sizeof", "stackalloc", "static",
  "string", "struct", "switch", "this", "throw", "true", "try", "typeof", "uint", "ulong",
  "unchecked", "unsafe", "ushort", "using", "virtual", "void", "volatile", "while"]

/-- Holds of the names that may be given to a declaration as they stand. -/
def isValidIdentifier (name : String) : Bool :=
  match name.toList with
  | [] => false
  | c :: cs =>
    (isAlphabetic c || c == '_') && cs.all (fun c => isAlphanumeric c || c == '_') &&
      !reservedWords.contains name

/-- The name that an identifier spells, without the sign that makes it verbatim. -/
def identName (text : String) : String :=
  match text.toList with
  | '@' :: cs => String.ofList cs
  | _ => text

/-- What begins a word also continues one. -/
theorem isWordPart_of_isWordStart {c : Char} (h : isWordStart c = true) : isWordPart c = true := by
  unfold isWordStart at h
  unfold isWordPart
  split at h
  · next hc => simp_all [Char.isAlphanum]; grind
  · next hc => simp_all

end SelfTypeLint
