import SelfTypeLint.Text.Utf8

/-!
# Message templates

A template is a text in which a number in braces stands for the argument of that index, counted from
zero. Braces around anything else, or around a number that no argument has, stay as they are.
-/

namespace SelfTypeLint.Text

/-- The number that decimal digits spell, with an optional plus sign. -/
def index? (cs : List Char) : Option Nat :=
  let digits := match cs with
    | '+' :: rest => rest
    | _ => cs
  if !digits.isEmpty && digits.all Char.isDigit then
    some (digits.foldl (fun n d => 10 * n + (d.toNat - '0'.toNat)) 0)
  else none

/-- What stands after an opening brace, if it is an index up to the next closing brace and some
argument has that index: the argument, and the length of the index. -/
def placeholder? (args : List String) (cs : List Char) : Option (String × Nat) := do
  let inner ← before? ['\x7d'] cs
  let arg ← args[← index? inner]?
  return (arg, inner.length)

/-- A template with its placeholders exchanged for the arguments. -/
def fill (args : List String) : List Char → List Char
  | [] => []
  | c :: cs =>
    if c = '\x7b' then
      match placeholder? args cs with
      | some (arg, length) => arg.toList ++ fill args (cs.drop (length + 1))
      | none => c :: fill args cs
    else c :: fill args cs
  termination_by cs => cs.length
  decreasing_by all_goals simp; try omega

/-- A template with its placeholders exchanged for the arguments. -/
def fillTemplate (template : String) (args : List String) : String :=
  String.ofList (fill args template.toList)

end SelfTypeLint.Text
