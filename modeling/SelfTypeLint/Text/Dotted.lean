/-!
# Dotted names

A dotted name such as `System.Collections` is a list of parts joined by dots. Its prefixes are the
names made of its first parts.
-/

namespace SelfTypeLint.Dotted

/-- The pieces of a list between the elements that equal `sep`; there is always at least one. -/
def pieces (sep : Char) : List Char → List (List Char)
  | [] => [[]]
  | c :: cs =>
    match pieces sep cs with
    | [] => [[c]]
    | first :: rest => if c = sep then [] :: first :: rest else (c :: first) :: rest

/-- The parts of a dotted name. -/
def parts (name : String) : List String := (pieces '.' name.toList).map String.ofList

/-- A name inside a namespace; the empty namespace adds nothing. -/
def join (space name : String) : String := if space.isEmpty then name else space ++ "." ++ name

/-- The names made of the first parts of a list, in a namespace: one part, two parts, and so on. -/
def prefixesIn (space : String) : List String → List String
  | [] => []
  | p :: ps =>
    let name := join space p
    name :: prefixesIn name ps

theorem pieces_ne_nil (sep : Char) (cs : List Char) : pieces sep cs ≠ [] := by
  cases cs with
  | nil => simp [pieces]
  | cons c cs =>
    rw [pieces]
    split
    · simp
    · split <;> simp

/-- A list without the separator is one piece. -/
theorem pieces_of_not_mem {sep : Char} {cs : List Char} (h : sep ∉ cs) : pieces sep cs = [cs] := by
  induction cs with
  | nil => rfl
  | cons c cs ih =>
    obtain ⟨hc, hcs⟩ := List.ne_and_not_mem_of_not_mem_cons h
    simp [pieces, ih hcs, Ne.symm hc]

/-- Each part adds one name. -/
theorem length_prefixesIn (space : String) (ps : List String) :
    (prefixesIn space ps).length = ps.length := by
  induction ps generalizing space with
  | nil => rfl
  | cons p ps ih => simp [prefixesIn, ih]

end SelfTypeLint.Dotted
