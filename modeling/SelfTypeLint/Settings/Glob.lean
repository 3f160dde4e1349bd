/-!
# Patterns of names

A pattern matches paths. `?` stands for any character and `*` for any run of characters, both without
strokes; `[ab-d]` and `[!ab-d]` stand for one character of a class or outside it; `**` as a whole
component stands for any run of components. Every other character stands for itself.
-/

namespace SelfTypeLint

namespace Glob

/-- An entry of a class of characters. -/
inductive ClassItem
  | single (c : Char)
  | range (first last : Char)
  deriving DecidableEq, Repr

/-- Holds of the characters that an entry names. -/
def ClassItem.contains : ClassItem → Char → Bool
  | single a, c => a == c
  | range first last, c => first ≤ c && c ≤ last

/-- The entries of the text between two brackets. -/
def classItems : List Char → List ClassItem
  | first :: '-' :: last :: cs => .range first last :: classItems cs
  | c :: cs => .single c :: classItems cs
  | [] => []

/-- A part of a pattern. -/
inductive Token
  | char (c : Char)
  | anyChar
  | within (items : List ClassItem)
  | outside (items : List ClassItem)
  /-- A run of characters without strokes. -/
  | sequence
  /-- A run of whole components. -/
  | components
  deriving DecidableEq, Repr

namespace Token

/-- Holds of the characters that a part for one character takes. -/
def takes : Token → Char → Bool
  | char a, c => a == c
  | anyChar, c => c != '/'
  | within items, c => c != '/' && items.any (·.contains c)
  | outside items, c => c != '/' && !items.any (·.contains c)
  | sequence, _ => false
  | components, _ => false

end Token

end Glob

/-- A pattern of names. -/
structure Glob where
  tokens : List Glob.Token
  deriving DecidableEq, Repr

namespace Glob

/-- The text of a class and what follows its closing bracket. The first character is never the
closing bracket. -/
def classText? : List Char → Option (List Char × List Char)
  | [] => none
  | first :: cs =>
    match cs.dropWhile (· ≠ ']') with
    | [] => none
    | _ :: rest => some (first :: cs.takeWhile (· ≠ ']'), rest)

/-- The part written by a class whose open bracket has been read, and what follows it. -/
def class? : List Char → Option (Token × List Char)
  | '!' :: cs => (classText? cs).map fun (text, rest) => (.outside (classItems text), rest)
  | cs => (classText? cs).map fun (text, rest) => (.within (classItems text), rest)

/-- Adds the part for a run of components. A second one in a row is left out, except for the second
part of a pattern. -/
def addComponents (done : List Token) : List Token :=
  if 1 < done.length && done.getLast? == some .components then done else done ++ [.components]

theorem length_dropWhile_le (p : Char → Bool) (cs : List Char) :
    (cs.dropWhile p).length ≤ cs.length := by
  simpa using (List.dropWhile_sublist p).length_le

theorem length_lt_of_classText? {cs text rest : List Char}
    (h : classText? cs = some (text, rest)) : rest.length < cs.length := by
  cases cs with
  | nil => simp [classText?] at h
  | cons c cs =>
    rw [classText?] at h
    have := length_dropWhile_le (· ≠ ']') cs
    split at h
    · simp at h
    · next hd =>
      obtain ⟨rfl, rfl⟩ := Prod.mk.inj (Option.some.inj h)
      rw [hd, List.length_cons] at this
      simp
      omega

/-- What follows a class is shorter than what was read. -/
theorem length_lt_of_class? {cs rest : List Char} {t : Token}
    (h : class? cs = some (t, rest)) : rest.length < cs.length := by
  unfold class? at h
  split at h
  · obtain ⟨⟨text, r⟩, hr, he⟩ := Option.map_eq_some_iff.1 h
    obtain ⟨-, rfl⟩ := Prod.mk.inj he
    have := length_lt_of_classText? hr
    simp
    omega
  · obtain ⟨⟨text, r⟩, hr, he⟩ := Option.map_eq_some_iff.1 h
    obtain ⟨-, rfl⟩ := Prod.mk.inj he
    exact length_lt_of_classText? hr

/-- The parts of a pattern after those read before it; none if it is malformed. The flag says whether
the pattern starts here or follows a stroke, where a run of components may stand. -/
def readTokens? (atComponent : Bool) (done : List Token) (cs : List Char) : Option (List Token) :=
  match cs with
  | [] => some done
  | '*' :: '*' :: '*' :: _ => none
  | '*' :: '*' :: '/' :: rest =>
    if atComponent then readTokens? true (addComponents done) rest else none
  | ['*', '*'] => if atComponent then some (addComponents done) else none
  | '*' :: '*' :: _ => none
  | '*' :: rest => readTokens? false (done ++ [.sequence]) rest
  | '?' :: rest => readTokens? false (done ++ [.anyChar]) rest
  | '[' :: rest =>
    match _h : class? rest with
    | none => none
    | some (t, after) => readTokens? false (done ++ [t]) after
  | c :: rest => readTokens? (c == '/') (done ++ [.char c]) rest
  termination_by cs.length
  decreasing_by
    all_goals simp only [List.length_cons]
    any_goals omega
    have := length_lt_of_class? _h
    omega

/-- Reads a pattern; none if it is malformed. -/
def ofText? (text : List Char) : Option Glob := (readTokens? true [] text).map Glob.mk

/-- How matching ends. -/
inductive Outcome
  | success
  /-- The text does not fit here, but more of it may be taken by a run before. -/
  | mismatch
  /-- The text ends too early, whatever a run before takes. -/
  | tooShort
  deriving DecidableEq, Repr

/-- An outcome, or a second one after a mismatch. -/
def Outcome.orElse (o : Outcome) (next : Unit → Outcome) : Outcome :=
  match o with
  | .mismatch => next ()
  | o => o

/-- Matches what follows a run of characters without strokes that takes one more character at least,
or all of the text. -/
def afterSequence (next : List Char → Outcome) : List Char → Outcome
  | [] => next []
  | c :: cs =>
    if c = '/' then .mismatch else (next cs).orElse fun _ => afterSequence next cs

/-- Matches what follows a run of components that takes one more component at least, or all of the
text. -/
def afterComponents (next : List Char → Outcome) : List Char → Outcome
  | [] => next []
  | c :: cs =>
    if c = '/' then (next cs).orElse fun _ => afterComponents next cs else afterComponents next cs

/-- Matches a text against the parts of a pattern. -/
def matchTokens : List Token → List Char → Outcome
  | [], cs => if cs.isEmpty then .success else .mismatch
  | .sequence :: ts, cs => (matchTokens ts cs).orElse fun _ => afterSequence (matchTokens ts) cs
  | .components :: ts, cs => (matchTokens ts cs).orElse fun _ => afterComponents (matchTokens ts) cs
  | _ :: _, [] => .tooShort
  | t :: ts, c :: cs => if t.takes c then matchTokens ts cs else .mismatch

/-- Holds if a pattern matches the whole of a text. -/
def accepts (g : Glob) (text : List Char) : Bool := matchTokens g.tokens text = .success

/-- A pattern of plain characters matches its own text alone. -/
theorem matchTokens_chars (name text : List Char) :
    matchTokens (name.map Token.char) text = .success ↔ text = name := by
  induction name generalizing text with
  | nil => cases text <;> simp [matchTokens]
  | cons c name ih =>
    cases text with
    | nil => simp [matchTokens]
    | cons d text =>
      rw [List.map_cons, matchTokens]
      · by_cases h : c = d
        · simp [Token.takes, h, ih]
        · simp [Token.takes, h, Ne.symm h]
      all_goals simp

end Glob

end SelfTypeLint
