import SelfTypeLint.Text.Span

/-!
# Lines and columns

A `LineTable` holds the offsets at which the lines of a text begin. Lines and columns are counted from
one; a column counts characters, not bytes. Offsets, lines and columns have 32 bits: a number that they do
not hold becomes the greatest one that they do, and adding to that one begins again at zero. In a text of
fewer than 2³² - 1 bytes they hold all of them.
-/

namespace SelfTypeLint

/-- Where the lines of a text begin. -/
structure LineTable where
  starts : List Nat
  deriving DecidableEq, Repr, Inhabited

namespace LineTable

/-- A number in 32 bits: the greatest one that they hold stands for all that they do not. -/
def narrow (n : Nat) : Nat := min n (Span.limit - 1)

/-- One more than a number in 32 bits; after the greatest comes zero. -/
def next (n : Nat) : Nat := (n + 1) % Span.limit

/-- The offsets just after the line feeds of a text that stands at an offset. -/
def startsAfter (offset : Nat) : List Char → List Nat
  | [] => []
  | c :: cs =>
    let next := offset + c.utf8Size
    if c = '\n' then next :: startsAfter next cs else startsAfter next cs

/-- The table of a text. -/
def ofText (text : String) : LineTable := ⟨0 :: (startsAfter 0 text.toList).map narrow⟩

/-- Number of lines; a line feed at the end begins one more. -/
def count (t : LineTable) : Nat := t.starts.length

/-- The place of an offset among offsets in increasing order: its index if it is one of them, and else the
index at which it would have to be put in. -/
def search (offset : Nat) : List Nat → Except Nat Nat
  | [] => .error 0
  | s :: rest =>
    if s < offset then
      match search offset rest with
      | .ok exact => .ok (exact + 1)
      | .error insertion => .error (insertion + 1)
    else if s = offset then .ok 0 else .error 0

/-- The line that an offset lies in: the last one that begins at it or before. -/
def lineAt (t : LineTable) (offset : Nat) : Nat :=
  match search offset t.starts with
  | .ok exact => narrow (exact + 1)
  | .error insertion => narrow (insertion - 1 + 1)

/-- The column after a number of characters. -/
def columnAfter (count : Nat) : Nat := next (if count < Span.limit then count else Span.limit - 2)

/-- Where a line begins; none if there is no such line. -/
def lineStart? (t : LineTable) (line : Nat) : Option Nat :=
  if line = 0 then none else t.starts[line - 1]?

/-- Line and column of an offset. An offset past the end counts as the end; inside a character the
column is one. -/
def position (t : LineTable) (text : String) (offset : Nat) : Nat × Nat :=
  let cs := text.toList
  let line := t.lineAt offset
  let start := (t.lineStart? line).getD 0
  let stop := max (min offset (Text.byteSize cs)) start
  (line, columnAfter (((Text.slice? start stop cs).map List.length).getD 0))

/-- The positions of both ends of a span. -/
def range (t : LineTable) (text : String) (span : Span) : (Nat × Nat) × (Nat × Nat) :=
  (t.position text span.start, t.position text span.stop)

/-- Holds of the characters that end a line. -/
def isLineEnd (c : Char) : Bool := c == '\n' || c == '\r'

/-- A list without the elements at its end that pass the test. -/
def dropEndWhile (p : Char → Bool) (cs : List Char) : List Char := (cs.reverse.dropWhile p).reverse

/-- The text of a line without the characters that end it. -/
def lineText? (t : LineTable) (text : String) (line : Nat) : Option String := do
  let cs := text.toList
  let start ← t.lineStart? line
  let stop := (t.lineStart? (next line)).getD (Text.byteSize cs)
  let cut ← Text.slice? start stop cs
  return String.ofList (dropEndWhile isLineEnd cut)

theorem narrow_of_lt {n : Nat} (h : n < Span.limit) : narrow n = n := Nat.min_eq_left (Nat.le_sub_one_of_lt h)

theorem narrow_pos {n : Nat} (h : 0 < n) : 0 < narrow n := Nat.lt_min.2 ⟨h, by decide⟩

theorem next_of_lt {n : Nat} (h : n + 1 < Span.limit) : next n = n + 1 := Nat.mod_eq_of_lt h

theorem columnAfter_of_lt {n : Nat} (h : n + 1 < Span.limit) : columnAfter n = n + 1 := by
  rw [columnAfter, if_pos (Nat.lt_of_succ_lt h), next_of_lt h]

@[simp] theorem startsAfter_nil (offset : Nat) : startsAfter offset [] = [] := rfl

theorem count_ofText_pos (text : String) : 0 < (ofText text).count := by
  simp [ofText, count]

/-- Every offset lies in some line. -/
theorem lineAt_pos (t : LineTable) (offset : Nat) : 0 < t.lineAt offset := by
  rw [lineAt]
  split <;> exact narrow_pos (Nat.succ_pos _)

/-- The lines after a place begin after it. -/
theorem lt_of_mem_startsAfter {offset s : Nat} {cs : List Char} (h : s ∈ startsAfter offset cs) :
    offset < s := by
  induction cs generalizing offset with
  | nil => simp at h
  | cons c cs ih =>
    have hc := c.utf8Size_pos
    simp only [startsAfter] at h
    split at h
    · rcases List.mem_cons.1 h with h | h
      · omega
      · have := ih h
        omega
    · have := ih h
      omega

end LineTable

end SelfTypeLint
