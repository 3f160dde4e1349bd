import SelfTypeLint.Text.Utf8

/-!
# Spans and locations

A `Span` is a half-open range of byte offsets in one document, ordered by its start and then by its
end. A `Location` is a span together with the number of the document that it lies in.
-/

namespace SelfTypeLint

/-- Number of a document in its compilation. -/
abbrev FileId := Nat

/-- A half-open range of byte offsets in a document. -/
structure Span where
  start : Nat
  stop : Nat
  deriving DecidableEq, Repr, Inhabited

namespace Span

/-- The empty span at an offset. -/
def point (offset : Nat) : Span := ⟨offset, offset⟩

/-- Number of bytes covered. -/
def size (s : Span) : Nat := s.stop - s.start

/-- Holds if nothing is covered. -/
def isEmpty (s : Span) : Bool := s.start == s.stop

/-- Holds if `t` lies inside `s`, where the ends may coincide. -/
def contains (s t : Span) : Bool := s.start ≤ t.start && t.stop ≤ s.stop

/-- The smallest span that covers both. -/
def merge (s t : Span) : Span := ⟨min s.start t.start, max s.stop t.stop⟩

/-- Order by start, then by end. -/
def compare (s t : Span) : Ordering :=
  (Ord.compare s.start t.start).then (Ord.compare s.stop t.stop)

/-- The order of `compare` as a test. -/
def before (s t : Span) : Bool := s.start < t.start || s.start == t.start && s.stop ≤ t.stop

/-- The text covered; empty when the span is out of bounds or cuts a character. -/
def text (s : Span) (source : String) : String :=
  String.ofList ((Text.slice? s.start s.stop source.toList).getD [])

/-- The span in writing, `start..end`. -/
def render (s : Span) : String := toString s.start ++ ".." ++ toString s.stop

@[simp] theorem isEmpty_point (offset : Nat) : (point offset).isEmpty = true := by
  simp [point, isEmpty]

theorem isEmpty_iff (s : Span) : s.isEmpty = true ↔ s.start = s.stop := by
  simp [isEmpty]

theorem contains_iff (s t : Span) :
    s.contains t = true ↔ s.start ≤ t.start ∧ t.stop ≤ s.stop := by
  simp [contains]

/-- Both spans lie inside their merger. -/
theorem merge_contains (s t : Span) :
    (s.merge t).contains s = true ∧ (s.merge t).contains t = true := by
  simp only [contains_iff, merge]
  omega

/-- The test `before` says that the comparison does not answer "greater". -/
theorem before_iff_compare (s t : Span) : s.before t = true ↔ s.compare t ≠ .gt := by
  simp only [before, compare, Bool.or_eq_true, Bool.and_eq_true, decide_eq_true_eq, beq_iff_eq]
  rcases Nat.lt_trichotomy s.start t.start with h | h | h
  · simp [Nat.compare_eq_lt.2 h, h]
  · rcases Nat.lt_trichotomy s.stop t.stop with k | k | k
    · simp [h, Nat.compare_eq_lt.2 k, Nat.le_of_lt k]
    · simp [h, k]
    · simp [h, Nat.compare_eq_gt.2 k, k]
  · simp [Nat.compare_eq_gt.2 h, Nat.not_lt.2 (Nat.le_of_lt h), Nat.ne_of_gt h]

/-- An offset that does not fit in 32 bits. -/
inductive BoundError
  | startTooLarge (offset : Nat)
  | endTooLarge (offset : Nat)
  deriving DecidableEq, Repr

/-- The first number that 32 bits cannot hold. -/
def limit : Nat := UInt32.size

/-- The span of two offsets, checked to fit in 32 bits; the start is checked first. -/
def ofOffsets (start stop : Nat) : Except BoundError Span :=
  if start < limit then
    if stop < limit then .ok ⟨start, stop⟩ else .error (.endTooLarge stop)
  else .error (.startTooLarge start)

/-- A number in upper-case hexadecimal digits. -/
def hexadecimal (n : Nat) : String :=
  String.ofList ((Nat.toDigits 16 n).map Char.toUpper)

/-- The wording of an error. -/
def BoundError.message : BoundError → String
  | .startTooLarge n =>
    "span start " ++ toString n ++ " (0x" ++ hexadecimal n ++ ") exceeds u32::MAX"
  | .endTooLarge n =>
    "span end " ++ toString n ++ " (0x" ++ hexadecimal n ++ ") exceeds u32::MAX"

end Span

/-- A span in a document. -/
structure Location where
  file : FileId
  span : Span
  deriving DecidableEq, Repr, Inhabited

/-- A document number, if the index fits in 32 bits. `Workspace.build` numbers its documents without this
test: the branch for the documents that 32 bits cannot number, which are dropped, is left out there. -/
def FileId.ofIndex (index : Nat) : Option FileId :=
  if index < Span.limit then some index else none

/-- A document number in writing. -/
def FileId.render (file : FileId) : String := "file#" ++ toString file

end SelfTypeLint
