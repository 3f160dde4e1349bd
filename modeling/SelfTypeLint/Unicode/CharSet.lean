/-!
# Sets of characters

A `CharSet` lists ranges of code points; a character belongs to it if one of the ranges holds it.
-/

namespace SelfTypeLint.Unicode

/-- A set of characters as a list of closed ranges of code points. -/
structure CharSet where
  ofRanges ::
  ranges : List (Nat × Nat)

namespace CharSet

/-- Holds if some range has the character's code point. -/
def contains (s : CharSet) (c : Char) : Bool :=
  s.ranges.any fun (low, high) => low ≤ c.toNat && c.toNat ≤ high

theorem contains_iff (s : CharSet) (c : Char) :
    s.contains c = true ↔ ∃ r ∈ s.ranges, r.1 ≤ c.toNat ∧ c.toNat ≤ r.2 := by
  simp [contains]

end CharSet

end SelfTypeLint.Unicode
