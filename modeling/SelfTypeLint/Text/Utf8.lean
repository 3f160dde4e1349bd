/-!
# Byte offsets into text

A text is a list of characters, and an offset into it counts the bytes of its UTF-8 form. This module
measures texts in bytes and cuts them at byte offsets: `splitAt?` cuts at an offset that stands
between two characters and refuses every other, and the two pieces join up to the text again.
-/

namespace SelfTypeLint.Text

/-- Number of bytes of a text in UTF-8. -/
def byteSize : List Char → Nat
  | [] => 0
  | c :: cs => c.utf8Size + byteSize cs

/-- The pieces before and after a byte offset; none if the offset is past the end or inside a
character. -/
def splitAt? : Nat → List Char → Option (List Char × List Char)
  | 0, cs => some ([], cs)
  | _ + 1, [] => none
  | n + 1, c :: cs =>
    if c.utf8Size ≤ n + 1 then
      (splitAt? (n + 1 - c.utf8Size) cs).map fun (front, back) => (c :: front, back)
    else none

/-- The text of a half-open byte range; none if the range is reversed, past the end, or cuts a
character. -/
def slice? (start stop : Nat) (cs : List Char) : Option (List Char) :=
  if start ≤ stop then do
    let (_, back) ← splitAt? start cs
    let (middle, _) ← splitAt? (stop - start) back
    some middle
  else none

/-- The text with the byte range from `start` to `stop` exchanged for `new`; none if an end of the
range is not between two characters. -/
def replace? (start stop : Nat) (new cs : List Char) : Option (List Char) := do
  let (front, back) ← splitAt? start cs
  let (_, rest) ← splitAt? (stop - start) back
  some (front ++ new ++ rest)

/-- The characters before a text that occurs in `cs`, at its first occurrence; none without one. -/
def before? (needle : List Char) : List Char → Option (List Char)
  | [] => if needle.isEmpty then some [] else none
  | c :: cs =>
    if needle.isPrefixOf (c :: cs) then some []
    else (before? needle cs).map (c :: ·)

@[simp] theorem byteSize_nil : byteSize [] = 0 := rfl

@[simp] theorem byteSize_cons (c : Char) (cs : List Char) :
    byteSize (c :: cs) = c.utf8Size + byteSize cs := rfl

/-- Sizes add up over concatenation. -/
@[simp] theorem byteSize_append (as bs : List Char) :
    byteSize (as ++ bs) = byteSize as + byteSize bs := by
  induction as with
  | nil => simp
  | cons a as ih => simp [ih, Nat.add_assoc]

/-- Every character has at least one byte. -/
theorem length_le_byteSize (cs : List Char) : cs.length ≤ byteSize cs := by
  induction cs with
  | nil => exact Nat.le_refl 0
  | cons c cs ih =>
    have := c.utf8Size_pos
    rw [List.length_cons, byteSize_cons]
    omega

@[simp] theorem splitAt?_zero (cs : List Char) : splitAt? 0 cs = some ([], cs) := by
  cases cs <;> rfl

/-- Cutting at the size of a leading piece takes off exactly that piece. -/
theorem splitAt?_append (front back : List Char) :
    splitAt? (byteSize front) (front ++ back) = some (front, back) := by
  induction front with
  | nil => simp
  | cons c cs ih =>
    obtain ⟨n, hn⟩ : ∃ n, c.utf8Size + byteSize cs = n + 1 :=
      ⟨c.utf8Size + byteSize cs - 1, by have := c.utf8Size_pos; omega⟩
    have hsub : n + 1 - c.utf8Size = byteSize cs := by omega
    simp only [byteSize_cons, List.cons_append, hn, splitAt?, hsub, ih]
    rw [if_pos (by omega)]
    rfl

/-- The pieces of a cut join up to the text, and the first has the size asked for. -/
theorem splitAt?_eq_some {n : Nat} {cs front back : List Char}
    (h : splitAt? n cs = some (front, back)) : cs = front ++ back ∧ byteSize front = n := by
  fun_induction splitAt? n cs generalizing front back with
  | case1 cs =>
    obtain ⟨rfl, rfl⟩ := Prod.mk.inj (Option.some.inj h)
    simp
  | case2 n => simp at h
  | case3 n c cs hc ih =>
    obtain ⟨⟨a, b⟩, hab, he⟩ := Option.map_eq_some_iff.1 h
    obtain ⟨rfl, rfl⟩ := Prod.mk.inj he
    obtain ⟨rfl, hs⟩ := ih hab
    simp [hs]
    omega
  | case4 n c cs hc => simp at h

/-- The offsets at which a text can be cut are the sizes of its leading pieces. -/
theorem splitAt?_eq_some_iff {n : Nat} {cs front back : List Char} :
    splitAt? n cs = some (front, back) ↔ cs = front ++ back ∧ byteSize front = n :=
  ⟨splitAt?_eq_some, fun ⟨h, hn⟩ => h ▸ hn ▸ splitAt?_append front back⟩

/-- The range of a piece between two others has exactly that piece. -/
theorem slice?_append (front middle back : List Char) :
    slice? (byteSize front) (byteSize front + byteSize middle) (front ++ (middle ++ back)) =
      some middle := by
  rw [slice?, if_pos (Nat.le_add_right _ _), splitAt?_append]
  simp [splitAt?_append]

end SelfTypeLint.Text
