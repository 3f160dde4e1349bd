import SelfTypeLint.Text.Utf8

/-!
# Searching

What stands before the first occurrence of a text in another one. The occurrence is found up to its end,
whatever follows it.
-/

namespace SelfTypeLint.Text

/-- What stands before a text is followed by it. -/
theorem exists_of_before? {needle inner cs : List Char} (h : before? needle cs = some inner) :
    ∃ rest, cs = inner ++ (needle ++ rest) := by
  induction cs generalizing inner with
  | nil =>
    rw [before?] at h
    split at h
    · next hnil =>
      obtain rfl := Option.some.inj h
      exact ⟨[], by simpa using List.isEmpty_iff.1 hnil⟩
    · exact absurd h (by simp)
  | cons c cs ih =>
    rw [before?] at h
    split at h
    · next hprefix =>
      obtain rfl := Option.some.inj h
      obtain ⟨rest, hrest⟩ := List.isPrefixOf_iff_prefix.1 hprefix
      exact ⟨rest, hrest.symm⟩
    · obtain ⟨inner', hinner, rfl⟩ := Option.map_eq_some_iff.1 h
      obtain ⟨rest, rfl⟩ := ih hinner
      exact ⟨rest, rfl⟩

theorem before?_le {needle inner cs : List Char} (h : before? needle cs = some inner) :
    inner.length + needle.length ≤ cs.length := by
  obtain ⟨rest, rfl⟩ := exists_of_before? h
  simp only [List.length_append]
  omega

/-- A text stands only once in what ends with its first occurrence. -/
theorem eq_nil_of_before? {needle inner rest : List Char}
    (h : before? needle (inner ++ needle ++ rest) = some inner) {as bs : List Char}
    (hsplit : inner ++ needle = as ++ needle ++ bs) : bs = [] := by
  induction inner generalizing as with
  | nil =>
    have hlength := congrArg List.length hsplit
    simp only [List.length_append, List.length_nil] at hlength
    exact List.length_eq_zero_iff.1 (by omega)
  | cons c inner ih =>
    rw [List.cons_append, List.cons_append, before?] at h
    split at h
    · exact absurd h (by simp)
    · next hno =>
      have hrest : before? needle (inner ++ needle ++ rest) = some inner := by simpa using h
      cases as with
      | nil =>
        exfalso
        apply hno
        rw [List.isPrefixOf_iff_prefix]
        refine ⟨bs ++ rest, ?_⟩
        rw [← List.append_assoc, ← List.nil_append needle, ← hsplit]
        rfl
      | cons a as =>
        rw [List.cons_append, List.cons_append, List.cons_append] at hsplit
        exact ih hrest (List.cons.inj hsplit).2

/-- The first occurrence of a text is found. -/
theorem before?_eq_some {needle : List Char} (hne : needle ≠ []) {inner : List Char}
    (h : ∀ as bs, inner ++ needle = as ++ needle ++ bs → bs = []) (rest : List Char) :
    before? needle (inner ++ needle ++ rest) = some inner := by
  induction inner with
  | nil =>
    obtain ⟨c, cs, rfl⟩ := List.exists_cons_of_ne_nil hne
    rw [List.nil_append, List.cons_append, before?, if_pos]
    rw [List.isPrefixOf_iff_prefix]
    exact ⟨rest, rfl⟩
  | cons c inner ih =>
    have hinner : before? needle (inner ++ needle ++ rest) = some inner := by
      apply ih
      intro as bs hsplit
      apply h (c :: as) bs
      rw [List.cons_append, hsplit]
      rfl
    rw [List.cons_append, List.cons_append, before?, if_neg, hinner]
    · rfl
    · intro hprefix
      rw [List.isPrefixOf_iff_prefix, ← List.cons_append, ← List.cons_append] at hprefix
      have hshort : needle <+: c :: inner ++ needle := by
        apply List.prefix_of_prefix_length_le hprefix (List.prefix_append _ _)
        simp only [List.length_append]
        omega
      obtain ⟨bs, hbs⟩ := hshort
      obtain rfl := h [] bs hbs.symm
      have hlength := congrArg List.length hbs
      simp only [List.length_append, List.length_cons, List.length_nil] at hlength
      omega

/-- The first occurrence of a text is seen up to its end. -/
theorem before?_append {needle rest : List Char} (rest' : List Char) (hne : needle ≠ [])
    {inner : List Char} (h : before? needle (inner ++ (needle ++ rest)) = some inner) :
    before? needle (inner ++ (needle ++ rest')) = some inner := by
  rw [← List.append_assoc] at h ⊢
  exact before?_eq_some hne (fun _ _ => eq_nil_of_before? h) rest'

/-- A character is found where it first stands. -/
theorem before?_singleton {c : Char} {inner : List Char} (h : c ∉ inner) (rest : List Char) :
    before? [c] (inner ++ c :: rest) = some inner := by
  induction inner with
  | nil => simp [before?]
  | cons d inner ih =>
    obtain ⟨hd, hinner⟩ := List.ne_and_not_mem_of_not_mem_cons h
    rw [List.cons_append, before?, if_neg (by simpa using hd), ih hinner]
    rfl

end SelfTypeLint.Text
