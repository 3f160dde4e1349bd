/-!
# Alternatives in braces

A pattern may hold groups such as `{cs,csx}`, and stands for every pattern made by choosing one
alternative of each group. A group without a comma of its own is kept as it is, and a pattern is not
expanded from an open brace on that is never closed.
-/

namespace SelfTypeLint.Braces

/-- A group in braces: the texts between its own commas, and what follows its closing brace. -/
structure Group where
  first : List Char
  others : List (List Char)
  rest : List Char
  deriving DecidableEq, Repr

namespace Group

/-- The texts between the commas of a group. -/
def alternatives (g : Group) : List (List Char) := g.first :: g.others

/-- The group with a character before its first alternative. -/
def cons (c : Char) (g : Group) : Group := { g with first := c :: g.first }

/-- The group with an empty alternative before its first. -/
def split (g : Group) : Group := { g with first := [], others := g.alternatives }

end Group

/-- The group whose open brace has been read, and in it `depth` open braces more; none if the group is
never closed. -/
def group? : Nat → List Char → Option Group
  | _, [] => none
  | depth, c :: cs =>
    if c = '\x7b' then (group? (depth + 1) cs).map (.cons c)
    else if c = '\x7d' then
      if depth = 0 then some ⟨[], [], cs⟩ else (group? (depth - 1) cs).map (.cons c)
    else if c = ',' ∧ depth = 0 then (group? depth cs).map .split
    else (group? depth cs).map (.cons c)

private theorem length_cons_group {c : Char} {cs : List Char} {o : Option Group} {g : Group}
    (h : o.map (.cons c) = some g)
    (ih : ∀ g', o = some g' → ∀ a ∈ g'.alternatives, a.length + g'.rest.length < cs.length) :
    ∀ a ∈ g.alternatives, a.length + g.rest.length < (c :: cs).length := by
  obtain ⟨g', hg, rfl⟩ := Option.map_eq_some_iff.1 h
  intro a ha
  rcases List.mem_cons.1 ha with rfl | ho
  · have := ih g' hg g'.first (by simp [Group.alternatives])
    simp only [Group.cons, List.length_cons]
    omega
  · have := ih g' hg a (by simp [Group.alternatives, Group.cons] at ho ⊢; exact .inr ho)
    simp only [Group.cons, List.length_cons]
    omega

/-- An alternative and what follows the group are together shorter than the text that was read. -/
theorem length_add_lt_of_group? {depth : Nat} {cs : List Char} {g : Group}
    (h : group? depth cs = some g) :
    ∀ a ∈ g.alternatives, a.length + g.rest.length < cs.length := by
  induction cs generalizing depth g with
  | nil => simp [group?] at h
  | cons c cs ih =>
    rw [group?] at h
    split at h
    · exact length_cons_group h fun _ => ih
    · split at h
      · split at h
        · obtain rfl := Option.some.inj h
          simp [Group.alternatives]
        · exact length_cons_group h fun _ => ih
      · split at h
        · obtain ⟨g', hg, rfl⟩ := Option.map_eq_some_iff.1 h
          intro a ha
          rcases List.mem_cons.1 ha with rfl | ho
          · have := ih hg g'.first (by simp [Group.alternatives])
            simp only [Group.split, List.length_cons, List.length_nil]
            omega
          · have := ih hg a ho
            simp only [Group.split, List.length_cons]
            omega
        · exact length_cons_group h fun _ => ih

/-- What follows a group is shorter than the text that was read. -/
theorem length_rest_lt_of_group? {depth : Nat} {cs : List Char} {g : Group}
    (h : group? depth cs = some g) : g.rest.length < cs.length := by
  have := length_add_lt_of_group? h g.first (by simp [Group.alternatives])
  omega

/-- The patterns that a pattern with groups stands for, those of the first alternatives first. -/
def expand (cs : List Char) : List (List Char) :=
  match cs with
  | [] => [[]]
  | c :: cs =>
    if c = '\x7b' then
      match _h : group? 0 cs with
      | none => [c :: cs]
      | some g =>
        let tails := expand g.rest
        if g.others.isEmpty then tails.map fun tail => c :: g.first ++ '\x7d' :: tail
        else
          g.alternatives.attach.flatMap fun ⟨a, _ha⟩ =>
            (expand a).flatMap fun head => tails.map (head ++ ·)
    else (expand cs).map (c :: ·)
  termination_by cs.length
  decreasing_by
    · have := length_rest_lt_of_group? _h
      simp only [List.length_cons]
      omega
    · have := length_add_lt_of_group? _h a _ha
      simp only [List.length_cons]
      omega
    · simp

@[simp] theorem expand_nil : expand [] = [[]] := by rw [expand]

/-- A character that opens no group stands in every expansion. -/
theorem expand_cons_of_ne {c : Char} (h : c ≠ '\x7b') (cs : List Char) :
    expand (c :: cs) = (expand cs).map (c :: ·) := by
  rw [expand, if_neg h]

/-- A pattern without open braces stands for itself. -/
theorem expand_of_not_mem {cs : List Char} (h : '\x7b' ∉ cs) : expand cs = [cs] := by
  induction cs with
  | nil => simp
  | cons c cs ih =>
    obtain ⟨hc, hcs⟩ := List.ne_and_not_mem_of_not_mem_cons h
    rw [expand_cons_of_ne hc.symm, ih hcs]
    rfl

/-- An open brace that is never closed is kept, and so is all that follows. -/
theorem expand_open_of_none {cs : List Char} (h : group? 0 cs = none) :
    expand ('\x7b' :: cs) = ['\x7b' :: cs] := by
  rw [expand, if_pos rfl]
  split
  · rfl
  · next hg => rw [h] at hg; exact absurd hg (by simp)

end SelfTypeLint.Braces
