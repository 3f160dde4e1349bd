import SelfTypeLint.Settings.Braces

/-!
# Patterns and their expansions

A `Pattern` has its groups as they are nested: a choice of two alternatives or more, or a group without a
comma of its own. What a pattern stands for is given by the alternatives chosen in it (`Chooses`). The main
statement, `expand_written`, says that the expansions of a written pattern are its selections, which are
these texts in the order of the numbers of the alternatives chosen (`mem_selections_iff`,
`pairwise_selections`).
-/

namespace SelfTypeLint.Braces

/-- Holds of the characters that stand for themselves. In a group the comma does not. -/
def IsPlain (inGroup : Bool) (c : Char) : Prop :=
  c ≠ '\x7b' ∧ c ≠ '\x7d' ∧ (inGroup = true → c ≠ ',')

mutual

/-- A pattern in which every brace has its partner, by itself or as an alternative of a group. -/
inductive Pattern : Bool → Type
  | nil {inGroup : Bool} : Pattern inGroup
  | char {inGroup : Bool} (c : Char) (plain : IsPlain inGroup c) (rest : Pattern inGroup) :
    Pattern inGroup
  /-- A group without a comma of its own. -/
  | whole {inGroup : Bool} (content : Pattern true) (rest : Pattern inGroup) : Pattern inGroup
  | choice {inGroup : Bool} (alternatives : Alternatives) (rest : Pattern inGroup) : Pattern inGroup

/-- Two alternatives or more. -/
inductive Alternatives : Type
  | two (first second : Pattern true)
  | more (first : Pattern true) (rest : Alternatives)

end

/-- The alternatives in the order of writing. -/
def Alternatives.toList : Alternatives → List (Pattern true)
  | .two first second => [first, second]
  | .more first rest => first :: rest.toList

mutual

/-- The text of a pattern. -/
def Pattern.written {inGroup : Bool} : Pattern inGroup → List Char
  | .nil => []
  | .char c _ rest => c :: rest.written
  | .whole content rest => '\x7b' :: (content.written ++ '\x7d' :: rest.written)
  | .choice alternatives rest => '\x7b' :: (alternatives.written ++ '\x7d' :: rest.written)

/-- The texts of alternatives with commas between them. -/
def Alternatives.written : Alternatives → List Char
  | .two first second => first.written ++ ',' :: second.written
  | .more first rest => first.written ++ ',' :: rest.written

end

/-- Holds of a text that a pattern stands for, with the numbers of the alternatives chosen, from left to
right. -/
inductive Chooses : {inGroup : Bool} → Pattern inGroup → List Nat → List Char → Prop
  | nil {inGroup : Bool} : Chooses (.nil : Pattern inGroup) [] []
  | char {inGroup : Bool} {c : Char} {plain : IsPlain inGroup c} {rest : Pattern inGroup}
    {numbers : List Nat} {text : List Char} (h : Chooses rest numbers text) :
    Chooses (.char c plain rest) numbers (c :: text)
  | whole {inGroup : Bool} {content : Pattern true} {rest : Pattern inGroup} {numbers : List Nat}
    {text : List Char} (h : Chooses rest numbers text) :
    Chooses (.whole content rest) numbers ('\x7b' :: (content.written ++ '\x7d' :: text))
  | choice {inGroup : Bool} {alternatives : Alternatives} {rest : Pattern inGroup} {i : Nat}
    {alternative : Pattern true} {inner numbers : List Nat} {head tail : List Char}
    (hi : alternatives.toList[i]? = some alternative) (hhead : Chooses alternative inner head)
    (htail : Chooses rest numbers tail) :
    Chooses (.choice alternatives rest) (i :: (inner ++ numbers)) (head ++ tail)

mutual

/-- What a pattern stands for, with the numbers of the alternatives chosen. -/
def Pattern.selections {inGroup : Bool} : Pattern inGroup → List (List Nat × List Char)
  | .nil => [([], [])]
  | .char c _ rest => rest.selections.map fun s => (s.1, c :: s.2)
  | .whole content rest =>
    rest.selections.map fun s => (s.1, '\x7b' :: (content.written ++ '\x7d' :: s.2))
  | .choice alternatives rest =>
    (alternatives.selections 0).flatMap fun head =>
      rest.selections.map fun tail => (head.1 ++ tail.1, head.2 ++ tail.2)

/-- What alternatives stand for, where the first of them has a given number. -/
def Alternatives.selections (i : Nat) : Alternatives → List (List Nat × List Char)
  | .two first second =>
    (first.selections.map fun s => (i :: s.1, s.2)) ++
      second.selections.map fun s => ((i + 1) :: s.1, s.2)
  | .more first rest =>
    (first.selections.map fun s => (i :: s.1, s.2)) ++ rest.selections (i + 1)

end

/-! ### Groups as they are read -/

namespace Group

/-- The group with a text before its first alternative. -/
def prepend (front : List Char) (g : Group) : Group := { g with first := front ++ g.first }

theorem map_prepend_nil (o : Option Group) : o.map (prepend []) = o := by
  cases o <;> rfl

theorem map_cons_prepend (c : Char) (front : List Char) (o : Option Group) :
    (o.map (prepend front)).map (cons c) = o.map (prepend (c :: front)) := by
  cases o <;> rfl

theorem map_prepend_prepend (front back : List Char) (o : Option Group) :
    (o.map (prepend back)).map (prepend front) = o.map (prepend (front ++ back)) := by
  cases o <;> simp [prepend]

end Group

variable {depth : Nat} {cs : List Char} {c : Char}

theorem group?_cons_of_isPlain (h : IsPlain true c) :
    group? depth (c :: cs) = (group? depth cs).map (.cons c) := by
  rw [group?, if_neg h.1, if_neg h.2.1, if_neg fun hcomma => h.2.2 rfl hcomma.1]

theorem group?_cons_open :
    group? depth ('\x7b' :: cs) = (group? (depth + 1) cs).map (.cons '\x7b') := by
  rw [group?, if_pos rfl]

theorem group?_cons_close :
    group? (depth + 1) ('\x7d' :: cs) = (group? depth cs).map (.cons '\x7d') := by
  rw [group?, if_neg (by decide), if_pos rfl, if_neg (Nat.succ_ne_zero depth), Nat.add_sub_cancel]

theorem group?_cons_end : group? 0 ('\x7d' :: cs) = some ⟨[], [], cs⟩ := by
  rw [group?, if_neg (by decide), if_pos rfl, if_pos rfl]

/-- A comma in a group inside of the one that is read. -/
theorem group?_cons_comma :
    group? (depth + 1) (',' :: cs) = (group? (depth + 1) cs).map (.cons ',') := by
  rw [group?, if_neg (by decide), if_neg (by decide), if_neg (by simp)]

theorem group?_cons_separator : group? 0 (',' :: cs) = (group? 0 cs).map .split := by
  rw [group?, if_neg (by decide), if_neg (by decide), if_pos ⟨rfl, rfl⟩]

mutual

/-- A written alternative does not end the group that it stands in. -/
theorem group?_written_append : (p : Pattern true) → (depth : Nat) → (cs : List Char) →
    group? depth (p.written ++ cs) = (group? depth cs).map (.prepend p.written)
  | .nil, depth, cs => by
    rw [Pattern.written, List.nil_append, Group.map_prepend_nil]
  | .char c plain rest, depth, cs => by
    rw [Pattern.written, List.cons_append, group?_cons_of_isPlain plain,
      group?_written_append rest, Group.map_cons_prepend]
  | .whole content rest, depth, cs => by
    rw [Pattern.written, List.cons_append, group?_cons_open, List.append_assoc,
      group?_written_append content, List.cons_append, group?_cons_close,
      group?_written_append rest]
    simp only [Group.map_cons_prepend, Group.map_prepend_prepend]
  | .choice alternatives rest, depth, cs => by
    rw [Pattern.written, List.cons_append, group?_cons_open, List.append_assoc,
      group?_alternatives_append alternatives, List.cons_append, group?_cons_close,
      group?_written_append rest]
    simp only [Group.map_cons_prepend, Group.map_prepend_prepend]

/-- Written alternatives do not end the group around the one that they stand in. -/
theorem group?_alternatives_append : (alternatives : Alternatives) → (depth : Nat) →
    (cs : List Char) → group? (depth + 1) (alternatives.written ++ cs) =
      (group? (depth + 1) cs).map (.prepend alternatives.written)
  | .two first second, depth, cs => by
    rw [Alternatives.written, List.append_assoc, group?_written_append first, List.cons_append,
      group?_cons_comma, group?_written_append second, Group.map_cons_prepend,
      Group.map_prepend_prepend]
  | .more first rest, depth, cs => by
    rw [Alternatives.written, List.append_assoc, group?_written_append first, List.cons_append,
      group?_cons_comma, group?_alternatives_append rest, Group.map_cons_prepend,
      Group.map_prepend_prepend]

end

/-- A group without a comma of its own is read as one alternative. -/
theorem group?_content (content : Pattern true) (cs : List Char) :
    group? 0 (content.written ++ '\x7d' :: cs) = some ⟨content.written, [], cs⟩ := by
  rw [group?_written_append, group?_cons_end]
  simp [Group.prepend]

/-- A choice is read as its alternatives. -/
theorem exists_group?_alternatives : (alternatives : Alternatives) → (cs : List Char) →
    ∃ first others, group? 0 (alternatives.written ++ '\x7d' :: cs) = some ⟨first, others, cs⟩ ∧
      others ≠ [] ∧ first :: others = alternatives.toList.map Pattern.written
  | .two first second, cs => by
    refine ⟨first.written, [second.written], ?_, by simp, rfl⟩
    rw [Alternatives.written, List.append_assoc, List.cons_append, group?_written_append,
      group?_cons_separator, group?_content]
    simp [Group.split, Group.prepend, Group.alternatives]
  | .more first rest, cs => by
    obtain ⟨second, others, hread, -, hwritten⟩ := exists_group?_alternatives rest cs
    refine ⟨first.written, second :: others, ?_, by simp, congrArg (first.written :: ·) hwritten⟩
    rw [Alternatives.written, List.append_assoc, List.cons_append, group?_written_append,
      group?_cons_separator, hread]
    simp [Group.split, Group.prepend, Group.alternatives]

/-! ### Expansions of written patterns -/

/-- A group that is read stands for what its alternatives and the rest stand for; one without commas is
kept. -/
theorem expand_cons_open {g : Group} (h : group? 0 cs = some g) :
    expand ('\x7b' :: cs) =
      if g.others = [] then (expand g.rest).map fun tail => '\x7b' :: (g.first ++ '\x7d' :: tail)
      else g.alternatives.flatMap fun alternative =>
        (expand alternative).flatMap fun head => (expand g.rest).map (head ++ ·) := by
  rw [expand, if_pos rfl]
  split
  · next hnone => rw [h] at hnone; exact absurd hnone (by simp)
  · next g' hsome =>
    obtain rfl : g = g' := Option.some.inj (h.symm.trans hsome)
    simp only [List.isEmpty_iff]
    split
    · rfl
    · simp only [List.flatMap_subtype, List.unattach_attach]

mutual

/-- A written pattern is expanded to its selections. -/
theorem expand_written : {inGroup : Bool} → (p : Pattern inGroup) →
    expand p.written = p.selections.map Prod.snd
  | _, .nil => by simp [Pattern.written, Pattern.selections]
  | _, .char c plain rest => by
    rw [Pattern.written, expand_cons_of_ne plain.1, expand_written rest, Pattern.selections]
    simp
  | _, .whole content rest => by
    rw [Pattern.written, expand_cons_open (group?_content content rest.written), if_pos rfl,
      expand_written rest, Pattern.selections]
    simp
  | _, .choice alternatives rest => by
    obtain ⟨first, others, hread, hne, hwritten⟩ :=
      exists_group?_alternatives alternatives rest.written
    have heach := expand_alternatives alternatives 0
    rw [Pattern.written, expand_cons_open hread, if_neg hne, Group.alternatives, hwritten,
      expand_written rest, Pattern.selections]
    rw [List.flatMap_map, ← List.flatMap_assoc, heach]
    simp [List.map_flatMap, List.flatMap_map, Function.comp_def]

/-- Written alternatives are expanded to their selections, one after the other. -/
theorem expand_alternatives : (alternatives : Alternatives) → (i : Nat) →
    (alternatives.toList.flatMap fun alternative => expand alternative.written) =
      (alternatives.selections i).map Prod.snd
  | .two first second, i => by
    simp [Alternatives.toList, Alternatives.selections, expand_written first, expand_written second,
      Function.comp_def]
  | .more first rest, i => by
    simp [Alternatives.toList, Alternatives.selections, expand_written first,
      expand_alternatives rest (i + 1), Function.comp_def]

end

/-! ### Selections -/

mutual

/-- The selections of a pattern are the texts that it stands for. -/
theorem mem_selections_iff : {inGroup : Bool} → (p : Pattern inGroup) → (numbers : List Nat) →
    (text : List Char) → ((numbers, text) ∈ p.selections ↔ Chooses p numbers text)
  | _, .nil, numbers, text => by
    rw [Pattern.selections, List.mem_singleton, Prod.mk.injEq]
    constructor
    · rintro ⟨rfl, rfl⟩
      exact .nil
    · rintro ⟨⟩
      exact ⟨rfl, rfl⟩
  | _, .char c plain rest, numbers, text => by
    rw [Pattern.selections, List.mem_map]
    constructor
    · rintro ⟨⟨_, _⟩, hmem, ⟨⟩⟩
      exact .char ((mem_selections_iff rest _ _).1 hmem)
    · rintro (_ | h)
      exact ⟨_, (mem_selections_iff rest _ _).2 h, rfl⟩
  | _, .whole content rest, numbers, text => by
    rw [Pattern.selections, List.mem_map]
    constructor
    · rintro ⟨⟨_, _⟩, hmem, ⟨⟩⟩
      exact .whole ((mem_selections_iff rest _ _).1 hmem)
    · rintro (_ | _ | h)
      exact ⟨_, (mem_selections_iff rest _ _).2 h, rfl⟩
  | _, .choice alternatives rest, numbers, text => by
    simp only [Pattern.selections, List.mem_flatMap, List.mem_map]
    constructor
    · rintro ⟨⟨_, _⟩, hhead, ⟨_, _⟩, htail, ⟨⟩⟩
      obtain ⟨i, alternative, inner, hi, rfl, hinner⟩ := (mem_alternatives_iff alternatives 0 _ _).1 hhead
      rw [Nat.zero_add]
      exact .choice hi hinner ((mem_selections_iff rest _ _).1 htail)
    · rintro (_ | _ | _ | ⟨hi, hinner, htail⟩)
      refine ⟨_, (mem_alternatives_iff alternatives 0 _ _).2 ⟨_, _, _, hi, rfl, hinner⟩, _,
        (mem_selections_iff rest _ _).2 htail, ?_⟩
      simp

/-- The selections of alternatives begin with the number of the alternative chosen. -/
theorem mem_alternatives_iff : (alternatives : Alternatives) → (i : Nat) → (numbers : List Nat) →
    (text : List Char) → ((numbers, text) ∈ alternatives.selections i ↔
      ∃ k alternative inner, alternatives.toList[k]? = some alternative ∧
        numbers = (i + k) :: inner ∧ Chooses alternative inner text)
  | .two first second, i, numbers, text => by
    simp only [Alternatives.selections, Alternatives.toList, List.mem_append, List.mem_map]
    constructor
    · rintro (⟨⟨inner, _⟩, hmem, ⟨⟩⟩ | ⟨⟨inner, _⟩, hmem, ⟨⟩⟩)
      · exact ⟨0, first, inner, rfl, rfl, (mem_selections_iff first _ _).1 hmem⟩
      · exact ⟨1, second, inner, rfl, rfl, (mem_selections_iff second _ _).1 hmem⟩
    · rintro ⟨k, alternative, inner, hk, rfl, hinner⟩
      match k with
      | 0 =>
        obtain rfl := Option.some.inj hk
        exact .inl ⟨_, (mem_selections_iff first _ _).2 hinner, rfl⟩
      | 1 =>
        obtain rfl := Option.some.inj hk
        exact .inr ⟨_, (mem_selections_iff second _ _).2 hinner, rfl⟩
      | k + 2 => exact absurd hk (by simp)
  | .more first rest, i, numbers, text => by
    simp only [Alternatives.selections, Alternatives.toList, List.mem_append, List.mem_map,
      mem_alternatives_iff rest]
    constructor
    · rintro (⟨⟨inner, _⟩, hmem, ⟨⟩⟩ | ⟨k, alternative, inner, hk, rfl, hinner⟩)
      · exact ⟨0, first, inner, rfl, rfl, (mem_selections_iff first _ _).1 hmem⟩
      · exact ⟨k + 1, alternative, inner, hk, by rw [Nat.add_assoc, Nat.add_comm 1], hinner⟩
    · rintro ⟨k, alternative, inner, hk, rfl, hinner⟩
      match k with
      | 0 =>
        obtain rfl := Option.some.inj hk
        exact .inl ⟨_, (mem_selections_iff first _ _).2 hinner, rfl⟩
      | k + 1 => exact .inr ⟨k, alternative, inner, hk, by rw [Nat.add_assoc, Nat.add_comm 1], hinner⟩

end

/-- The order of numbers: at the first place where they differ the lesser comes first. -/
def Before (as bs : List Nat) : Prop :=
  ∃ front a as' b bs', as = front ++ a :: as' ∧ bs = front ++ b :: bs' ∧ a < b

theorem before_cons_of_lt {a b : Nat} (h : a < b) (as bs : List Nat) : Before (a :: as) (b :: bs) :=
  ⟨[], a, as, b, bs, rfl, rfl, h⟩

theorem Before.append {as bs : List Nat} (h : Before as bs) (cs ds : List Nat) :
    Before (as ++ cs) (bs ++ ds) := by
  obtain ⟨front, a, as', b, bs', rfl, rfl, hlt⟩ := h
  exact ⟨front, a, as' ++ cs, b, bs' ++ ds, by simp, by simp, hlt⟩

theorem Before.append_left {as bs : List Nat} (h : Before as bs) (cs : List Nat) :
    Before (cs ++ as) (cs ++ bs) := by
  obtain ⟨front, a, as', b, bs', rfl, rfl, hlt⟩ := h
  exact ⟨cs ++ front, a, as', b, bs', by simp, by simp, hlt⟩

mutual

/-- The selections of a pattern are in the order of their numbers. -/
theorem pairwise_selections : {inGroup : Bool} → (p : Pattern inGroup) →
    p.selections.Pairwise fun s t => Before s.1 t.1
  | _, .nil => List.pairwise_singleton _ _
  | _, .char c plain rest => by
    rw [Pattern.selections, List.pairwise_map]
    exact pairwise_selections rest
  | _, .whole content rest => by
    rw [Pattern.selections, List.pairwise_map]
    exact pairwise_selections rest
  | _, .choice alternatives rest => by
    rw [Pattern.selections, List.pairwise_flatMap]
    refine ⟨fun head _ => ?_, (pairwise_alternatives alternatives 0).imp fun {s t} hst => ?_⟩
    · rw [List.pairwise_map]
      exact (pairwise_selections rest).imp fun h => h.append_left head.1
    · intro x hx y hy
      obtain ⟨tail, -, rfl⟩ := List.mem_map.1 hx
      obtain ⟨tail', -, rfl⟩ := List.mem_map.1 hy
      exact hst.append tail.1 tail'.1

theorem pairwise_alternatives : (alternatives : Alternatives) → (i : Nat) →
    (alternatives.selections i).Pairwise fun s t => Before s.1 t.1
  | .two first second, i => by
    rw [Alternatives.selections, List.pairwise_append, List.pairwise_map, List.pairwise_map]
    refine ⟨(pairwise_selections first).imp fun h => h.append_left [i],
      (pairwise_selections second).imp fun h => h.append_left [i + 1], fun s hs t ht => ?_⟩
    obtain ⟨s', -, rfl⟩ := List.mem_map.1 hs
    obtain ⟨t', -, rfl⟩ := List.mem_map.1 ht
    exact before_cons_of_lt (Nat.lt_succ_self i) _ _
  | .more first rest, i => by
    rw [Alternatives.selections, List.pairwise_append, List.pairwise_map]
    refine ⟨(pairwise_selections first).imp fun h => h.append_left [i],
      pairwise_alternatives rest (i + 1), fun s hs t ht => ?_⟩
    obtain ⟨s', -, rfl⟩ := List.mem_map.1 hs
    obtain ⟨k, _, inner, -, hnumbers, -⟩ := (mem_alternatives_iff rest (i + 1) t.1 t.2).1 ht
    rw [hnumbers]
    exact before_cons_of_lt (by omega) _ _

end

/-! ### Groups that are never closed -/

/-- Holds of what follows an open brace that is never closed. -/
def Unclosed (cs : List Char) : Prop :=
  ∀ part, part <+: cs → part.count '\x7d' ≤ part.count '\x7b'

theorem forall_isPrefix_cons {P : List Char → Prop} :
    (∀ part, part <+: c :: cs → P part) ↔ P [] ∧ ∀ part, part <+: cs → P (c :: part) := by
  constructor
  · exact fun h => ⟨h [] List.nil_prefix, fun part hpart => h _ ((List.prefix_cons_inj c).2 hpart)⟩
  · rintro ⟨hnil, hcons⟩ part hpart
    rcases List.prefix_cons_iff.1 hpart with rfl | ⟨tail, rfl, htail⟩
    · exact hnil
    · exact hcons tail htail

/-- No group is read exactly if no closing brace is one too many. -/
theorem group?_eq_none_iff (depth : Nat) (cs : List Char) :
    group? depth cs = none ↔
      ∀ part, part <+: cs → part.count '\x7d' ≤ depth + part.count '\x7b' := by
  induction cs generalizing depth with
  | nil => simp [group?]
  | cons c cs ih =>
    rw [forall_isPrefix_cons]
    simp only [List.count_nil, Nat.zero_le, true_and]
    by_cases hopen : c = '\x7b'
    · subst hopen
      rw [group?_cons_open, Option.map_eq_none_iff]
      simp [ih, Nat.add_assoc, Nat.add_comm 1]
    · by_cases hclose : c = '\x7d'
      · subst hclose
        cases depth with
        | zero =>
          rw [group?_cons_end]
          refine iff_of_false (by simp) fun h => ?_
          simpa using h [] List.nil_prefix
        | succ depth =>
          rw [group?_cons_close, Option.map_eq_none_iff]
          simp [ih, Nat.add_right_comm]
      · have hnone : group? depth (c :: cs) = none ↔ group? depth cs = none := by
          rw [group?, if_neg hopen, if_neg hclose]
          split <;> rw [Option.map_eq_none_iff]
        rw [hnone]
        simp [ih, hopen, hclose]

/-- Text before the first open brace stands before every expansion. -/
theorem expand_append {front : List Char} (h : '\x7b' ∉ front) (cs : List Char) :
    expand (front ++ cs) = (expand cs).map (front ++ ·) := by
  induction front with
  | nil => simp
  | cons c front ih =>
    obtain ⟨hc, hfront⟩ := List.ne_and_not_mem_of_not_mem_cons h
    rw [List.cons_append, expand_cons_of_ne hc.symm, ih hfront, List.map_map]
    rfl

/-- A pattern whose first open brace is never closed stands for itself. -/
theorem expand_of_unclosed {front back : List Char} (hfront : '\x7b' ∉ front) (hback : Unclosed back) :
    expand (front ++ '\x7b' :: back) = [front ++ '\x7b' :: back] := by
  have hnone : group? 0 back = none := by
    rw [group?_eq_none_iff]
    simpa [Unclosed] using hback
  rw [expand_append hfront, expand_open_of_none hnone]
  rfl

end SelfTypeLint.Braces
