import SelfTypeLint.Proofs.Settings.Alternatives
import SelfTypeLint.Text.Utf8

/-!
# Expanding patterns by offsets

`expandByOffsets` expands a pattern as one does on its bytes: it looks for the first open brace, counts the
depth up to the brace that closes it, notes the offsets of the commas between, and cuts the pattern at these
offsets. Counting below zero and cutting inside a character are faults. The main statement, `expand_correct`,
says that there are none, that this gives the expansions of the pattern, and what these are.
-/

namespace SelfTypeLint.Braces

open Text

/-- What can go wrong in expanding by offsets. -/
inductive Fault
  /-- More braces are closed than were opened. -/
  | depthBelowZero
  /-- A range is reversed, past the end, or cuts a character. -/
  | badRange
  deriving DecidableEq, Repr

/-- The offsets at which a group is closed and its commas stand. -/
structure Ends where
  close : Nat
  commas : List Nat
  deriving DecidableEq, Repr

/-- The offset of the first open brace. -/
def openAt? : List Char → Option Nat
  | [] => none
  | c :: cs => if c = '\x7b' then some 0 else (openAt? cs).map (c.utf8Size + ·)

/-- Reads the text at an offset, at a depth of open braces, until the depth is zero again; none at the end
of the text. Commas count at depth one. -/
def scan : Nat → Nat → List Nat → List Char → Except Fault (Option Ends)
  | _, _, _, [] => .ok none
  | depth, offset, commas, c :: cs =>
    let next := offset + c.utf8Size
    if c = '\x7b' then scan (depth + 1) next commas cs
    else if c = '\x7d' then
      if depth = 0 then .error .depthBelowZero
      else if depth = 1 then .ok (some ⟨offset, commas⟩)
      else scan (depth - 1) next commas cs
    else if c = ',' ∧ depth = 1 then scan depth next (commas ++ [offset]) cs
    else scan depth next commas cs

/-- The text of a range. -/
def cut (start stop : Nat) (cs : List Char) : Except Fault (List Char) :=
  match slice? start stop cs with
  | some text => .ok text
  | none => .error .badRange

/-- The pieces of a pattern. -/
inductive Pieces
  /-- No group is closed. -/
  | plain
  /-- A group without a comma, which is kept. -/
  | kept (front group rest : List Char)
  | choice (front : List Char) (alternatives : List (List Char)) (rest : List Char)
  deriving DecidableEq, Repr

/-- The texts between an offset and each of the offsets after it, without the bytes at these offsets. -/
def cutBetween (cs : List Char) : Nat → List Nat → Except Fault (List (List Char))
  | _, [] => .ok []
  | start, stop :: bounds => do
    let text ← cut (start + 1) stop cs
    let texts ← cutBetween cs stop bounds
    return text :: texts

/-- The pieces of a pattern whose first group begins and ends at given offsets. -/
def piecesAt (start : Nat) (ends : Ends) (cs : List Char) : Except Fault Pieces := do
  let front ← cut 0 start cs
  let rest ← cut (ends.close + 1) (byteSize cs) cs
  if ends.commas = [] then
    let group ← cut start (ends.close + 1) cs
    return .kept front group rest
  else
    let alternatives ← cutBetween cs start (ends.commas ++ [ends.close])
    return .choice front alternatives rest

/-- The pieces of a pattern. -/
def pieces (cs : List Char) : Except Fault Pieces :=
  match openAt? cs with
  | none => .ok .plain
  | some start => do
    let tail ← cut start (byteSize cs) cs
    match ← scan 0 start [] tail with
    | none => return .plain
    | some ends => piecesAt start ends cs

/-! ### The offsets of a group -/

theorem intercalate_cons_cons (first second : List Char) (others : List (List Char)) :
    [','].intercalate (first :: second :: others) =
      first ++ ',' :: [','].intercalate (second :: others) := by
  simp [List.intercalate]

/-- The offsets of the commas between alternatives of which the first stands at an offset. -/
def commasAt : Nat → List Char → List (List Char) → List Nat
  | _, _, [] => []
  | offset, first, second :: others =>
    (offset + byteSize first) :: commasAt (offset + byteSize first + 1) second others

theorem commasAt_cons (offset : Nat) (c : Char) (first : List Char) (others : List (List Char)) :
    commasAt offset (c :: first) others = commasAt (offset + c.utf8Size) first others := by
  cases others <;> simp [commasAt, Nat.add_assoc]

theorem commasAt_eq_nil_iff {offset : Nat} {first : List Char} {others : List (List Char)} :
    commasAt offset first others = [] ↔ others = [] := by
  cases others <;> simp [commasAt]

namespace Group

/-- The text of a group between its braces. -/
def inner (g : Group) : List Char := [','].intercalate g.alternatives

/-- The offsets of the ends of a group whose text stands at an offset. -/
def endsAt (g : Group) (offset : Nat) : Ends :=
  ⟨offset + byteSize g.inner, commasAt offset g.first g.others⟩

theorem inner_cons (c : Char) (g : Group) : (g.cons c).inner = c :: g.inner := by
  cases h : g.others <;> simp [inner, cons, alternatives, h, List.intercalate]

theorem inner_split (g : Group) : g.split.inner = ',' :: g.inner :=
  intercalate_cons_cons [] g.first g.others

theorem endsAt_cons (c : Char) (g : Group) (offset : Nat) :
    (g.cons c).endsAt offset = g.endsAt (offset + c.utf8Size) := by
  rw [endsAt, inner_cons, byteSize_cons, ← Nat.add_assoc, endsAt, ← commasAt_cons]
  rfl

theorem endsAt_split (g : Group) (offset : Nat) :
    g.split.endsAt offset =
      ⟨(g.endsAt (offset + 1)).close, offset :: (g.endsAt (offset + 1)).commas⟩ := by
  have hsize : ','.utf8Size = 1 := rfl
  rw [endsAt, inner_split, byteSize_cons, hsize, ← Nat.add_assoc]
  rfl

end Group

/-- The text that is read is that of the group, its closing brace and the rest. -/
theorem eq_of_group? {depth : Nat} {cs : List Char} {g : Group} (h : group? depth cs = some g) :
    cs = g.inner ++ '\x7d' :: g.rest := by
  induction cs generalizing depth g with
  | nil => simp [group?] at h
  | cons c cs ih =>
    have hcons : ∀ depth, (group? depth cs).map (.cons c) = some g →
        c :: cs = g.inner ++ '\x7d' :: g.rest := by
      intro depth hmap
      obtain ⟨g', hg, rfl⟩ := Option.map_eq_some_iff.1 hmap
      rw [Group.inner_cons, List.cons_append, ih hg]
      rfl
    rw [group?] at h
    split at h
    · exact hcons _ h
    · split at h
      · next hclose =>
        split at h
        · obtain rfl := Option.some.inj h
          rw [hclose]
          rfl
        · exact hcons _ h
      · split at h
        · next hcomma =>
          obtain ⟨g', hg, rfl⟩ := Option.map_eq_some_iff.1 h
          rw [Group.inner_split, List.cons_append, hcomma.1, ih hg]
          rfl
        · exact hcons _ h

/-- Reading by offsets finds the ends of the group that is read, after the commas found before, and never
counts below zero. -/
theorem scan_eq (depth offset : Nat) (commas : List Nat) (cs : List Char) :
    scan (depth + 1) offset commas cs = .ok ((group? depth cs).map fun g =>
      ⟨(g.endsAt offset).close, commas ++ (g.endsAt offset).commas⟩) := by
  induction cs generalizing depth offset commas with
  | nil => rfl
  | cons c cs ih =>
    -- A character that is kept moves the offset.
    have hcons : ∀ depth : Nat, scan (depth + 1) (offset + c.utf8Size) commas cs =
        .ok (((group? depth cs).map (Group.cons c)).map fun g =>
          ⟨(g.endsAt offset).close, commas ++ (g.endsAt offset).commas⟩) := by
      intro depth
      rw [ih, Option.map_map]
      simp only [Function.comp_def, Group.endsAt_cons]
    rw [scan, group?]
    split
    · exact hcons (depth + 1)
    · split
      · rw [if_neg (Nat.succ_ne_zero depth)]
        cases depth with
        | zero => simp [Group.endsAt, Group.inner, Group.alternatives, commasAt]
        | succ depth => exact hcons depth
      · by_cases hcomma : c = ',' ∧ depth = 0
        · obtain ⟨rfl, rfl⟩ := hcomma
          have hsize : ','.utf8Size = 1 := rfl
          rw [if_pos ⟨rfl, rfl⟩, if_pos ⟨rfl, rfl⟩, ih, Option.map_map, hsize]
          simp only [Function.comp_def, Group.endsAt_split, List.append_assoc, List.singleton_append]
        · have hdeep : ¬(c = ',' ∧ depth + 1 = 1) := fun h => hcomma ⟨h.1, Nat.succ.inj h.2⟩
          rw [if_neg hcomma, if_neg hdeep]
          exact hcons depth

/-! ### Cutting at the offsets -/

theorem cut_append (front middle back : List Char) :
    cut (byteSize front) (byteSize front + byteSize middle) (front ++ (middle ++ back)) = .ok middle := by
  rw [cut, slice?_append]

theorem openAt?_eq_none {cs : List Char} (h : '\x7b' ∉ cs) : openAt? cs = none := by
  induction cs with
  | nil => rfl
  | cons c cs ih =>
    obtain ⟨hc, hcs⟩ := List.ne_and_not_mem_of_not_mem_cons h
    rw [openAt?, if_neg hc.symm, ih hcs]
    rfl

theorem openAt?_append {front : List Char} (h : '\x7b' ∉ front) (back : List Char) :
    openAt? (front ++ '\x7b' :: back) = some (byteSize front) := by
  induction front with
  | nil => rfl
  | cons c front ih =>
    obtain ⟨hc, hfront⟩ := List.ne_and_not_mem_of_not_mem_cons h
    rw [List.cons_append, openAt?, if_neg hc.symm, ih hfront]
    rfl

/-- Between the offsets of its ends and its commas stand the alternatives of a group. The character before
the first of them has one byte. -/
theorem cutBetween_eq (others : List (List Char)) (before first after : List Char) (c : Char)
    (hc : c.utf8Size = 1) :
    let text := [','].intercalate (first :: others)
    cutBetween (before ++ c :: (text ++ after)) (byteSize before)
        (commasAt (byteSize before + 1) first others ++ [byteSize before + 1 + byteSize text]) =
      .ok (first :: others) := by
  induction others generalizing before first c with
  | nil =>
    have hcut := cut_append (before ++ [c]) first after
    have htext : [','].intercalate [first] = first := by simp
    rw [byteSize_append, byteSize_cons, byteSize_nil, hc, List.append_assoc,
      List.singleton_append] at hcut
    simp only [htext, commasAt, List.nil_append, cutBetween, hcut]
    rfl
  | cons second others ih =>
    have hcut := cut_append (before ++ [c]) first
      (',' :: ([','].intercalate (second :: others) ++ after))
    have hrest := ih (before ++ c :: first) second ',' rfl
    have hcomma : ','.utf8Size = 1 := rfl
    rw [byteSize_append, byteSize_cons, byteSize_nil, hc, List.append_assoc,
      List.singleton_append] at hcut
    simp only [byteSize_append, byteSize_cons, hc, List.append_assoc, List.cons_append,
      ← Nat.add_assoc] at hrest hcut
    simp only [intercalate_cons_cons, commasAt, List.cons_append, cutBetween, List.append_assoc,
      byteSize_append, byteSize_cons, hcomma, ← Nat.add_assoc, hcut, hrest]
    rfl

/-! ### The pieces of a pattern -/

/-- A pattern has the pieces with which it is expanded. -/
inductive PiecesOf (cs : List Char) : Pieces → Prop
  | plain (h : expand cs = [cs]) : PiecesOf cs .plain
  | kept {front group rest : List Char} (hrest : rest.length < cs.length)
    (h : expand cs = (expand rest).map fun tail => front ++ group ++ tail) :
    PiecesOf cs (.kept front group rest)
  | choice {front : List Char} {alternatives : List (List Char)} {rest : List Char}
    (hrest : rest.length < cs.length) (halternatives : ∀ a ∈ alternatives, a.length < cs.length)
    (h : expand cs = alternatives.flatMap fun a =>
      (expand a).flatMap fun head => (expand rest).map fun tail => front ++ head ++ tail) :
    PiecesOf cs (.choice front alternatives rest)

/-- A group that is read is cut out of the pattern. -/
theorem piecesAt_eq {front back : List Char} {g : Group} (h : group? 0 back = some g) :
    piecesAt (byteSize front) (g.endsAt (byteSize front + 1)) (front ++ '\x7b' :: back) =
      .ok (if g.others = [] then .kept front ('\x7b' :: (g.first ++ ['\x7d'])) g.rest
        else .choice front g.alternatives g.rest) := by
  obtain rfl := eq_of_group? h
  have hopen : '\x7b'.utf8Size = 1 := rfl
  have hclose : '\x7d'.utf8Size = 1 := rfl
  have hfront := cut_append [] front ('\x7b' :: (g.inner ++ '\x7d' :: g.rest))
  have hrest := cut_append (front ++ '\x7b' :: (g.inner ++ ['\x7d'])) g.rest []
  have hgroup := cut_append front ('\x7b' :: (g.inner ++ ['\x7d'])) g.rest
  have hbetween := cutBetween_eq g.others front g.first ('\x7d' :: g.rest) '\x7b' rfl
  simp only [List.nil_append, List.append_nil, List.append_assoc, List.cons_append, byteSize_append,
    byteSize_cons, byteSize_nil, hopen, hclose, Nat.add_zero, Nat.zero_add, ← Nat.add_assoc]
    at hfront hrest hgroup
  have hsize : byteSize (front ++ '\x7b' :: (g.inner ++ '\x7d' :: g.rest)) =
      byteSize front + 1 + byteSize g.inner + 1 + byteSize g.rest := by
    simp only [byteSize_append, byteSize_cons, hopen, hclose, ← Nat.add_assoc]
  rw [piecesAt, Group.endsAt, hsize, hfront, hrest]
  simp only [Except.bind, bind, commasAt_eq_nil_iff]
  split
  · next hnone =>
    have hinner : g.inner = g.first := by
      rw [Group.inner, Group.alternatives, hnone]
      simp
    rw [hinner] at hgroup ⊢
    rw [hgroup]
    rfl
  · have halternatives : cutBetween (front ++ '\x7b' :: (g.inner ++ '\x7d' :: g.rest)) (byteSize front)
        (commasAt (byteSize front + 1) g.first g.others ++ [byteSize front + 1 + byteSize g.inner]) =
        .ok g.alternatives := hbetween
    rw [halternatives]
    rfl

/-- The pieces around the first group are those with which a pattern is expanded. -/
theorem piecesOf_group {front back : List Char} {g : Group} (hfront : '\x7b' ∉ front)
    (h : group? 0 back = some g) :
    PiecesOf (front ++ '\x7b' :: back)
      (if g.others = [] then .kept front ('\x7b' :: (g.first ++ ['\x7d'])) g.rest
        else .choice front g.alternatives g.rest) := by
  have hrest := length_rest_lt_of_group? h
  have hexpand := (expand_append hfront _).trans
    (congrArg (List.map (front ++ ·)) (expand_cons_open h))
  split
  · next hnone =>
    rw [if_pos hnone, List.map_map] at hexpand
    refine .kept (by simp; omega) (hexpand.trans (List.map_congr_left fun tail _ => ?_))
    simp
  · next hsome =>
    rw [if_neg hsome] at hexpand
    refine .choice (by simp; omega) (fun a ha => ?_) (hexpand.trans ?_)
    · have := length_add_lt_of_group? h a ha
      simp
      omega
    · simp [List.map_flatMap, Function.comp_def]

/-- Every pattern is cut in pieces without a fault. -/
theorem exists_pieces (cs : List Char) : ∃ p, pieces cs = .ok p ∧ PiecesOf cs p := by
  by_cases hmem : '\x7b' ∈ cs
  · obtain ⟨front, back, rfl, hfront⟩ := List.eq_append_cons_of_mem hmem
    have htail := cut_append front ('\x7b' :: back) []
    have hscan : scan 0 (byteSize front) [] ('\x7b' :: back) =
        .ok ((group? 0 back).map fun g => g.endsAt (byteSize front + 1)) := by
      rw [scan, if_pos rfl, scan_eq]
      rfl
    rw [List.append_nil, ← byteSize_append] at htail
    rw [pieces, openAt?_append hfront]
    simp only [htail, Except.bind, bind, hscan]
    cases hgroup : group? 0 back with
    | none =>
      refine ⟨.plain, rfl, .plain ?_⟩
      rw [expand_append hfront, expand_open_of_none hgroup]
      rfl
    | some g => exact ⟨_, piecesAt_eq hgroup, piecesOf_group hfront hgroup⟩
  · exact ⟨.plain, by rw [pieces, openAt?_eq_none hmem], .plain (expand_of_not_mem hmem)⟩

-- The offsets count bytes, the pieces hold characters.
example : pieces ['é', '\x7b', 'a', ',', '\x7d', 'b'] = .ok (.choice ['é'] [['a'], []] ['b']) := rfl

theorem piecesOf_pieces {cs : List Char} {p : Pieces} (h : pieces cs = .ok p) : PiecesOf cs p := by
  obtain ⟨p', hp', hof⟩ := exists_pieces cs
  rw [h] at hp'
  exact Except.ok.inj hp' ▸ hof

/-- The patterns that a pattern with groups stands for, found by offsets. -/
def expandByOffsets (cs : List Char) : Except Fault (List (List Char)) :=
  match _h : pieces cs with
  | .error fault => .error fault
  | .ok .plain => .ok [cs]
  | .ok (.kept front group rest) => do
    let tails ← expandByOffsets rest
    return tails.map fun tail => front ++ group ++ tail
  | .ok (.choice front alternatives rest) => do
    let texts ← alternatives.attach.mapM fun ⟨a, _ha⟩ => do
      let heads ← expandByOffsets a
      let tails ← expandByOffsets rest
      return heads.flatMap fun head => tails.map fun tail => front ++ head ++ tail
    return texts.flatten
  termination_by cs.length
  decreasing_by
    · cases piecesOf_pieces _h with
      | kept hrest _ => exact hrest
    · cases piecesOf_pieces _h with
      | choice _ halternatives _ => exact halternatives a _ha
    · cases piecesOf_pieces _h with
      | choice hrest _ _ => exact hrest

theorem mapM_attach_ok {α β : Type} {l : List α} {f : { a // a ∈ l } → Except Fault β} {g : α → β}
    (h : ∀ a ha, f ⟨a, ha⟩ = .ok (g a)) : l.attach.mapM f = .ok (l.map g) := by
  have hf : f = fun x => pure (g x.1) := funext fun x => h x.1 x.2
  rw [hf, List.mapM_pure, List.attach_map_val]
  rfl

/-- Expanding by offsets has no fault, and gives the expansions. -/
theorem expandByOffsets_eq (cs : List Char) : expandByOffsets cs = .ok (expand cs) := by
  fun_induction expandByOffsets cs with
  | case1 cs fault h =>
    obtain ⟨p, hp, -⟩ := exists_pieces cs
    rw [h] at hp
    cases hp
  | case2 cs h =>
    cases piecesOf_pieces h with
    | plain hexpand => rw [hexpand]
  | case3 cs front group rest h ih =>
    cases piecesOf_pieces h with
    | kept _ hexpand =>
      rw [hexpand, ih]
      rfl
  | case4 cs front alternatives rest h ihhead ihrest =>
    cases piecesOf_pieces h with
    | choice _ _ hexpand =>
      rw [hexpand, List.flatMap_def, mapM_attach_ok (g := fun a => (expand a).flatMap fun head =>
        (expand rest).map fun tail => front ++ head ++ tail)]
      · rfl
      · intro a ha
        simp only [ihhead a ha, ihrest]
        rfl

/-- The expansions of a pattern are what it stands for, each choice once and in the order of the alternatives
chosen; of no text does expanding by offsets have a fault, and a text whose first open brace is never closed
stands for itself. -/
theorem expand_correct :
    (∀ p : Pattern false, ∃ selections : List (List Nat × List Char),
      expand p.written = selections.map Prod.snd ∧
      (∀ numbers text, (numbers, text) ∈ selections ↔ Chooses p numbers text) ∧
      (selections.map Prod.fst).Pairwise Before) ∧
    (∀ cs, expandByOffsets cs = .ok (expand cs)) ∧
    ∀ front back, '\x7b' ∉ front → Unclosed back →
      expand (front ++ '\x7b' :: back) = [front ++ '\x7b' :: back] := by
  refine ⟨fun p => ⟨p.selections, expand_written p, mem_selections_iff p, ?_⟩, expandByOffsets_eq,
    fun _ _ => expand_of_unclosed⟩
  rw [List.pairwise_map]
  exact pairwise_selections p

end SelfTypeLint.Braces
