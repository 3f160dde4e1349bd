import SelfTypeLint.Tree.Reader.Skip

/-!
# Brackets of tokens

Brackets of all three sorts are well nested if each closing one is that of the last bracket still open.
For the curly brackets alone it is enough to count: none that is opened is left open, and as many are
closed as are opened. A skip that only counts brackets, and even one that takes no notice of them, leaves
no curly bracket open, since the tokens after it must close all that is open there.
-/

namespace SelfTypeLint.Token

/-! ## Stacks of awaited brackets -/

/-- The closing brackets awaited after a token, the next one first, where those of a stack are awaited
before it; none if the token closes another bracket. -/
def bracketStep (stack : List TokenKind) (t : Token) : Option (List TokenKind) :=
  if t.kind.isOpener then some (t.kind.closer :: stack)
  else if t.kind.isCloser then if stack.head? = some t.kind then some stack.tail else none
  else some stack

/-- The closing brackets awaited after some tokens. -/
def awaiting (stack : List TokenKind) (ts : List Token) : Option (List TokenKind) :=
  ts.foldlM bracketStep stack

/-- Holds of tokens whose round, square and curly brackets are well nested. -/
def WellNested (ts : List Token) : Prop := awaiting [] ts = some []

instance : DecidablePred WellNested := fun ts =>
  inferInstanceAs (Decidable (awaiting [] ts = some []))

theorem awaiting_nil (stack : List TokenKind) : awaiting stack [] = some stack := rfl

theorem awaiting_cons (stack : List TokenKind) (t : Token) (ts : List Token) :
    awaiting stack (t :: ts) = (bracketStep stack t).bind (awaiting · ts) := rfl

theorem awaiting_append (stack : List TokenKind) (ts us : List Token) :
    awaiting stack (ts ++ us) = (awaiting stack ts).bind (awaiting · us) := List.foldlM_append

/-- Holds of tokens that close all brackets open in front of them, and their own. -/
def Completes (ts : List Token) : Prop := ∃ stack, awaiting stack ts = some []

theorem WellNested.completes {ts : List Token} (h : WellNested ts) : Completes ts := ⟨[], h⟩

theorem Completes.of_append {ts us : List Token} (h : Completes (ts ++ us)) : Completes us := by
  obtain ⟨stack, h⟩ := h
  rw [awaiting_append] at h
  obtain ⟨stack', -, h⟩ := Option.bind_eq_some_iff.1 h
  exact ⟨stack', h⟩

theorem Completes.of_cons {t : Token} {ts : List Token} (h : Completes (t :: ts)) : Completes ts :=
  Completes.of_append (show Completes ([t] ++ ts) from h)

/-! ## Counts of curly brackets -/

/-- Holds of a curly bracket. -/
def isBrace (t : Token) : Bool := t.kind = .lbrace || t.kind = .rbrace

/-- What a token adds to the number of open curly brackets. -/
def braceStep (t : Token) : Int :=
  if t.kind = .lbrace then 1 else if t.kind = .rbrace then -1 else 0

/-- How many more curly brackets are opened among tokens than closed. -/
def braceDepth : List Token → Int
  | [] => 0
  | t :: ts => braceStep t + braceDepth ts

@[simp] theorem braceDepth_nil : braceDepth [] = 0 := rfl

@[simp] theorem braceDepth_cons (t : Token) (ts : List Token) :
    braceDepth (t :: ts) = braceStep t + braceDepth ts := rfl

@[simp] theorem braceDepth_append (ts us : List Token) :
    braceDepth (ts ++ us) = braceDepth ts + braceDepth us := by
  induction ts with
  | nil => simp
  | cons t ts ih => rw [List.cons_append, braceDepth_cons, braceDepth_cons, ih, Int.add_assoc]

theorem braceStep_lbrace {t : Token} (h : t.kind = .lbrace) : braceStep t = 1 := by
  simp [braceStep, h]

theorem braceStep_rbrace {t : Token} (h : t.kind = .rbrace) : braceStep t = -1 := by
  simp [braceStep, h]

theorem braceStep_le {t : Token} (h : t.kind ≠ .lbrace) : braceStep t ≤ 0 := by
  rw [braceStep, if_neg h]
  split <;> omega

theorem braceStep_eq_zero {t : Token} (h : isBrace t = false) : braceStep t = 0 := by
  simp only [isBrace, Bool.or_eq_false_iff, decide_eq_false_iff_not] at h
  simp [braceStep, h]

/-- Holds of tokens that leave none of the curly brackets open that they open. -/
def Shut (ts : List Token) : Prop := ∀ us, us <:+ ts → braceDepth us ≤ 0

/-- Holds of tokens that open and close the same curly brackets. -/
structure Balanced (ts : List Token) : Prop where
  shut : Shut ts
  depth : braceDepth ts = 0

theorem Shut.depth_le {ts : List Token} (h : Shut ts) : braceDepth ts ≤ 0 := h ts (List.suffix_refl ts)

theorem shut_cons_iff {t : Token} {ts : List Token} :
    Shut (t :: ts) ↔ braceDepth (t :: ts) ≤ 0 ∧ Shut ts := by
  constructor
  · intro h
    exact ⟨h.depth_le, fun us hus => h us (hus.trans (List.suffix_cons t ts))⟩
  · rintro ⟨hall, h⟩ us hus
    rcases List.suffix_cons_iff.1 hus with rfl | hus
    · exact hall
    · exact h us hus

@[simp] theorem shut_nil : Shut [] := by
  intro us hus
  rw [List.suffix_nil.1 hus]
  exact Int.le_refl 0

theorem Shut.cons {t : Token} {ts : List Token} (ht : t.kind ≠ .lbrace) (h : Shut ts) :
    Shut (t :: ts) := by
  have hstep := braceStep_le ht
  have hdepth := h.depth_le
  refine shut_cons_iff.2 ⟨?_, h⟩
  rw [braceDepth_cons]
  omega

theorem Shut.of_append {ts us : List Token} (h : Shut (ts ++ us)) : Shut us := fun vs hvs =>
  h vs (hvs.trans (List.suffix_append ts us))

theorem Shut.append {ts us : List Token} (h : Shut ts) (h' : Shut us) : Shut (ts ++ us) := by
  induction ts with
  | nil => exact h'
  | cons t ts ih =>
    obtain ⟨hall, htail⟩ := shut_cons_iff.1 h
    have hdepth := h'.depth_le
    rw [List.cons_append]
    refine shut_cons_iff.2 ⟨?_, ih htail⟩
    rw [← List.cons_append, braceDepth_append]
    omega

theorem shut_of_forall {ts : List Token} (h : ∀ t ∈ ts, t.kind ≠ .lbrace) : Shut ts := by
  induction ts with
  | nil => exact shut_nil
  | cons t ts ih =>
    exact (ih fun u hu => h u (List.mem_cons_of_mem t hu)).cons (h t List.mem_cons_self)

/-- An opening curly bracket, tokens that leave none open, and the closing bracket. -/
theorem Shut.braces {o c : Token} {ts us : List Token} (h : Shut ts) (hc : c.kind = .rbrace)
    (hus : Shut us) : Shut (o :: (ts ++ c :: us)) := by
  have hts := h.depth_le
  have htail := hus.depth_le
  have hcus : Shut (c :: us) := hus.cons (by simp [hc])
  refine shut_cons_iff.2 ⟨?_, h.append hcus⟩
  have ho : braceStep o ≤ 1 := by
    rw [braceStep]
    split
    · omega
    · split <;> omega
  simp only [braceDepth_cons, braceDepth_append, braceStep_rbrace hc]
  omega

/-- Tokens that leave nothing open close nothing but their own, if those around them do not. -/
theorem Balanced.split {ts us : List Token} (h : Balanced (ts ++ us)) (hts : Shut ts) :
    Balanced ts ∧ Balanced us := by
  have hus := h.shut.of_append
  have h1 := hts.depth_le
  have h2 := hus.depth_le
  have hall := h.depth
  rw [braceDepth_append] at hall
  exact ⟨⟨hts, by omega⟩, ⟨hus, by omega⟩⟩

theorem Balanced.of_cons {t : Token} {ts : List Token} (h : Balanced (t :: ts))
    (ht : t.kind ≠ .lbrace) : Balanced ts :=
  (Balanced.split (show Balanced ([t] ++ ts) from h) (shut_of_forall (by simpa using ht))).2

/-- What stands between an opening curly bracket and the closing one. -/
theorem Balanced.inside {o c : Token} {ts us : List Token} (h : Balanced (o :: (ts ++ c :: us)))
    (ho : o.kind = .lbrace) (hc : c.kind = .rbrace) (hts : Shut ts) : Balanced ts ∧ Balanced us := by
  have htail := (shut_cons_iff.1 h.shut).2.of_append
  have hus := (shut_cons_iff.1 htail).2
  have h1 := hts.depth_le
  have h2 := hus.depth_le
  have hall := h.depth
  simp only [braceDepth_cons, braceDepth_append, braceStep_lbrace ho, braceStep_rbrace hc] at hall
  exact ⟨⟨hts, by omega⟩, ⟨hus, by omega⟩⟩

/-! ## Stacks and counts -/

theorem braceDepth_filter (ts : List Token) : braceDepth (ts.filter isBrace) = braceDepth ts := by
  induction ts with
  | nil => rfl
  | cons t ts ih =>
    cases ht : isBrace t with
    | true => rw [List.filter_cons_of_pos ht, braceDepth_cons, braceDepth_cons, ih]
    | false =>
      rw [List.filter_cons_of_neg (by simp [ht]), braceDepth_cons, braceStep_eq_zero ht, ih]
      omega

theorem shut_filter_iff {ts : List Token} : Shut (ts.filter isBrace) ↔ Shut ts := by
  induction ts with
  | nil => exact Iff.rfl
  | cons t ts ih =>
    cases ht : isBrace t with
    | true =>
      rw [List.filter_cons_of_pos ht, shut_cons_iff, shut_cons_iff, ih, braceDepth_cons,
        braceDepth_cons, braceDepth_filter]
    | false =>
      rw [List.filter_cons_of_neg (by simp [ht]), shut_cons_iff, ih, braceDepth_cons,
        braceStep_eq_zero ht, Int.zero_add]
      exact ⟨fun h => ⟨h.depth_le, h⟩, And.right⟩

/-- Where only curly brackets are left, the stack is a count. -/
theorem awaiting_braces_iff {ts : List Token} (h : ∀ t ∈ ts, isBrace t = true) (n : Nat) :
    awaiting (List.replicate n .rbrace) ts = some [] ↔ Shut ts ∧ braceDepth ts = -n := by
  induction ts generalizing n with
  | nil =>
    rw [awaiting_nil, braceDepth_nil, Option.some_inj, List.replicate_eq_nil_iff]
    exact ⟨fun h => ⟨shut_nil, by omega⟩, fun ⟨_, h⟩ => by omega⟩
  | cons t ts ih =>
    have ih := ih fun u hu => h u (List.mem_cons_of_mem t hu)
    have ht := h t List.mem_cons_self
    simp only [isBrace, Bool.or_eq_true, decide_eq_true_eq] at ht
    rw [awaiting_cons, shut_cons_iff, braceDepth_cons]
    rcases ht with ht | ht
    · have hstep : bracketStep (List.replicate n .rbrace) t =
          some (List.replicate (n + 1) .rbrace) := by
        simp [bracketStep, ht, TokenKind.isOpener, TokenKind.closer, List.replicate_succ]
      rw [hstep, Option.bind_some, ih (n + 1), braceStep_lbrace ht]
      exact ⟨fun ⟨hshut, hd⟩ => ⟨⟨by omega, hshut⟩, by omega⟩,
        fun ⟨⟨_, hshut⟩, hd⟩ => ⟨hshut, by omega⟩⟩
    · rw [braceStep_rbrace ht]
      cases n with
      | zero =>
        have hstep : bracketStep (List.replicate 0 .rbrace) t = none := by
          simp [bracketStep, ht, TokenKind.isOpener, TokenKind.isCloser]
        rw [hstep, Option.bind_none]
        refine ⟨fun h => absurd h (by simp), fun ⟨⟨_, hshut⟩, hd⟩ => ?_⟩
        have := hshut.depth_le
        omega
      | succ n =>
        have hstep : bracketStep (List.replicate (n + 1) .rbrace) t =
            some (List.replicate n .rbrace) := by
          simp [bracketStep, ht, TokenKind.isOpener, TokenKind.isCloser, List.replicate_succ]
        rw [hstep, Option.bind_some, ih n]
        exact ⟨fun ⟨hshut, hd⟩ => ⟨⟨by omega, hshut⟩, by omega⟩,
          fun ⟨⟨_, hshut⟩, hd⟩ => ⟨hshut, by omega⟩⟩

/-- Curly brackets are well nested if they are balanced. -/
theorem wellNested_braces_iff {ts : List Token} : WellNested (ts.filter isBrace) ↔ Balanced ts := by
  have hbraces : ∀ t ∈ ts.filter isBrace, isBrace t = true := fun t ht => (List.mem_filter.1 ht).2
  have hiff := awaiting_braces_iff hbraces 0
  rw [shut_filter_iff, braceDepth_filter] at hiff
  exact hiff.trans ⟨fun ⟨hshut, hdepth⟩ => ⟨hshut, hdepth⟩, fun h => ⟨h.shut, h.depth⟩⟩

/-- How many closing curly brackets a stack awaits. -/
def braceCount (stack : List TokenKind) : Int := stack.count .rbrace

theorem braceCount_nonneg (stack : List TokenKind) : 0 ≤ braceCount stack := Int.natCast_nonneg _

theorem braceCount_opened {t : Token} (h : t.kind.isOpener = true) (stack : List TokenKind) :
    braceCount (t.kind.closer :: stack) = braceCount stack + braceStep t := by
  rw [braceCount, braceCount, List.count_cons, braceStep]
  cases hk : t.kind <;> simp_all [TokenKind.isOpener, TokenKind.closer]

theorem braceCount_closed {t : Token} (h : t.kind ≠ .lbrace) (stack : List TokenKind) :
    braceCount stack = braceCount (t.kind :: stack) + braceStep t := by
  rw [braceCount, braceCount, List.count_cons, braceStep, if_neg h]
  by_cases hr : t.kind = .rbrace
  · simp only [hr, beq_self_eq_true, if_true]
    omega
  · simp [hr]

theorem kind_ne_lbrace_of_isOpener {t : Token} (h : t.kind.isOpener = false) : t.kind ≠ .lbrace := by
  intro hk
  simp [hk, TokenKind.isOpener] at h

theorem braceCount_bracketStep {stack stack' : List TokenKind} {t : Token}
    (h : bracketStep stack t = some stack') : braceCount stack' = braceCount stack + braceStep t := by
  rw [bracketStep] at h
  split at h
  · next ho =>
    obtain rfl := Option.some.inj h
    exact braceCount_opened ho stack
  · next ho =>
    have hk := kind_ne_lbrace_of_isOpener (by simpa using ho)
    split at h
    · split at h
      · next htop =>
        obtain ⟨stack, rfl⟩ := List.head?_eq_some_iff.1 htop
        obtain rfl := Option.some.inj h
        exact braceCount_closed hk stack
      · exact absurd h (by simp)
    · next hc =>
      obtain rfl := Option.some.inj h
      have hr : t.kind ≠ .rbrace := fun hr => hc (by simp [hr, TokenKind.isCloser])
      simp [braceStep, hk, hr]

theorem braceCount_awaiting {stack stack' : List TokenKind} {ts : List Token}
    (h : awaiting stack ts = some stack') : braceCount stack' = braceCount stack + braceDepth ts := by
  induction ts generalizing stack with
  | nil =>
    obtain rfl := Option.some.inj h
    simp
  | cons t ts ih =>
    rw [awaiting_cons] at h
    obtain ⟨next, hstep, h⟩ := Option.bind_eq_some_iff.1 h
    have h1 := braceCount_bracketStep hstep
    have h2 := ih h
    rw [braceDepth_cons]
    omega

/-- Well nested brackets close as many curly ones as they open. -/
theorem WellNested.braceDepth_eq {ts : List Token} (h : WellNested ts) : braceDepth ts = 0 := by
  have hall := braceCount_awaiting h
  simpa [braceCount] using hall.symm

/-! ## Skips -/

/-- Holds of tokens that leave no curly bracket open, neither their own nor those awaited on a stack. -/
structure Settles (stack : List TokenKind) (ts : List Token) : Prop where
  shut : Shut ts
  depth : braceCount stack + braceDepth ts ≤ 0

theorem settles_nil : Settles [] [] := ⟨shut_nil, by simp [braceCount]⟩

theorem Settles.cons {stack stack' : List TokenKind} {t : Token} {ts : List Token}
    (h : Settles stack' ts) (hstep : braceCount stack + braceStep t ≤ braceCount stack') :
    Settles stack (t :: ts) := by
  have hnonneg := braceCount_nonneg stack
  have hdepth := h.depth
  have hall : braceCount stack + braceDepth (t :: ts) ≤ 0 := by
    rw [braceDepth_cons]
    omega
  exact ⟨shut_cons_iff.2 ⟨by omega, h.shut⟩, hall⟩

/-- A group leaves no curly bracket open, whatever else it closes. -/
theorem settles_of_balancedLength? {stack : List TokenKind} {ts : List Token}
    (h : balancedLength? stack ts = some ts.length) : Settles stack ts := by
  induction ts generalizing stack with
  | nil =>
    cases stack with
    | nil => exact settles_nil
    | cons top stack => exact absurd h (by simp [balancedLength?])
  | cons t ts ih =>
    cases stack with
    | nil => exact absurd h (by simp [balancedLength?])
    | cons top stack =>
      rw [balancedLength?] at h
      obtain ⟨n, hn, he⟩ := Option.map_eq_some_iff.1 h
      obtain rfl : n = ts.length := by simpa using he
      refine (ih hn).cons ?_
      split
      · next ho => exact Int.le_of_eq (braceCount_opened ho _).symm
      · next ho =>
        have hk := kind_ne_lbrace_of_isOpener (by simpa using ho)
        split
        · next htop =>
          rw [← htop]
          exact Int.le_of_eq (braceCount_closed hk stack).symm
        · have := braceStep_le hk
          omega

/-- How many brackets are open after a token where so many are open before it. -/
def depthStep (depth : Nat) (t : Token) : Nat :=
  if t.kind.isOpener then depth + 1 else if t.kind.isCloser then depth - 1 else depth

/-- What a token does to brackets of which the inner ones are counted: a closing bracket that is not one
of them closes an outer one. -/
theorem exists_awaiting_step {inner outer : List TokenKind} {t : Token} {ts : List Token}
    (h : awaiting (inner ++ outer) (t :: ts) = some []) (hb : t.kind = .rbrace → inner ≠ []) :
    ∃ inner' outer', awaiting (inner' ++ outer') ts = some [] ∧
      inner'.length = depthStep inner.length t ∧
      braceCount inner' = braceCount inner + braceStep t := by
  rw [awaiting_cons] at h
  obtain ⟨next, hstep, h⟩ := Option.bind_eq_some_iff.1 h
  rw [bracketStep] at hstep
  rw [depthStep]
  split at hstep
  · next ho =>
    obtain rfl := Option.some.inj hstep
    exact ⟨t.kind.closer :: inner, outer, h, by simp [ho], braceCount_opened ho inner⟩
  · next ho =>
    have hk := kind_ne_lbrace_of_isOpener (by simpa using ho)
    split at hstep
    · next hc =>
      split at hstep
      · next htop =>
        obtain rfl := Option.some.inj hstep
        cases inner with
        | nil =>
          have hr : t.kind ≠ .rbrace := fun hr => hb hr rfl
          exact ⟨[], outer.tail, h, by simp [ho, hc], by simp [braceStep, hk, hr]⟩
        | cons top inner =>
          obtain rfl : top = t.kind := Option.some.inj htop
          exact ⟨inner, outer, h, by simp [ho, hc], braceCount_closed hk inner⟩
      · exact absurd hstep (by simp)
    · next hc =>
      obtain rfl := Option.some.inj hstep
      have hr : t.kind ≠ .rbrace := fun hr => hc (by simp [hr, TokenKind.isCloser])
      exact ⟨inner, outer, h, by simp [ho, hc], by simp [braceStep, hk, hr]⟩

theorem statementLength_cons {depth : Nat} {t : Token} {ts : List Token}
    (hb : ¬ (t.kind = .rbrace ∧ depth = 0)) (hs : ¬ (t.kind = .semi ∧ depth = 0)) :
    statementLength depth (t :: ts) = statementLength (depthStep depth t) ts + 1 := by
  rw [statementLength, if_neg hb, if_neg hs, depthStep]
  split
  · rfl
  · split <;> rfl

theorem memberLength_cons {depth : Nat} {t : Token} {ts : List Token}
    (hb : ¬ (t.kind = .rbrace ∧ (depth = 0 ∨ (depth = 1 ∧ ts.head?.map (·.kind) ≠ some .eq))))
    (hs : ¬ (t.kind = .semi ∧ depth = 0)) :
    memberLength depth (t :: ts) = memberLength (depthStep depth t) ts + 1 := by
  rw [memberLength, depthStep]
  by_cases hr : t.kind = .rbrace
  · have hb := fun h => hb ⟨hr, h⟩
    rw [if_pos hr, if_neg fun h => hb (.inl h), if_neg fun h => hb (.inr h)]
    simp [hr, TokenKind.isOpener, TokenKind.isCloser]
  · rw [if_neg hr, if_neg hs]
    split
    · rfl
    · split <;> rfl

/-- A skip that takes nothing is at the end of the brackets that it counts. -/
theorem settles_nil_of_length {inner outer : List TokenKind} {rest : List Token}
    {length : Nat → List Token → Nat} (hpos : ∀ n t ts, 0 < length (n + 1) (t :: ts))
    (h : awaiting (inner ++ outer) rest = some []) (hlen : length inner.length rest = 0) :
    Settles inner [] := by
  cases inner with
  | nil => exact settles_nil
  | cons top inner =>
    cases rest with
    | nil => exact absurd h (by simp [awaiting_nil])
    | cons t rest =>
      have := hpos inner.length t rest
      rw [List.length_cons] at hlen
      omega

/-- A statement leaves no curly bracket open. -/
theorem settles_of_statementLength {inner outer : List TokenKind} {ts rest : List Token}
    (h : awaiting (inner ++ outer) (ts ++ rest) = some [])
    (hlen : statementLength inner.length (ts ++ rest) = ts.length) : Settles inner ts := by
  -- the inner brackets are those that the skip has counted, so their number is its depth
  induction ts generalizing inner outer with
  | nil =>
    refine settles_nil_of_length (fun n t ts => ?_) h hlen
    rw [statementLength_cons (by simp) (by simp)]
    exact Nat.succ_pos _
  | cons t ts ih =>
    rw [List.cons_append] at h hlen
    by_cases hs : t.kind = .semi ∧ inner.length = 0
    · obtain ⟨hk, hinner⟩ := hs
      obtain rfl := List.eq_nil_of_length_eq_zero hinner
      obtain rfl : ts = [] := by simpa [statementLength, hk] using hlen.symm
      exact settles_nil.cons (by simp [braceStep, hk])
    by_cases hb : t.kind = .rbrace ∧ inner.length = 0
    · rw [statementLength, if_pos hb] at hlen
      exact absurd hlen (by simp)
    · obtain ⟨inner', outer', hnext, hlength, hbraces⟩ := exists_awaiting_step h
        fun hk hnil => hb ⟨hk, by rw [hnil]; rfl⟩
      rw [statementLength_cons hb hs, ← hlength] at hlen
      exact (ih hnext (Nat.succ.inj hlen)).cons (Int.le_of_eq hbraces.symm)

theorem memberLength_pos (n : Nat) (t : Token) (ts : List Token) :
    0 < memberLength (n + 1) (t :: ts) := by
  by_cases hb : t.kind = .rbrace ∧ (n + 1 = 0 ∨ (n + 1 = 1 ∧ ts.head?.map (·.kind) ≠ some .eq))
  · obtain ⟨hk, hn⟩ := hb
    rw [memberLength, if_pos hk, if_neg (Nat.succ_ne_zero n), if_pos (hn.resolve_left (by simp))]
    exact Nat.one_pos
  · rw [memberLength_cons hb (by simp)]
    exact Nat.succ_pos _

/-- A member of a body leaves no curly bracket open. -/
theorem settles_of_memberLength {inner outer : List TokenKind} {ts rest : List Token}
    (h : awaiting (inner ++ outer) (ts ++ rest) = some [])
    (hlen : memberLength inner.length (ts ++ rest) = ts.length) : Settles inner ts := by
  induction ts generalizing inner outer with
  | nil => exact settles_nil_of_length memberLength_pos h hlen
  | cons t ts ih =>
    rw [List.cons_append] at h hlen
    by_cases hs : t.kind = .semi ∧ inner.length = 0
    · obtain ⟨hk, hinner⟩ := hs
      obtain rfl := List.eq_nil_of_length_eq_zero hinner
      obtain rfl : ts = [] := by simpa [memberLength, hk] using hlen.symm
      exact settles_nil.cons (by simp [braceStep, hk])
    have hinner : t.kind = .rbrace → inner ≠ [] := by
      rintro hk rfl
      rw [memberLength, if_pos hk, if_pos List.length_nil] at hlen
      exact absurd hlen (by simp)
    obtain ⟨inner', outer', hnext, hlength, hbraces⟩ := exists_awaiting_step h hinner
    have hstep := Int.le_of_eq hbraces.symm
    by_cases hb : t.kind = .rbrace ∧
        (inner.length = 0 ∨ (inner.length = 1 ∧ (ts ++ rest).head?.map (·.kind) ≠ some .eq))
    · -- the closing bracket of the last open one ends the member
      obtain ⟨hk, hone⟩ := hb
      have hpos : inner.length ≠ 0 := fun h0 => hinner hk (List.eq_nil_of_length_eq_zero h0)
      have hone := hone.resolve_left hpos
      rw [memberLength, if_pos hk, if_neg hpos, if_pos hone] at hlen
      obtain rfl : ts = [] := by simpa using hlen.symm
      have hzero : inner'.length = 0 := by
        simp [hlength, depthStep, hone.1, hk, TokenKind.isOpener, TokenKind.isCloser]
      obtain rfl := List.eq_nil_of_length_eq_zero hzero
      exact settles_nil.cons hstep
    · rw [memberLength_cons hb hs, ← hlength] at hlen
      exact (ih hnext (Nat.succ.inj hlen)).cons hstep

end SelfTypeLint.Token
