import SelfTypeLint.Proofs.Reader.Run
import SelfTypeLint.Proofs.Token.Tiles

/-!
# Moves of the reading position

A reading step only moves the cursor on: it consumes a list of tokens, and may add to the identifiers
and the errors met. `Cursor.Moved` says which tokens, identifiers and errors these are. `Cursor.Ready`
is what every cursor on the way through a file satisfies.
-/

namespace SelfTypeLint

namespace Token

/-- The kind of the token at a place of a list; past its end that of the end of the file. -/
def kindAt (ts : List Token) (n : Nat) : TokenKind := (ts[n]?.map (·.kind)).getD .eof

/-- Holds of tokens that begin with an identifier of this spelling. -/
def wordAt (word : String) (ts : List Token) : Bool :=
  ts.head?.any fun t => t.kind = .ident && t.text == word

/-- The identifiers among tokens. -/
def idents (ts : List Token) : List Ident :=
  ts.filterMap fun t => if t.kind = .ident then some ⟨identName t.text, t.span⟩ else none

theorem mem_idents_iff {ts : List Token} {i : Ident} :
    i ∈ idents ts ↔ ∃ t ∈ ts, t.kind = .ident ∧ i = ⟨identName t.text, t.span⟩ := by
  rw [idents, List.mem_filterMap]
  constructor
  · rintro ⟨t, ht, hi⟩
    split at hi
    · next hk => exact ⟨t, ht, hk, (Option.some.inj hi).symm⟩
    · exact absurd hi (by simp)
  · rintro ⟨t, ht, hk, rfl⟩
    exact ⟨t, ht, if_pos hk⟩

/-- Where the first of some tokens begins. -/
def startOf (ts : List Token) : Nat := (ts.head?.map (·.span.start)).getD 0

/-- Where the last of some tokens ends; `prev` without any. -/
def stopOf (prev : Nat) (ts : List Token) : Nat := (ts.getLast?.map (·.span.stop)).getD prev

/-- From the first of some tokens to the last. -/
def spanOf (ts : List Token) : Span := ⟨startOf ts, stopOf 0 ts⟩

@[simp] theorem kindAt_nil (n : Nat) : kindAt [] n = .eof := rfl

@[simp] theorem kindAt_cons_zero (t : Token) (ts : List Token) : kindAt (t :: ts) 0 = t.kind := rfl

@[simp] theorem kindAt_cons_succ (t : Token) (ts : List Token) (n : Nat) :
    kindAt (t :: ts) (n + 1) = kindAt ts n := rfl

@[simp] theorem idents_nil : idents [] = [] := rfl

@[simp] theorem idents_append (ts us : List Token) : idents (ts ++ us) = idents ts ++ idents us := by
  simp [idents]

theorem idents_cons_of_ident {t : Token} (h : t.kind = .ident) (ts : List Token) :
    idents (t :: ts) = ⟨identName t.text, t.span⟩ :: idents ts := by
  simp [idents, h]

theorem idents_cons_of_ne {t : Token} (h : t.kind ≠ .ident) (ts : List Token) :
    idents (t :: ts) = idents ts := by
  simp [idents, h]

theorem idents_eq_nil {ts : List Token} (h : ∀ t ∈ ts, t.kind ≠ .ident) : idents ts = [] := by
  rw [idents, List.filterMap_eq_nil_iff]
  intro t ht
  rw [if_neg (h t ht)]

@[simp] theorem startOf_cons (t : Token) (ts : List Token) : startOf (t :: ts) = t.span.start := rfl

theorem startOf_append {ts : List Token} (h : ts ≠ []) (us : List Token) :
    startOf (ts ++ us) = startOf ts := by
  cases ts with
  | nil => exact absurd rfl h
  | cons t ts => rfl

@[simp] theorem stopOf_nil (prev : Nat) : stopOf prev [] = prev := rfl

@[simp] theorem stopOf_concat (prev : Nat) (ts : List Token) (t : Token) :
    stopOf prev (ts ++ [t]) = t.span.stop := by
  simp [stopOf]

@[simp] theorem stopOf_append (prev : Nat) (ts us : List Token) :
    stopOf prev (ts ++ us) = stopOf (stopOf prev ts) us := by
  simp only [stopOf, List.getLast?_append]
  cases us.getLast? <;> simp

@[simp] theorem stopOf_cons (prev : Nat) (t : Token) (ts : List Token) :
    stopOf prev (t :: ts) = stopOf t.span.stop ts := by
  rw [show t :: ts = [t] ++ ts from rfl, stopOf_append]
  rfl

/-- What stands before nonempty tokens does not matter to where they end. -/
theorem stopOf_of_ne_nil {ts : List Token} (h : ts ≠ []) (m n : Nat) : stopOf m ts = stopOf n ts := by
  cases ts with
  | nil => exact absurd rfl h
  | cons t ts => simp

theorem wordAt_singleton {word : String} {t : Token} {ts : List Token} :
    wordAt word [t] = wordAt word (t :: ts) := rfl

theorem kind_of_wordAt {word : String} {t : Token} (h : wordAt word [t] = true) :
    t.kind = .ident := by
  simp only [wordAt, List.head?_cons, Option.any_some, Bool.and_eq_true, decide_eq_true_eq] at h
  exact h.1

theorem kindAt_append_left {ts : List Token} (h : ts ≠ []) (us : List Token) :
    kindAt (ts ++ us) 0 = kindAt ts 0 := by
  cases ts with
  | nil => exact absurd rfl h
  | cons t ts => rfl

/-- Tokens that stand one after another end at or after the place they stand after. -/
theorem Placed.le_stopOf {offset : Nat} {ts : List Token} (h : Placed offset ts) :
    offset ≤ stopOf offset ts := by
  induction ts generalizing offset with
  | nil => exact Nat.le_refl _
  | cons t ts ih =>
    have h1 := h.1
    have h2 := h.2.1
    have := ih h.2.2
    rw [stopOf_cons]
    omega

theorem Placed.append_right_stopOf {offset : Nat} {ts us : List Token}
    (h : Placed offset (ts ++ us)) : Placed (stopOf offset ts) us := by
  induction ts generalizing offset with
  | nil => exact h
  | cons t ts ih => rw [stopOf_cons]; exact ih h.2.2

/-- Tokens begin where those after them do, or before. -/
theorem Placed.startOf_le {offset : Nat} {ts us : List Token} (h : Placed offset (ts ++ us))
    (hne : us ≠ []) : startOf (ts ++ us) ≤ startOf us := by
  cases us with
  | nil => exact absurd rfl hne
  | cons u us =>
    cases ts with
    | nil => exact Nat.le_refl _
    | cons t ts =>
      have hu := (h.2.2.start_le (List.mem_append_right ts (List.mem_cons_self (a := u)))).1
      have ht := h.2.1
      rw [List.cons_append, startOf_cons, startOf_cons]
      omega

/-- What covers two tokens reaches from the start of the first to the end of the last. -/
theorem Placed.merge_eq {offset : Nat} {o b : Token} {ts : List Token} (h : Placed offset (o :: ts))
    (hb : b ∈ ts) : o.span.merge b.span = ⟨o.span.start, b.span.stop⟩ := by
  have ho := h.2.1
  have hb := h.2.2.start_le hb
  simp only [Span.merge, Span.mk.injEq]
  omega

end Token

namespace Cursor

open Token

/-- Holds if the cursor `d` stands after some tokens that follow `c`, with some identifiers and
errors added. -/
structure Moved (c : Cursor) (ts : List Token) (is : List Ident) (es : List ParseError)
    (d : Cursor) : Prop where
  source : d.source = c.source
  eof : d.eof = c.eof
  ahead : c.ahead = ts ++ d.ahead
  prevEnd : d.prevEnd = stopOf c.prevEnd ts
  idents : d.idents = is.reverse ++ c.idents
  errors : d.errors = es.reverse ++ c.errors

/-- Holds if the cursor `d` stands after some tokens that follow `c`, with their identifiers added. -/
abbrev Took (c : Cursor) (ts : List Token) (d : Cursor) : Prop := c.Moved ts (Token.idents ts) [] d

/-- What holds of the cursors on the way through a file. -/
structure Ready (c : Cursor) : Prop where
  eof : c.eof.kind = .eof
  ahead : ∀ t ∈ c.ahead, t.kind ≠ .eof
  placed : Placed c.prevEnd c.ahead

theorem Moved.refl (c : Cursor) : c.Moved [] [] [] c := ⟨rfl, rfl, rfl, rfl, rfl, rfl⟩

theorem Moved.trans {c d e : Cursor} {ts us : List Token} {is js : List Ident}
    {es fs : List ParseError} (h : c.Moved ts is es d) (h' : d.Moved us js fs e) :
    c.Moved (ts ++ us) (is ++ js) (es ++ fs) e where
  source := h'.source.trans h.source
  eof := h'.eof.trans h.eof
  ahead := by rw [h.ahead, h'.ahead, List.append_assoc]
  prevEnd := by rw [h'.prevEnd, h.prevEnd, stopOf_append]
  idents := by rw [h'.idents, h.idents, List.reverse_append, List.append_assoc]
  errors := by rw [h'.errors, h.errors, List.reverse_append, List.append_assoc]

/-- Reporting a fault stays at the place. -/
theorem moved_report (c : Cursor) (e : ParseError) : c.Moved [] [] [e] (c.report e) :=
  ⟨rfl, rfl, rfl, rfl, rfl, rfl⟩

theorem Took.refl (c : Cursor) : c.Took [] c := Moved.refl c

theorem Took.trans {c d e : Cursor} {ts us : List Token} (h : c.Took ts d) (h' : d.Took us e) :
    c.Took (ts ++ us) e := by
  have := Moved.trans h h'
  rwa [← idents_append] at this

theorem Moved.ready {c d : Cursor} {ts : List Token} {is : List Ident} {es : List ParseError}
    (h : c.Moved ts is es d) (hc : c.Ready) : d.Ready where
  eof := by rw [h.eof]; exact hc.eof
  ahead := fun t ht => hc.ahead t (by rw [h.ahead]; exact List.mem_append_right _ ht)
  placed := by
    rw [h.prevEnd]
    exact (h.ahead ▸ hc.placed).append_right_stopOf

theorem Moved.length_le {c d : Cursor} {ts : List Token} {is : List Ident} {es : List ParseError}
    (h : c.Moved ts is es d) : c.ahead.length = ts.length + d.ahead.length := by
  rw [h.ahead, List.length_append]

theorem ready_ofSource (source : String) : (ofSource source).Ready where
  eof := eof_ofSource source
  ahead := fun _ ht => kind_ne_eof_of_mem_ofSource ht
  placed := placed_ofSource source

/-! ## The next token -/

theorem current_of_cons {c : Cursor} {t : Token} {ts : List Token} (h : c.ahead = t :: ts) :
    c.current = t := by
  simp [current, h]

theorem Ready.kind_eq {c : Cursor} (h : c.Ready) : c.kind = kindAt c.ahead 0 := by
  unfold kind current
  cases hc : c.ahead with
  | nil => simpa using h.eof
  | cons t ts => rfl

theorem Ready.atWord_eq {c : Cursor} (h : c.Ready) (word : String) :
    c.atWord word = wordAt word c.ahead := by
  unfold atWord kind current wordAt
  cases hc : c.ahead with
  | nil => simp [h.eof]
  | cons t ts => rfl

theorem current_start_eq {c : Cursor} (h : c.ahead ≠ []) :
    c.current.span.start = startOf c.ahead := by
  cases hc : c.ahead with
  | nil => exact absurd hc h
  | cons t ts => rw [current_of_cons hc, startOf_cons]

theorem peek_eq (c : Cursor) (n : Nat) : c.peek n = kindAt c.ahead n := rfl

theorem took_bump {c : Cursor} {t : Token} {ts : List Token} (h : c.ahead = t :: ts) :
    c.Took [t] c.bump where
  source := by simp [bump, h]
  eof := by simp [bump, h]
  ahead := by simp [bump, h]
  prevEnd := by simp [bump, h]
  idents := by
    simp only [bump, h]
    by_cases hk : t.kind = .ident
    · simp [Token.idents, hk]
    · simp [Token.idents, hk]
  errors := by simp [bump, h]

/-- The end of a file stands only where no token follows. -/
theorem Ready.ahead_eq_nil {c : Cursor} (h : c.Ready) (hk : c.kind = .eof) : c.ahead = [] := by
  rw [h.kind_eq] at hk
  cases hc : c.ahead with
  | nil => rfl
  | cons t ts =>
    rw [hc] at hk
    exact absurd hk (h.ahead t (by rw [hc]; exact List.mem_cons_self))

/-- Where the next token is of a kind, it can be consumed. -/
theorem Ready.exists_cons {c : Cursor} (h : c.Ready) {k : TokenKind} (hk : c.kind = k)
    (hne : k ≠ .eof) : ∃ t, t.kind = k ∧ c.current = t ∧ c.Took [t] c.bump ∧
      c.ahead = t :: c.bump.ahead := by
  rw [h.kind_eq] at hk
  cases hc : c.ahead with
  | nil => rw [hc] at hk; exact absurd hk.symm hne
  | cons t ts =>
    rw [hc] at hk
    have hb := took_bump hc
    refine ⟨t, hk, current_of_cons hc, hb, ?_⟩
    rw [← hc]
    exact hb.ahead

theorem took_advance {c : Cursor} {ts rest : List Token} (h : c.ahead = ts ++ rest) :
    c.Took ts (c.advance ts.length) := by
  induction ts generalizing c with
  | nil => exact Took.refl c
  | cons t ts ih =>
    have hb := took_bump (c := c) h
    have := ih (c := c.bump) (by have := hb.ahead; rw [h] at this; simpa using this.symm)
    exact Took.trans hb this

/-- Consuming as many tokens as a measure of those ahead says. -/
theorem took_advance_take (c : Cursor) {n : Nat} (h : n ≤ c.ahead.length) :
    c.Took (c.ahead.take n) (c.advance n) := by
  have := took_advance (c := c) (List.take_append_drop n c.ahead).symm
  rwa [List.length_take, Nat.min_eq_left h] at this

theorem took_skipWhile (c : Cursor) (p : Token → Bool) :
    c.Took (c.ahead.takeWhile p) (c.skipWhile p) :=
  took_advance (List.takeWhile_append_dropWhile (p := p)).symm

theorem ahead_skipWhile (c : Cursor) (p : Token → Bool) :
    (c.skipWhile p).ahead = c.ahead.dropWhile p := by
  have h := (c.took_skipWhile p).ahead
  have hsplit := List.takeWhile_append_dropWhile (p := p) (l := c.ahead)
  exact (List.append_cancel_left (hsplit.trans h)).symm

/-- Moving on never goes back. -/
theorem Moved.prevEnd_le {c d : Cursor} {ts : List Token} {is : List Ident} {es : List ParseError}
    (h : c.Moved ts is es d) (hc : c.Ready) : c.prevEnd ≤ d.prevEnd := by
  rw [h.prevEnd]
  exact (h.ahead ▸ hc.placed).append_left.le_stopOf

/-- Where tokens were consumed, the first of them was the next. -/
theorem Moved.current_start {c d : Cursor} {ts : List Token} {is : List Ident}
    {es : List ParseError} (h : c.Moved ts is es d) (hne : ts ≠ []) :
    c.current.span.start = startOf ts := by
  cases ts with
  | nil => exact absurd rfl hne
  | cons t ts => rw [current_of_cons h.ahead, startOf_cons]

/-- The next token begins before what follows a move. -/
theorem Moved.current_start_le {c d : Cursor} {ts : List Token} {is : List Ident}
    {es : List ParseError} (h : c.Moved ts is es d) (hc : c.Ready) (hne : d.ahead ≠ []) :
    c.current.span.start ≤ startOf d.ahead := by
  have hplaced := hc.placed
  rw [h.ahead] at hplaced
  rw [current_start_eq (by rw [h.ahead]; simp [hne]), h.ahead]
  exact hplaced.startOf_le hne

/-- Tokens that were consumed begin before the place reached. -/
theorem Moved.startOf_le {c d : Cursor} {ts : List Token} {is : List Ident} {es : List ParseError}
    (h : c.Moved ts is es d) (hc : c.Ready) (hne : ts ≠ []) : startOf ts ≤ d.prevEnd := by
  cases ts with
  | nil => exact absurd rfl hne
  | cons t ts =>
    have hp := (h.ahead ▸ hc.placed).append_left
    have := hp.2.2.le_stopOf
    have := hp.2.1
    rw [h.prevEnd, stopOf_cons, startOf_cons]
    omega

theorem spanFrom_of_le {c : Cursor} {start : Nat} (h : start ≤ c.prevEnd) :
    c.spanFrom start = ⟨start, c.prevEnd⟩ := by
  rw [spanFrom, Nat.max_eq_left h]

end Cursor

end SelfTypeLint
