import SelfTypeLint.Proofs.Reader.Moves
import SelfTypeLint.Proofs.Walk.Grammar

/-!
# Walkers and cursors

A walker mirrors a cursor if it stands before the same tokens, in a vector that ends with the token that
marks the end. `Follows f g w c` says that the walk `f` from the walker `w` has an outcome, which is that
of the reading step `g` from the cursor `c`, and ends at a walker that mirrors the cursor that `g` leaves.
The lemmas below take this apart along the way in which walks and reading steps are put together.
-/

namespace SelfTypeLint

open Token Cursor

namespace Walker

/-- Holds if a walker and a cursor stand at the same place. -/
structure Mirrors (w : Walker) (c : Cursor) : Prop where
  source : w.source = c.source
  tokens : w.tokens.drop w.pos = c.ahead ++ [c.eof]
  prevEnd : w.prevEnd = c.prevEnd
  errors : w.errors = c.errors
  idents : ∀ sink ∈ w.sinks.head?, sink = c.idents
  ready : c.Ready

/-- Holds of the walker after a walk: its text is the same, it has not gone back, and the identifiers of
outer declarations are those of before. -/
structure Onward (w w' : Walker) : Prop where
  source : w'.source = w.source
  tokens : w'.tokens = w.tokens
  pos : w.pos ≤ w'.pos
  depth : w'.sinks.length = w.sinks.length
  outer : w'.sinks.tail = w.sinks.tail

theorem Onward.refl (w : Walker) : w.Onward w := ⟨rfl, rfl, Nat.le_refl _, rfl, rfl⟩

theorem Onward.trans {u v w : Walker} (h : u.Onward v) (h' : v.Onward w) : u.Onward w :=
  ⟨h'.source.trans h.source, h'.tokens.trans h.tokens, Nat.le_trans h.pos h'.pos,
    h'.depth.trans h.depth, h'.outer.trans h.outer⟩

variable {w w' : Walker} {c c' : Cursor}

theorem Mirrors.getElem? (h : w.Mirrors c) (n : Nat) :
    w.tokens[w.pos + n]? = (c.ahead ++ [c.eof])[n]? := by
  rw [← List.getElem?_drop, h.tokens]

theorem Mirrors.current (h : w.Mirrors c) : w.tokens[w.pos]? = some c.current := by
  have := h.getElem? 0
  rw [Nat.add_zero] at this
  rw [this, Cursor.current]
  cases c.ahead <;> rfl

theorem Mirrors.peek (h : w.Mirrors c) (n : Nat) : w.peek n = c.peek n := by
  rw [Walker.peek, Cursor.peek, h.getElem?]
  rcases Nat.lt_trichotomy n c.ahead.length with hn | rfl | hn
  · rw [List.getElem?_append_left hn]
  · simp [h.ready.eof]
  · rw [List.getElem?_eq_none (by simp; omega), List.getElem?_eq_none (by omega)]

/-- A walker stands inside of its vector, as far from the end as the cursor. -/
theorem Mirrors.length (h : w.Mirrors c) : w.pos + (c.ahead.length + 1) = w.tokens.length := by
  have := congrArg List.length h.tokens
  simp only [List.length_drop, List.length_append, List.length_singleton] at this
  omega

theorem Mirrors.spanFrom (h : w.Mirrors c) (start : Nat) : w.spanFrom start = c.spanFrom start := by
  rw [Walker.spanFrom, Cursor.spanFrom, h.prevEnd]

/-- Walkers that are not behind another one have no more tokens before them. -/
theorem Onward.length_le (hw : w.Onward w') (h : w.Mirrors c) (h' : w'.Mirrors c') :
    c'.ahead.length ≤ c.ahead.length := by
  have h1 := h.length
  have h2 := h'.length
  have h3 := hw.pos
  rw [hw.tokens] at h2
  omega

/-- A walker that leaves fewer tokens before it is further on. -/
theorem Onward.pos_lt (hw : w.Onward w') (h : w.Mirrors c) (h' : w'.Mirrors c')
    (hlt : c'.ahead.length < c.ahead.length) : w.pos < w'.pos := by
  have h1 := h.length
  have h2 := h'.length
  rw [hw.tokens] at h2
  omega

/-- Cursors that a walker mirrors on its way are over one text. -/
theorem Onward.source_eq (hw : w.Onward w') (h : w.Mirrors c) (h' : w'.Mirrors c') :
    c'.source = c.source := by
  rw [← h'.source, hw.source, h.source]

theorem Mirrors.report (h : w.Mirrors c) (e : ParseError) : (w.report e).Mirrors (c.report e) :=
  ⟨h.source, h.tokens, h.prevEnd, congrArg (e :: ·) h.errors, h.idents,
    (moved_report c e).ready h.ready⟩

theorem Onward.report (w : Walker) (e : ParseError) : w.Onward (w.report e) :=
  ⟨rfl, rfl, Nat.le_refl _, rfl, rfl⟩

theorem collect_eq (i : Ident) (w : Walker) : ∃ sinks, w.collect i = { w with sinks } ∧
    sinks.length = w.sinks.length ∧ sinks.tail = w.sinks.tail ∧
    sinks.head? = w.sinks.head?.map (i :: ·) := by
  obtain ⟨source, tokens, pos, errors, sinks⟩ := w
  cases sinks with
  | nil => exact ⟨[], rfl, rfl, rfl, rfl⟩
  | cons sink outer => exact ⟨_, rfl, rfl, rfl, rfl⟩

/-- A token that is passed is consumed. -/
theorem Mirrors.pass {t : Token} {ts : List Token} (h : w.Mirrors c) (ht : c.ahead = t :: ts) :
    (w.pass t).Mirrors c.bump ∧ w.Onward (w.pass t) := by
  have htokens := h.tokens
  rw [ht] at htokens
  have hpos : w.tokens[w.pos]? = some t := by rw [h.current, current_of_cons ht]
  have hdrop : w.tokens.drop (w.pos + 1) = ts ++ [c.eof] := by
    rw [← List.drop_drop, htokens]
    rfl
  have htook := took_bump ht
  have hahead : c.bump.ahead = ts := by simpa [ht] using htook.ahead.symm
  have hprev : (w.tokens[w.pos]?.map (·.span.stop)).getD 0 = c.bump.prevEnd := by
    rw [hpos, htook.prevEnd]
    rfl
  unfold Walker.pass
  dsimp only
  split
  · next hk =>
    obtain ⟨sinks, hcollect, hlength, htail, hhead⟩ :=
      collect_eq ⟨identName t.text, t.span⟩ { w with pos := w.pos + 1 }
    rw [hcollect]
    refine ⟨⟨h.source.trans htook.source.symm, ?_, hprev, h.errors.trans htook.errors.symm, ?_,
      htook.ready h.ready⟩, ⟨rfl, rfl, Nat.le_succ _, hlength, htail⟩⟩
    · rw [hahead, htook.eof]
      exact hdrop
    · intro sink hsink
      rw [hhead] at hsink
      obtain ⟨sink', hsink', rfl⟩ := Option.map_eq_some_iff.1 hsink
      rw [h.idents sink' hsink', htook.idents, Token.idents_cons_of_ident hk]
      rfl
  · next hk =>
    refine ⟨⟨h.source.trans htook.source.symm, ?_, hprev, h.errors.trans htook.errors.symm, ?_,
      htook.ready h.ready⟩, ⟨rfl, rfl, Nat.le_succ _, rfl, rfl⟩⟩
    · rw [hahead, htook.eof]
      exact hdrop
    · intro sink hsink
      rw [h.idents sink hsink, htook.idents, Token.idents_cons_of_ne hk]
      rfl

end Walker

namespace Walk

open Walker

variable {α β : Type} {w w' : Walker} {c d : Cursor}

/-- Holds if a walk has the outcome of a reading step, both of which do not fail. -/
def FollowsM (f : WalkM α) (g : StateM Cursor α) (w : Walker) (c : Cursor) : Prop :=
  ∃ w', f.run w = some ((g.run c).1, w') ∧ w.Onward w' ∧ w'.Mirrors (g.run c).2

/-- Holds if a walk has the outcome of a reading step. -/
def Follows (f : Walk α) (g : Read α) (w : Walker) (c : Cursor) : Prop :=
  FollowsM (ExceptT.run f) (ExceptT.run g) w c

/-! ## Steps that do not fail -/

section

variable {f : WalkM α} {g : StateM Cursor α}

theorem followsM_pure {a : α} (h : w.Mirrors c) : FollowsM (pure a) (pure a) w c :=
  ⟨w, rfl, Onward.refl w, h⟩

theorem run_bind_some {f : WalkM β} {k : β → WalkM α} {b : β} (hf : f.run w = some (b, w')) :
    (f >>= k).run w = (k b).run w' := by
  rw [StateT.run_bind, hf]
  rfl

/-- A walk may begin with a part of its own, which the reading step does not have. -/
theorem FollowsM.after {f : WalkM β} {k : β → WalkM α} {b : β} (hf : f.run w = some (b, w'))
    (hw : w.Onward w') (h : FollowsM (k b) g w' c) : FollowsM (f >>= k) g w c := by
  obtain ⟨v, hv, hon, hmirrors⟩ := h
  exact ⟨v, (run_bind_some hf).trans hv, hw.trans hon, hmirrors⟩

theorem FollowsM.get {k : Walker → WalkM α} (hk : FollowsM (k w) g w c) :
    FollowsM (get >>= k) g w c := hk

theorem FollowsM.report {k : PUnit → WalkM α} (e : ParseError)
    (hk : FollowsM (k ⟨⟩) g (w.report e) c) : FollowsM (modify (·.report e) >>= k) g w c := by
  obtain ⟨v, hv, hon, hmirrors⟩ := hk
  exact ⟨v, hv, (Onward.report w e).trans hon, hmirrors⟩

theorem FollowsM.bind {f : WalkM β} {g : StateM Cursor β} {k : β → WalkM α} {k' : β → StateM Cursor α}
    (h : FollowsM f g w c) (hk : ∀ w', w.Onward w' → w'.Mirrors (g.run c).2 →
      FollowsM (k (g.run c).1) (k' (g.run c).1) w' (g.run c).2) :
    FollowsM (f >>= k) (g >>= k') w c := by
  obtain ⟨w', hf, hon, hmirrors⟩ := h
  exact FollowsM.after hf hon (hk w' hon hmirrors)

theorem followsM_get {k : Cursor → StateM Cursor α} :
    FollowsM f (get >>= k) w c ↔ FollowsM f (k c) w c := Iff.rfl

theorem followsM_set {k : PUnit → StateM Cursor α} :
    FollowsM f (set d >>= k) w c ↔ FollowsM f (k ⟨⟩) w d := Iff.rfl

theorem followsM_modify {m : Cursor → Cursor} {k : PUnit → StateM Cursor α} :
    FollowsM f (modify m >>= k) w c ↔ FollowsM f (k ⟨⟩) w (m c) := Iff.rfl

end

/-! ## Walks -/

theorem current_run (h : w.Mirrors c) : current.run w = some (c.current, w) := by
  show (w.tokens[w.pos]?).bind _ = _
  rw [h.current]
  rfl

theorem kind_run (h : w.Mirrors c) : kind.run w = some (c.kind, w) := by
  rw [kind, run_bind_some (current_run h)]
  rfl

theorem atWord_run (h : w.Mirrors c) (word : String) :
    (atWord word).run w = some (c.atWord word, w) := by
  rw [atWord, run_bind_some (kind_run h), Cursor.atWord]
  by_cases hk : c.kind = .ident
  · simp [hk, current_run h]
  · simp [hk]

theorem unexpected_run (h : w.Mirrors c) (wanted : Wanted) :
    (unexpected wanted).run w = some (c.unexpected wanted, w) := by
  rw [unexpected, run_bind_some (current_run h)]
  rfl

/-- Passing a token consumes it. -/
theorem exists_bump (h : w.Mirrors c) :
    ∃ w', bump.run w = some (c.current, w') ∧ w.Onward w' ∧ w'.Mirrors c.bump := by
  rw [bump, run_bind_some (current_run h)]
  cases hc : c.ahead with
  | nil =>
    have hcurrent : c.current = c.eof := by simp [Cursor.current, hc]
    refine ⟨w, ?_, Onward.refl w, ?_⟩
    · simp [hcurrent, h.ready.eof]
    · rw [Cursor.bump, hc]
      exact h
  | cons t ts =>
    obtain ⟨hmirrors, hon⟩ := h.pass hc
    have ht : t.kind ≠ .eof := h.ready.ahead t (by rw [hc]; exact List.mem_cons_self)
    refine ⟨w.pass t, ?_, hon, hmirrors⟩
    simp [current_of_cons hc, ht]

theorem exists_eat (h : w.Mirrors c) (k : TokenKind) :
    ∃ w', (eat k).run w = some (decide (c.kind = k), w') ∧ w.Onward w' ∧ w'.Mirrors (c.eat k) := by
  rw [eat, run_bind_some (kind_run h), Cursor.eat]
  by_cases hk : c.kind = k
  · obtain ⟨w', hbump, hon, hmirrors⟩ := exists_bump h
    refine ⟨w', ?_, hon, by rwa [if_pos hk]⟩
    simp [hk, hbump]
  · refine ⟨w, ?_, Onward.refl w, by rwa [if_neg hk]⟩
    simp [hk]

/-- Where the next token is not the end, passing it leaves fewer tokens. -/
theorem length_bump (hc : c.Ready) (hk : c.kind ≠ .eof) :
    c.ahead.length = c.bump.ahead.length + 1 := by
  obtain ⟨t, -, -, -, ha⟩ := hc.exists_cons rfl hk
  exact congrArg List.length ha

section

variable {f : Walk α} {g : Read α}

theorem follows_pure {a : α} (h : w.Mirrors c) : Follows (pure a) (pure a) w c := followsM_pure h

/-- A walk that succeeds goes on with what follows it. -/
theorem run_bind_ok {f : Walk β} {k : β → Walk α} {b : β} (h : f.run.run w = some (.ok b, w')) :
    (f >>= k).run.run w = (k b).run.run w' := by
  rw [ExceptT.run_bind, StateT.run_bind, h]
  rfl

/-- A walk that fails ends there. -/
theorem run_bind_error {f : Walk β} {k : β → Walk α} {e : ParseError}
    (h : f.run.run w = some (.error e, w')) : (f >>= k).run.run w = some (.error e, w') := by
  rw [ExceptT.run_bind, StateT.run_bind, h]
  rfl

/-- A reading step that succeeds goes on with what follows it. -/
theorem read_bind_ok {g : Read β} {k : β → Read α} {b : β} (h : g.run.run c = (.ok b, d)) :
    (g >>= k).run.run c = (k b).run.run d := by
  rw [ExceptT.run_bind, StateT.run_bind, h]
  rfl

/-- A reading step that fails ends there. -/
theorem read_bind_error {g : Read β} {k : β → Read α} {e : ParseError}
    (h : g.run.run c = (.error e, d)) : (g >>= k).run.run c = (.error e, d) := by
  rw [ExceptT.run_bind, StateT.run_bind, h]
  rfl

theorem Follows.bind {f : Walk β} {g : Read β} {k : β → Walk α} {k' : β → Read α}
    (h : Follows f g w c) (hk : ∀ b c' w', g.runAt c = (.ok b, c') → w.Onward w' → w'.Mirrors c' →
      Follows (k b) (k' b) w' c') : Follows (f >>= k) (g >>= k') w c := by
  obtain ⟨w', hf, hon, hmirrors⟩ := h
  unfold Follows FollowsM
  cases hg : g.run.run c with
  | mk r c' =>
    rw [hg] at hf hmirrors
    cases r with
    | error e =>
      rw [run_bind_error hf, read_bind_error hg]
      exact ⟨w', rfl, hon, hmirrors⟩
    | ok b =>
      obtain ⟨v, hv, hon', hmirrors'⟩ := hk b c' w' hg hon hmirrors
      rw [run_bind_ok hf, read_bind_ok hg]
      exact ⟨v, hv, hon.trans hon', hmirrors'⟩

theorem follows_get {k : Cursor → Read α} : Follows f (get >>= k) w c ↔ Follows f (k c) w c := Iff.rfl

theorem follows_set {k : PUnit → Read α} : Follows f (set d >>= k) w c ↔ Follows f (k ⟨⟩) w d := Iff.rfl

theorem follows_modify {m : Cursor → Cursor} {k : PUnit → Read α} :
    Follows f (modify m >>= k) w c ↔ Follows f (k ⟨⟩) w (m c) := Iff.rfl

theorem follows_next {k : Token → Read α} :
    Follows f (Read.next >>= k) w c ↔ Follows f (k c.current) w c.bump := Iff.rfl

theorem follows_spanFrom {k : Span → Read α} {start : Nat} :
    Follows f (Read.spanFrom start >>= k) w c ↔ Follows f (k (c.spanFrom start)) w c := Iff.rfl

theorem follows_eat {k : Bool → Read α} {kind : TokenKind} :
    Follows f (Read.eat kind >>= k) w c ↔
      Follows f (k (decide (c.kind = kind))) w (c.eat kind) := by
  have hrun : (Read.eat kind >>= k).run.run c = (k (decide (c.kind = kind))).run.run (c.eat kind) := by
    rw [Cursor.eat]
    by_cases hk : c.kind = kind
    · simp only [hk, decide_true, if_true]
      show (ite _ _ _ >>= k).run.run c = _
      rw [if_pos hk]
      rfl
    · simp only [hk, decide_false, if_false]
      show (ite _ _ _ >>= k).run.run c = _
      rw [if_neg hk]
      rfl
  unfold Follows FollowsM
  rw [hrun]

/-- A walk may begin with a part of its own that does not fail. -/
theorem Follows.after {f : WalkM β} {k : β → Walk α} {b : β} (hf : f.run w = some (b, w'))
    (hw : w.Onward w') (h : Follows (k b) g w' c) : Follows (liftM f >>= k) g w c := by
  obtain ⟨v, hv, hon, hmirrors⟩ := h
  refine ⟨v, ?_, hw.trans hon, hmirrors⟩
  have hrun : (liftM f >>= k : Walk α).run.run w = (f.run w).bind fun r => (k r.1).run.run r.2 := by
    simp only [liftM, monadLift, MonadLift.monadLift, ExceptT.lift, ExceptT.run, Bind.bind,
      ExceptT.bind, ExceptT.mk, StateT.bind, StateT.run, Functor.map, StateT.map]
    cases (f : StateT Walker Option _) w <;> rfl
  rw [hrun, hf]
  exact hv

/-- A step that does not fail may stand in front of others on both sides. -/
theorem Follows.lift {f : WalkM β} {g : StateM Cursor β} {k : β → Walk α} {k' : β → Read α}
    (h : FollowsM f g w c) (hk : ∀ w', w.Onward w' → w'.Mirrors (g.run c).2 →
      Follows (k (g.run c).1) (k' (g.run c).1) w' (g.run c).2) :
    Follows (liftM f >>= k) (liftM g >>= k') w c := by
  obtain ⟨w', hrun, hon, hmirrors⟩ := h
  exact Follows.after (g := liftM g >>= k') (c := c) hrun hon (hk w' hon hmirrors)

theorem Follows.current {k : Token → Walk α} (h : w.Mirrors c) (hk : Follows (k c.current) g w d) :
    Follows (liftM current >>= k) g w d := Follows.after (current_run h) (Onward.refl w) hk

theorem Follows.kind {k : TokenKind → Walk α} (h : w.Mirrors c) (hk : Follows (k c.kind) g w d) :
    Follows (liftM kind >>= k) g w d := Follows.after (kind_run h) (Onward.refl w) hk

theorem Follows.atWord {word : String} {k : Bool → Walk α} (h : w.Mirrors c)
    (hk : Follows (k (c.atWord word)) g w d) : Follows (liftM (atWord word) >>= k) g w d :=
  Follows.after (atWord_run h word) (Onward.refl w) hk

theorem Follows.spanFrom {start : Nat} {k : Span → Walk α} (h : w.Mirrors c)
    (hk : Follows (k (c.spanFrom start)) g w d) : Follows (liftM (spanFrom start) >>= k) g w d :=
  Follows.after (by rw [← h.spanFrom]; rfl) (Onward.refl w) hk

theorem Follows.get {k : Walker → Walk α} (hk : Follows (k w) g w d) : Follows (get >>= k) g w d := hk

theorem Follows.bump {k : Token → Walk α} (h : w.Mirrors c)
    (hk : ∀ w', w.Onward w' → w'.Mirrors c.bump → Follows (k c.current) g w' d) :
    Follows (liftM bump >>= k) g w d := by
  obtain ⟨w', hrun, hon, hmirrors⟩ := exists_bump h
  exact Follows.after hrun hon (hk w' hon hmirrors)

theorem Follows.eat {kind : TokenKind} {k : Bool → Walk α} (h : w.Mirrors c)
    (hk : ∀ w', w.Onward w' → w'.Mirrors (c.eat kind) →
      Follows (k (decide (c.kind = kind))) g w' d) : Follows (liftM (eat kind) >>= k) g w d := by
  obtain ⟨w', hrun, hon, hmirrors⟩ := exists_eat h kind
  exact Follows.after hrun hon (hk w' hon hmirrors)

theorem follows_throw (h : w.Mirrors c) (e : ParseError) :
    Follows (throw e : Walk α) (throw e) w c := ⟨w, rfl, Onward.refl w, h⟩

theorem follows_fail (h : w.Mirrors c) (wanted : Wanted) :
    Follows (fail wanted : Walk α) (Read.fail wanted) w c :=
  Follows.after (unexpected_run h wanted) (Onward.refl w) (follows_throw h _)

theorem follows_expect (h : w.Mirrors c) (kind : TokenKind) (wanted : Wanted) :
    Follows (expect kind wanted) (Read.expect kind wanted) w c := by
  rw [expect, Read.expect, follows_get]
  refine Follows.kind h ?_
  split
  · obtain ⟨w', hrun, hon, hmirrors⟩ := exists_bump h
    have hlift : (liftM bump : Walk Token).run.run w = (bump.run w).map fun r => (.ok r.1, r.2) := by
      simp only [liftM, monadLift, MonadLift.monadLift, ExceptT.lift, ExceptT.run, ExceptT.mk,
        StateT.run, Functor.map, StateT.map]
      cases (bump : StateT Walker Option _) w <;> rfl
    exact ⟨w', by rw [hlift, hrun]; rfl, hon, hmirrors⟩
  · exact follows_fail h wanted

end

end Walk

end SelfTypeLint
