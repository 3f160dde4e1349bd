import SelfTypeLint.Proofs.Reader.HeaderSound
import SelfTypeLint.Proofs.Walk.Mirror

/-!
# Walks that skip

A skipping reader measures what it skips on the tokens ahead and consumes that much. The walk does it
token by token, so the two are compared by induction on the limit, which is not reached as long as it
exceeds the number of tokens ahead. Depths never fall below zero: only a closing brace lowers one
unasked, and at depth zero it ends the walk.
-/

namespace SelfTypeLint.Walk

open Walker Cursor

variable {α : Type} {w w' : Walker} {c d : Cursor}

/-- Where no token is left, the walker stands before the end. -/
theorem kind_of_ahead_nil (h : w.Mirrors c) (ha : c.ahead = []) : c.kind = .eof := by
  rw [h.ready.kind_eq, ha]
  rfl

theorem kind_of_ahead_cons {t : Token} {ts : List Token} (ha : c.ahead = t :: ts) :
    c.kind = t.kind := by
  rw [Cursor.kind, current_of_cons ha]

theorem kind_ne_eof {t : Token} {ts : List Token} (h : w.Mirrors c) (ha : c.ahead = t :: ts) :
    t.kind ≠ .eof := h.ready.ahead t (by rw [ha]; exact List.mem_cons_self)

theorem ahead_bump {t : Token} {ts : List Token} (ha : c.ahead = t :: ts) : c.bump.ahead = ts := by
  rw [Cursor.bump, ha]

theorem advance_succ (n : Nat) (c : Cursor) : c.advance (n + 1) = c.bump.advance n := rfl

theorem length_of_cons {t : Token} {ts : List Token} (ha : c.ahead = t :: ts) :
    c.ahead.length = c.bump.ahead.length + 1 := by
  rw [ahead_bump ha, ha, List.length_cons]

/-! ## Statements and members -/

theorem exists_statement (n : Nat) : ∀ (depth : Nat) (w : Walker) (c : Cursor), w.Mirrors c →
    c.ahead.length < n → ∃ w', (statement n depth).run w = some ((), w') ∧ w.Onward w' ∧
      w'.Mirrors (c.advance (statementLength depth c.ahead)) := by
  induction n with
  | zero => intro _ _ c _ hn; omega
  | succ n ih =>
    intro depth w c h hn
    rw [statement, run_bind_some (kind_run h)]
    cases ha : c.ahead with
    | nil =>
      rw [kind_of_ahead_nil h ha]
      exact ⟨w, rfl, Onward.refl w, h⟩
    | cons t ts =>
      obtain ⟨v, hbump, hon, hv⟩ := exists_bump h
      have hlen := length_of_cons ha
      rw [kind_of_ahead_cons ha, statementLength]
      rw [if_neg (kind_ne_eof h ha)]
      split
      · exact ⟨w, rfl, Onward.refl w, h⟩
      · split
        · refine ⟨v, ?_, hon, hv⟩
          rw [run_bind_some hbump]
          rfl
        · rw [run_bind_some hbump]
          obtain ⟨w', hrun, hon', hw'⟩ := ih (if t.kind.isOpener = true then depth + 1
            else if t.kind.isCloser = true then depth - 1 else depth) v c.bump hv (by omega)
          rw [ahead_bump ha] at hw'
          refine ⟨w', hrun, hon.trans hon', ?_⟩
          split at hw'
          · next ho => rwa [if_pos ho]
          · next ho =>
            rw [if_neg ho]
            split at hw'
            · next hc => rwa [if_pos hc]
            · next hc => rwa [if_neg hc]

/-- The walk past a closing brace that is not at depth zero: an initial value may follow the last. -/
theorem member_rbrace_run {n : Nat} {v : Walker} (depth : Nat) (h : w.Mirrors c)
    (hk : c.kind = .rbrace) (hbump : bump.run w = some (c.current, v)) (hv : v.Mirrors c.bump) :
    (member (n + 1) (depth + 1)).run w =
      if depth = 0 ∧ c.bump.kind ≠ .eq then some ((), v) else (member n depth).run v := by
  rw [member, run_bind_some (kind_run h), hk]
  simp only [reduceCtorEq, if_false, Nat.succ_ne_zero, and_false, if_true]
  rw [lower, pure_bind, run_bind_some hbump, run_bind_some (kind_run hv)]
  split <;> rfl

theorem exists_member (n : Nat) : ∀ (depth : Nat) (w : Walker) (c : Cursor), w.Mirrors c →
    c.ahead.length < n → ∃ w', (member n depth).run w = some ((), w') ∧ w.Onward w' ∧
      w'.Mirrors (c.advance (memberLength depth c.ahead)) := by
  induction n with
  | zero => intro _ _ c _ hn; omega
  | succ n ih =>
    intro depth w c h hn
    cases ha : c.ahead with
    | nil =>
      rw [member, run_bind_some (kind_run h), kind_of_ahead_nil h ha]
      exact ⟨w, rfl, Onward.refl w, h⟩
    | cons t ts =>
      obtain ⟨v, hbump, hon, hv⟩ := exists_bump h
      have hlen := length_of_cons ha
      have hmore : ∀ depth', ∃ w', (member n depth').run v = some ((), w') ∧ w.Onward w' ∧
          w'.Mirrors (c.advance (memberLength depth' ts + 1)) := by
        intro depth'
        obtain ⟨w', hrun, hon', hw'⟩ := ih depth' v c.bump hv (by omega)
        rw [ahead_bump ha] at hw'
        exact ⟨w', hrun, hon.trans hon', hw'⟩
      rw [memberLength]
      by_cases hbrace : t.kind = .rbrace
      · rw [if_pos hbrace]
        cases depth with
        | zero =>
          rw [member, run_bind_some (kind_run h), kind_of_ahead_cons ha, hbrace]
          exact ⟨w, rfl, Onward.refl w, h⟩
        | succ depth =>
          -- The depth is not zero where it is lowered.
          have hkind : ts.head?.map (·.kind) ≠ some .eq ↔ c.bump.kind ≠ .eq := by
            cases ts with
            | nil => simp [kind_of_ahead_nil hv (ahead_bump ha)]
            | cons u us => simp [kind_of_ahead_cons (ahead_bump ha)]
          rw [member_rbrace_run depth h (by rw [kind_of_ahead_cons ha, hbrace]) hbump hv]
          simp only [Nat.succ_ne_zero, if_false, Nat.add_eq_right, Nat.add_sub_cancel, hkind]
          split
          · exact ⟨v, rfl, hon, hv⟩
          · exact hmore depth
      · rw [member, run_bind_some (kind_run h), kind_of_ahead_cons ha]
        rw [if_neg (kind_ne_eof h ha), if_neg (fun hand => hbrace hand.1), if_neg hbrace]
        split
        · refine ⟨v, ?_, hon, hv⟩
          rw [run_bind_some hbump]
          rfl
        · rw [run_bind_some hbump]
          show ∃ w', (member n _).run v = _ ∧ _
          split
          · exact hmore _
          · split
            · exact hmore _
            · exact hmore _

/-! ## Delegates -/

/-- A walker that begins a list of identifiers mirrors a cursor that does. -/
theorem mirrors_push (h : w.Mirrors c) :
    ({ w with sinks := [] :: w.sinks } : Walker).Mirrors { c with idents := [] } := by
  refine ⟨h.source, h.tokens, h.prevEnd, h.errors, ?_, h.ready.eof, h.ready.ahead, h.ready.placed⟩
  rintro sink ⟨⟩
  rfl

/-- A walker that drops a list that it began goes on with the one of before. -/
theorem mirrors_pop (h : w.Mirrors c) (hon : Onward { w with sinks := [] :: w.sinks } w')
    (h' : w'.Mirrors d) : ({ w' with sinks := w'.sinks.tail } : Walker).Mirrors
      { d with idents := c.idents } ∧ w.Onward { w' with sinks := w'.sinks.tail } := by
  have htail : w'.sinks.tail = w.sinks := hon.outer
  refine ⟨⟨h'.source, h'.tokens, h'.prevEnd, h'.errors, ?_, h'.ready.eof, h'.ready.ahead,
    h'.ready.placed⟩, ⟨hon.source, hon.tokens, hon.pos, congrArg List.length htail,
    congrArg List.tail htail⟩⟩
  intro sink hsink
  exact h.idents sink (htail ▸ hsink)

/-- The identifiers of before do not matter to where tokens are consumed. -/
theorem advance_idents (n : Nat) (c : Cursor) (is js : List Ident) :
    { ({ c with idents := is } : Cursor).advance n with idents := js } =
      { c.advance n with idents := js } := by
  induction n generalizing c is with
  | zero => rfl
  | succ n ih =>
    rw [advance_succ, advance_succ]
    obtain ⟨source, ahead, eof, prevEnd, errors, idents⟩ := c
    cases ahead with
    | nil => exact ih ⟨source, [], eof, prevEnd, errors, idents⟩ is
    | cons t ts =>
      have hsame := ih ⟨source, ts, eof, t.span.stop, errors, []⟩
      exact (hsame _).trans (hsame _).symm

theorem exists_delegate {n : Nat} (h : w.Mirrors c) (hn : c.ahead.length < n) :
    ∃ w', (delegate n).run w = some ((), w') ∧ w.Onward w' ∧ w'.Mirrors c.skipDelegate := by
  obtain ⟨v, hrun, hon, hv⟩ := exists_statement n 0 _ _ (mirrors_push h) hn
  obtain ⟨hmirrors, hon'⟩ := mirrors_pop h hon hv
  refine ⟨_, ?_, hon', ?_⟩
  · rw [delegate]
    show ((statement n 0).run _).bind _ = _
    rw [hrun]
    rfl
  · rwa [advance_idents] at hmirrors

/-! ## Bracketed groups -/

/-- Consumes what closes the brackets of a stack, or all that is left. -/
def restOfGroup (opener : Token) (stack : List TokenKind) : Read Unit := do
  let c ← get
  match balancedLength? stack c.ahead with
  | some n => set (c.advance n)
  | none =>
    set (c.advance c.ahead.length)
    throw (.unclosed opener.kind.delimiter opener.span)

theorem isCloser_closer (k : TokenKind) : k.closer.isCloser = true := by
  cases k <;> rfl

/-- What awaits closers does so until the brackets are closed. -/
theorem follows_balance (opener : Token) (n : Nat) : ∀ (stack : List TokenKind) (w : Walker)
    (c : Cursor), (∀ k ∈ stack, k.isCloser = true) → w.Mirrors c → c.ahead.length < n →
      Follows (balance opener n stack) (restOfGroup opener stack) w c := by
  induction n with
  | zero => intro _ _ c _ _ hn; omega
  | succ n ih =>
    intro stack w c hclosers h hn
    rw [restOfGroup, follows_get]
    cases stack with
    | nil =>
      rw [balance, balancedLength?]
      exact follows_pure h
    | cons top stack =>
      rw [balance]
      refine Follows.current h ?_
      cases ha : c.ahead with
      | nil =>
        have heof : c.current.kind = .eof := kind_of_ahead_nil h ha
        rw [if_pos heof]
        exact follows_throw h _
      | cons t ts =>
        have hlen := length_of_cons ha
        rw [current_of_cons ha, if_neg (kind_ne_eof h ha)]
        refine Follows.bump h fun w' _ h' => ?_
        rw [← ha]
        have hstep : ∀ stack', (∀ k ∈ stack', k.isCloser = true) →
            balancedLength? (top :: stack) c.ahead = (balancedLength? stack' ts).map (· + 1) →
              Follows (balance opener n stack') (restOfGroup opener (top :: stack)) w' c := by
          intro stack' hclosers' hlength
          have h1 := ih stack' w' c.bump hclosers' h' (by omega)
          rw [restOfGroup, follows_get, ahead_bump ha] at h1
          rw [restOfGroup, follows_get, hlength, ha]
          cases hm : balancedLength? stack' ts with
          | none => rw [hm] at h1; exact h1
          | some m => rw [hm] at h1; exact h1
        refine hstep _ ?_ ?_
        · split
          · exact List.forall_mem_cons.2 ⟨isCloser_closer _, hclosers⟩
          · split
            · exact (List.forall_mem_cons.1 hclosers).2
            · exact hclosers
        · have htop : t.kind = top → t.kind.isCloser = true := fun heq =>
            heq ▸ (List.forall_mem_cons.1 hclosers).1
          have hiff : (t.kind.isCloser = true ∧ t.kind = top) ↔ t.kind = top :=
            ⟨And.right, fun heq => ⟨htop heq, heq⟩⟩
          simp only [ha, balancedLength?, hiff]

theorem follows_balanced {n : Nat} (h : w.Mirrors c) (hn : c.ahead.length < n) :
    Follows (balanced n) Read.skipBalanced w c := by
  rw [balanced, Read.skipBalanced, follows_next]
  refine Follows.bump h fun w' hon h' => ?_
  have hle := hon.length_le h h'
  exact follows_balance c.current n [c.current.kind.closer] w' c.bump (by simp [isCloser_closer]) h'
    (by omega)

/-- What takes tokens of a form that is not empty leaves fewer. -/
theorem length_lt_of_spells {f : Read α} {form : List Token → List Token → α → Prop} {a : α}
    (hspells : Read.Spells c f c form) (hne : ∀ ts rest a, form ts rest a → ts ≠ [])
    (hrun : f.runAt c = (.ok a, d)) : d.ahead.length < c.ahead.length := by
  unfold Read.Spells Read.Sat at hspells
  rw [hrun] at hspells
  obtain ⟨ts, hts, hform⟩ := hspells
  have hpos := List.length_pos_iff.2 (hne ts _ a hform)
  have hlen := hts.length_le
  omega

theorem length_lt_of_skipBalanced {k : TokenKind} (hc : c.Ready) (hk : c.kind = k) (hne : k ≠ .eof)
    {a : Unit} (hrun : Read.skipBalanced.runAt c = (.ok a, d)) : d.ahead.length < c.ahead.length := by
  refine length_lt_of_spells (Read.spells_skipBalanced hc hk hne) ?_ hrun
  rintro ts - - ⟨o, us, rfl, -, -⟩
  simp

theorem follows_callArguments {n : Nat} (h : w.Mirrors c) (hn : c.ahead.length < n) :
    Follows (callArguments n) Read.skipArguments w c := by
  rw [callArguments, Read.skipArguments, follows_get]
  refine Follows.kind h ?_
  split
  · exact follows_balanced h hn
  · exact follows_pure h

/-! ## Enumerations -/

theorem exists_enumHead (n : Nat) : ∀ (w : Walker) (c : Cursor), w.Mirrors c →
    c.ahead.length < n → ∃ w', (enumHead n).run w = some ((), w') ∧ w.Onward w' ∧
      w'.Mirrors (c.skipWhile fun t => t.kind ≠ .lbrace && t.kind ≠ .semi) := by
  induction n with
  | zero => intro _ c _ hn; omega
  | succ n ih =>
    intro w c h hn
    rw [enumHead, run_bind_some (kind_run h), Cursor.skipWhile]
    cases ha : c.ahead with
    | nil =>
      rw [kind_of_ahead_nil h ha]
      exact ⟨w, rfl, Onward.refl w, h⟩
    | cons t ts =>
      have hlen := length_of_cons ha
      rw [kind_of_ahead_cons ha, List.takeWhile_cons]
      have heof := kind_ne_eof h ha
      by_cases hstop : t.kind = .lbrace ∨ t.kind = .semi
      · have htest : (t.kind ≠ .lbrace && t.kind ≠ .semi) = false := by
          rcases hstop with hk | hk <;> simp [hk]
        have hend : t.kind = .lbrace ∨ t.kind = .semi ∨ t.kind = .eof := hstop.imp_right .inl
        rw [if_pos hend, htest]
        exact ⟨w, rfl, Onward.refl w, h⟩
      · have htest : (t.kind ≠ .lbrace && t.kind ≠ .semi) = true := by simpa using hstop
        obtain ⟨v, hbump, hon, hv⟩ := exists_bump h
        obtain ⟨w', hrun, hon', hw'⟩ := ih v c.bump hv (by omega)
        have hend : ¬(t.kind = .lbrace ∨ t.kind = .semi ∨ t.kind = .eof) := by
          rintro (hk | hk | hk)
          · exact hstop (.inl hk)
          · exact hstop (.inr hk)
          · exact heof hk
        rw [if_neg hend, htest, run_bind_some hbump]
        rw [Cursor.skipWhile, ahead_bump ha] at hw'
        exact ⟨w', hrun, hon.trans hon', hw'⟩

theorem follows_enumeration {n : Nat} (h : w.Mirrors c) (hn : c.ahead.length < n) :
    Follows (enumeration n) Read.skipEnum w c := by
  rw [enumeration, Read.skipEnum, follows_modify, follows_modify, follows_get]
  refine Follows.bump h fun v hon hv => ?_
  have hle := hon.length_le h hv
  obtain ⟨v', hrun, hon', hv'⟩ := exists_enumHead n v c.bump hv (by omega)
  have hle' := hon'.length_le hv hv'
  refine Follows.after hrun hon' (Follows.kind hv' ?_)
  have hsemi : ∀ (u : Walker) (d : Cursor), u.Mirrors d →
      Follows (do let _ ← eat .semi) (modify (Cursor.eat .semi)) u d := fun u d hu =>
    Follows.eat hu fun u' _ hu' => ⟨u', rfl, Onward.refl u', hu'⟩
  dsimp only
  split
  · exact (follows_balanced hv' (by omega)).bind fun _ d u _ _ hu => hsemi u d hu
  · exact hsemi _ _ hv'

/-! ## Constraints -/

theorem follows_constraints (m : Nat) : ∀ (n : Nat) (w : Walker) (c : Cursor), w.Mirrors c →
    c.ahead.length ≤ m → c.ahead.length + 1 < n →
      Follows (constraints n) (Read.skipConstraints m) w c := by
  induction m with
  | zero =>
    intro n w c h hm hn
    obtain ⟨n, rfl⟩ : ∃ k, n = k + 1 := ⟨n - 1, by omega⟩
    have ha : c.ahead = [] := List.length_eq_zero_iff.1 (Nat.le_zero.1 hm)
    rw [constraints]
    refine Follows.kind h ?_
    rw [if_pos (.inr (.inr (.inl (kind_of_ahead_nil h ha))))]
    exact follows_pure h
  | succ m ih =>
    intro n w c h hm hn
    obtain ⟨n, rfl⟩ : ∃ k, n = k + 1 := ⟨n - 1, by omega⟩
    have hstop : (c.kind = .lbrace ∨ c.kind = .semi ∨ c.kind = .eof ∨ c.kind = .arrow) →
        Follows (constraints (n + 1)) (pure ()) w c := by
      intro hk
      rw [constraints]
      refine Follows.kind h ?_
      rw [if_pos hk]
      exact follows_pure h
    rw [Read.skipConstraints, follows_get]
    split
    · next hk => exact hstop (.inl hk)
    · next hk => exact hstop (.inr (.inl hk))
    · next hk => exact hstop (.inr (.inr (.inl hk)))
    · next hk => exact hstop (.inr (.inr (.inr hk)))
    · next hk =>
      rw [constraints]
      refine Follows.kind h ?_
      rw [if_neg (by simp [hk])]
      refine Follows.atWord h ?_
      rw [if_neg (by simp [Cursor.atWord, hk]), if_pos hk]
      refine (follows_balanced h (by omega)).bind fun _ d w' hrun _ h' => ?_
      have := length_lt_of_skipBalanced h.ready hk (by simp) hrun
      exact ih n w' d h' (by omega) (by omega)
    · next h1 h2 h3 h4 h5 =>
      rw [constraints]
      refine Follows.kind h ?_
      rw [if_neg (by rintro (hk | hk | hk | hk) <;> contradiction)]
      refine Follows.atWord h ?_
      split
      · exact follows_pure h
      · rw [follows_set]
        have := length_bump h.ready h3
        exact Follows.bump h fun w' _ h' => ih n w' c.bump h' (by omega) (by omega)

theorem kind_ne_eof_of_atWord {word : String} (hword : c.atWord word = true) : c.kind ≠ .eof := by
  intro hk
  simp [Cursor.atWord, hk] at hword

theorem follows_constraintClauses (m : Nat) : ∀ (n : Nat) (w : Walker) (c : Cursor), w.Mirrors c →
    c.ahead.length ≤ m → c.ahead.length + 1 < n →
      Follows (constraintClauses n) (Read.skipConstraintClauses m) w c := by
  induction m with
  | zero =>
    intro n w c h hm hn
    obtain ⟨n, rfl⟩ : ∃ k, n = k + 1 := ⟨n - 1, by omega⟩
    have ha : c.ahead = [] := List.length_eq_zero_iff.1 (Nat.le_zero.1 hm)
    rw [constraintClauses]
    refine Follows.atWord h ?_
    rw [if_neg fun hword => kind_ne_eof_of_atWord hword (kind_of_ahead_nil h ha)]
    exact follows_pure h
  | succ m ih =>
    intro n w c h hm hn
    obtain ⟨n, rfl⟩ : ∃ k, n = k + 1 := ⟨n - 1, by omega⟩
    rw [constraintClauses, Read.skipConstraintClauses, follows_get]
    refine Follows.atWord h ?_
    split
    · next hword =>
      have hlen := length_bump h.ready (kind_ne_eof_of_atWord hword)
      rw [follows_set]
      refine Follows.bump h fun v _ hv => ?_
      refine (follows_constraints _ n v c.bump hv (by omega) (by omega)).bind
        fun _ d w' _ hon h' => ?_
      have := hon.length_le hv h'
      exact ih n w' d h' (by omega) (by omega)
    · exact follows_pure h

/-! ## Commas -/

theorem exists_commas (n : Nat) : ∀ (w : Walker) (c : Cursor), w.Mirrors c → c.ahead.length < n →
    ∃ w', (commas n).run w = some ((), w') ∧ w.Onward w' ∧
      w'.Mirrors (c.skipWhile (·.kind = .comma)) := by
  induction n with
  | zero => intro _ c _ hn; omega
  | succ n ih =>
    intro w c h hn
    obtain ⟨v, heat, hon, hv⟩ := exists_eat h .comma
    rw [commas, run_bind_some heat, Cursor.skipWhile]
    cases ha : c.ahead with
    | nil =>
      rw [Cursor.eat, kind_of_ahead_nil h ha] at hv
      rw [kind_of_ahead_nil h ha]
      exact ⟨v, rfl, hon, hv⟩
    | cons t ts =>
      have hlen := length_of_cons ha
      rw [List.takeWhile_cons, kind_of_ahead_cons ha]
      rw [Cursor.eat, kind_of_ahead_cons ha] at hv
      by_cases hk : t.kind = .comma
      · rw [if_pos hk] at hv
        obtain ⟨w', hrun, hon', hw'⟩ := ih v c.bump hv (by omega)
        rw [Cursor.skipWhile, ahead_bump ha] at hw'
        simp only [hk, decide_true, if_true]
        exact ⟨w', hrun, hon.trans hon', hw'⟩
      · rw [if_neg hk] at hv
        simp only [hk, decide_false]
        exact ⟨v, rfl, hon, hv⟩

end SelfTypeLint.Walk
