import SelfTypeLint.Proofs.Walk.Skips

/-!
# Walks through types and attribute lists

The readers of types take a number that bounds their recursion, and so do the walks. As long as each is
at least four times the number of tokens ahead, and a little more for where in a type the place is, it is
never used up: a turn of the recursion consumes a token, or passes to a smaller part.
-/

namespace SelfTypeLint.Walk

open Walker Cursor

variable {α : Type} {w w' : Walker} {c d : Cursor}

theorem length_eat {k : TokenKind} (hc : c.Ready) (hk : c.kind = k) (hne : k ≠ .eof) :
    c.ahead.length = (c.eat k).ahead.length + 1 := by
  rw [Cursor.eat, if_pos hk]
  exact length_bump hc (hk ▸ hne)

theorem eq_of_expect {k : TokenKind} {wanted : Wanted} {t : Token}
    (hrun : (Read.expect k wanted).runAt c = (.ok t, d)) : c.kind = k ∧ d = c.bump := by
  have hrun' : (Read.expect k wanted).runAt c =
      if c.kind = k then (.ok c.current, c.bump) else (.error (c.unexpected wanted), c) := by
    show (ite _ _ _ : Read Token).runAt c = _
    split <;> rfl
  rw [hrun'] at hrun
  split at hrun
  · next hk => exact ⟨hk, (Prod.mk.inj hrun).2.symm⟩
  · exact absurd (Prod.mk.inj hrun).1 (by simp)

/-- After an item, a comma goes on with the list. -/
theorem follows_more {more : Walk (List α)} {more' : Read (List α)} (a : α) (h : w.Mirrors c)
    (hmore : ∀ w' d, w'.Mirrors d → c.ahead.length = d.ahead.length + 1 → Follows more more' w' d) :
    Follows (do if ← eat .comma then return a :: (← more) else return [a])
      (do if ← Read.eat .comma then return a :: (← more') else return [a]) w c := by
  rw [follows_eat]
  refine Follows.eat h fun w' _ h' => ?_
  by_cases hk : c.kind = .comma
  · simp only [hk, decide_true, if_true]
    refine (hmore w' _ h' (length_eat h.ready hk (by simp))).bind fun as d u _ _ hu => ?_
    exact follows_pure hu
  · simp only [hk, decide_false]
    exact follows_pure h'

/-! ## Types -/

theorem follows_suffixes (start m : Nat) : ∀ (n : Nat) (e : TypeExpr) (w : Walker) (c : Cursor),
    w.Mirrors c → c.ahead.length ≤ m → c.ahead.length < n →
      Follows (suffixes start n e) (Read.suffixes start m e) w c := by
  induction m with
  | zero =>
    intro n e w c h hm hn
    obtain ⟨n, rfl⟩ : ∃ k, n = k + 1 := ⟨n - 1, by omega⟩
    have hk := kind_of_ahead_nil h (List.length_eq_zero_iff.1 (Nat.le_zero.1 hm))
    rw [suffixes]
    refine Follows.kind h ?_
    rw [hk]
    exact follows_pure h
  | succ m ih =>
    intro n e w c h hm hn
    obtain ⟨n, rfl⟩ : ∃ k, n = k + 1 := ⟨n - 1, by omega⟩
    rw [Read.suffixes, follows_get]
    split
    · next hk =>
      have hlen := length_bump h.ready (by simp [hk])
      rw [suffixes]
      refine Follows.kind h ?_
      rw [if_pos hk, follows_set, follows_spanFrom]
      refine Follows.bump h fun w' _ h' => Follows.spanFrom h' ?_
      exact ih n _ w' c.bump h' (by omega) (by omega)
    · next hk =>
      have hlen := length_bump h.ready (by simp [hk])
      rw [suffixes]
      refine Follows.kind h ?_
      rw [if_neg (by simp [hk]), if_pos hk]
      refine Follows.get ?_
      rw [h.peek]
      dsimp only
      split
      · rw [follows_set, Read.commas, follows_modify]
        refine Follows.bump h fun v _ hv => ?_
        obtain ⟨u, hcommas, hon, hu⟩ := exists_commas n v c.bump hv (by omega)
        refine Follows.after hcommas hon ?_
        refine (follows_expect hu .rbracket .closingBracket).bind fun _ d w' _ hon' h' => ?_
        have := (hon.trans hon').length_le hv h'
        rw [follows_spanFrom]
        exact Follows.spanFrom h' (ih n _ w' d h' (by omega) (by omega))
      · exact follows_pure h
    · next hk =>
      have hlen := length_bump h.ready (by simp [hk])
      rw [suffixes]
      refine Follows.kind h ?_
      rw [if_neg (by simp [hk]), if_neg (by simp [hk]), if_pos hk]
      refine Follows.current h ?_
      split
      · rw [follows_set]
        exact Follows.bump h fun w' _ h' => ih n _ w' c.bump h' (by omega) (by omega)
      · exact follows_pure h
    · next h1 h2 h3 =>
      rw [suffixes]
      refine Follows.kind h ?_
      rw [if_neg h1, if_neg h2, if_neg h3]
      exact follows_pure h

theorem follows_qualifier (h : w.Mirrors c) : Follows qualifier Read.qualifier w c := by
  rw [qualifier, Read.qualifier, follows_get]
  refine Follows.get ?_
  rw [h.peek]
  split
  · rw [follows_next, follows_modify]
    exact Follows.bump h fun v _ hv => Follows.bump hv fun u _ hu => follows_pure hu
  · exact follows_pure h

/-- What the reader of types does before the suffixes. -/
def atomOf (m : Nat) (c : Cursor) : Read TypeExpr := do
  let start := c.current.span.start
  match c.kind with
  | .predefined =>
    let t ← Read.next
    return .predefined t.text t.span
  | .lparen =>
    modify Cursor.bump
    let elements ← Read.elementsWith m
    let _ ← Read.expect .rparen .closingParenthesis
    return .tuple elements (← Read.spanFrom start)
  | .ident =>
    let (isGlobal, first) ← Read.qualifier
    let rest ← Read.segmentsWith m
    return .path isGlobal (first ++ rest) ⟨start, (← get).prevEnd⟩
  | _ => Read.fail .type

theorem typeExprWith_succ (m : Nat) : Read.typeExprWith (m + 1) = (do
    let c ← get
    let e ← atomOf m c
    Read.suffixes c.current.span.start (← get).ahead.length e) := by
  rw [Read.typeExprWith]
  refine congrArg (get >>= ·) (funext fun c => ?_)
  unfold atomOf
  dsimp only
  generalize c.kind = k
  split <;> simp only [bind_assoc, pure_bind]

/-- What the reader of segments does after a word. -/
def argumentsAfter (m : Nat) (t : Token) : Read (NameSegment TypeExpr) := do
  let c ← get
  if c.kind = .lt then
    set c.bump
    let args ← Read.argumentsWith m
    Read.commas
    let close ← Read.expect .gt .commaOrClosingAngle
    return ⟨identName t.text, t.span, args, some (c.current.span.merge close.span)⟩
  else return ⟨identName t.text, t.span, [], none⟩

theorem segmentsWith_succ (m : Nat) : Read.segmentsWith (m + 1) = (do
    let t ← Read.expect .ident .typeName
    let segment ← argumentsAfter m t
    let c ← get
    if c.kind = .dot ∧ c.peek 1 = .ident then
      set c.bump
      return segment :: (← Read.segmentsWith m)
    else return [segment]) := by
  rw [Read.segmentsWith]
  refine congrArg (Read.expect .ident .typeName >>= ·) (funext fun t => ?_)
  rw [argumentsAfter, bind_assoc]
  refine congrArg (get >>= ·) (funext fun c => ?_)
  dsimp only
  split <;> simp only [pure_bind, bind_assoc]

/-- Holds of a number for which the readers of types do what the walks do. The summands count the calls
up to the next token that is passed. -/
structure TypesFollow (m : Nat) : Prop where
  typeExpr : ∀ n w c, w.Mirrors c → 4 * c.ahead.length + 2 ≤ m → 4 * c.ahead.length + 3 ≤ n →
    Follows (typeExpr n) (Read.typeExprWith m) w c
  elements : ∀ n w c, w.Mirrors c → 4 * c.ahead.length + 3 ≤ m → 4 * c.ahead.length + 4 ≤ n →
    Follows (elements n) (Read.elementsWith m) w c
  segments : ∀ n w c, w.Mirrors c → 4 * c.ahead.length + 1 ≤ m → 4 * c.ahead.length + 1 ≤ n →
    Follows (segments n) (Read.segmentsWith m) w c
  arguments : ∀ n w c, w.Mirrors c → 4 * c.ahead.length + 4 ≤ m → 4 * c.ahead.length + 5 ≤ n →
    Follows (arguments n) (Read.argumentsWith m) w c
  argumentList : ∀ n w c, w.Mirrors c → 4 * c.ahead.length + 3 ≤ m → 4 * c.ahead.length + 4 ≤ n →
    Follows (argumentList n) (Read.argumentListWith m) w c

theorem TypesFollow.atom {m n : Nat} (hm : TypesFollow m) (h : w.Mirrors c)
    (hlen : 4 * c.ahead.length + 1 ≤ m) (hn : 4 * c.ahead.length + 2 ≤ n) :
    Follows (Walk.atom n) (atomOf m c) w c := by
  obtain ⟨n, rfl⟩ : ∃ k, n = k + 1 := ⟨n - 1, by omega⟩
  rw [atomOf]
  dsimp only
  split
  · next hk =>
    rw [Walk.atom, follows_next]
    refine Follows.current h (Follows.kind h ?_)
    rw [if_pos hk]
    exact Follows.bump h fun w' _ h' => follows_pure h'
  · next hk =>
    have hbump := length_bump h.ready (by simp [hk])
    rw [Walk.atom, follows_modify]
    refine Follows.current h (Follows.kind h ?_)
    rw [if_neg (by simp [hk]), if_pos hk]
    refine Follows.bump h fun v _ hv => ?_
    refine (hm.elements n v c.bump hv (by omega) (by omega)).bind fun es d u _ _ hu => ?_
    refine (follows_expect hu .rparen .closingParenthesis).bind fun _ d' w' _ _ h' => ?_
    rw [follows_spanFrom]
    exact Follows.spanFrom h' (follows_pure h')
  · next hk =>
    rw [Walk.atom]
    refine Follows.current h (Follows.kind h ?_)
    rw [if_neg (by simp [hk]), if_neg (by simp [hk]), if_pos hk]
    refine (follows_qualifier h).bind ?_
    rintro ⟨isGlobal, first⟩ d v - hon hv
    have hle := hon.length_le h hv
    refine (hm.segments n v d hv (by omega) (by omega)).bind fun ss d' w' _ _ h' => ?_
    rw [follows_get, ← h'.prevEnd]
    exact Follows.get (follows_pure h')
  · next h1 h2 h3 =>
    rw [Walk.atom]
    refine Follows.current h (Follows.kind h ?_)
    rw [if_neg h1, if_neg h2, if_neg h3]
    exact follows_fail h .type

theorem TypesFollow.typeExpr_succ {m n : Nat} (hm : TypesFollow m) (h : w.Mirrors c)
    (hlen : 4 * c.ahead.length + 2 ≤ m + 1) (hn : 4 * c.ahead.length + 3 ≤ n) :
    Follows (Walk.typeExpr n) (Read.typeExprWith (m + 1)) w c := by
  obtain ⟨n, rfl⟩ : ∃ k, n = k + 1 := ⟨n - 1, by omega⟩
  rw [Walk.typeExpr, typeExprWith_succ, follows_get]
  refine Follows.current h ?_
  refine (hm.atom h (by omega) (by omega)).bind fun e d w' _ hon h' => ?_
  have hle := hon.length_le h h'
  rw [follows_get]
  exact follows_suffixes _ _ _ e w' d h' (Nat.le_refl _) (by omega)

theorem TypesFollow.elements_succ {m n : Nat} (hm : TypesFollow m) (h : w.Mirrors c)
    (hlen : 4 * c.ahead.length + 3 ≤ m + 1) (hn : 4 * c.ahead.length + 4 ≤ n) :
    Follows (Walk.elements n) (Read.elementsWith (m + 1)) w c := by
  obtain ⟨n, rfl⟩ : ∃ k, n = k + 1 := ⟨n - 1, by omega⟩
  rw [Walk.elements, Read.elementsWith]
  refine (hm.typeExpr n w c h (by omega) (by omega)).bind fun e d v _ hon hv => ?_
  rw [follows_modify]
  refine Follows.eat hv fun u hon' hu => ?_
  have hle := (hon.trans hon').length_le h hu
  exact follows_more e hu fun w' d' h' hd' => hm.elements n w' d' h' (by omega) (by omega)

theorem TypesFollow.argumentList_succ {m n : Nat} (hm : TypesFollow m) (h : w.Mirrors c)
    (hlen : 4 * c.ahead.length + 3 ≤ m + 1) (hn : 4 * c.ahead.length + 4 ≤ n) :
    Follows (Walk.argumentList n) (Read.argumentListWith (m + 1)) w c := by
  obtain ⟨n, rfl⟩ : ∃ k, n = k + 1 := ⟨n - 1, by omega⟩
  rw [Walk.argumentList, Read.argumentListWith]
  refine (hm.typeExpr n w c h (by omega) (by omega)).bind fun e d v _ hon hv => ?_
  have hle := hon.length_le h hv
  exact follows_more e hv fun w' d' h' hd' => hm.argumentList n w' d' h' (by omega) (by omega)

theorem TypesFollow.arguments_succ {m n : Nat} (hm : TypesFollow m) (h : w.Mirrors c)
    (hlen : 4 * c.ahead.length + 4 ≤ m + 1) (hn : 4 * c.ahead.length + 5 ≤ n) :
    Follows (Walk.arguments n) (Read.argumentsWith (m + 1)) w c := by
  obtain ⟨n, rfl⟩ : ∃ k, n = k + 1 := ⟨n - 1, by omega⟩
  rw [Walk.arguments, Read.argumentsWith, follows_get]
  refine Follows.kind h ?_
  split
  · exact follows_pure h
  · exact hm.argumentList n w c h (by omega) (by omega)

theorem TypesFollow.argumentsOf {m n : Nat} (hm : TypesFollow m) (h : w.Mirrors c) (t : Token)
    (hlen : 4 * c.ahead.length ≤ m) (hn : 4 * c.ahead.length + 4 ≤ n) :
    Follows (Walk.argumentsOf n t) (argumentsAfter m t) w c := by
  obtain ⟨n, rfl⟩ : ∃ k, n = k + 1 := ⟨n - 1, by omega⟩
  rw [Walk.argumentsOf, argumentsAfter, follows_get]
  refine Follows.kind h ?_
  split
  · next hk =>
    have hbump := length_bump h.ready (by simp [hk])
    rw [follows_set]
    refine Follows.bump h fun u _ hu => ?_
    refine (hm.arguments n u _ hu (by omega) (by omega)).bind fun args e x _ hon hx => ?_
    have hle := hon.length_le hu hx
    rw [Read.commas, follows_modify]
    obtain ⟨y, hcommas, hon', hy⟩ := exists_commas n x e hx (by omega)
    refine Follows.after hcommas hon' ?_
    refine (follows_expect hy .gt .commaOrClosingAngle).bind fun close e' z _ _ hz => ?_
    exact follows_pure hz
  · exact follows_pure h

theorem TypesFollow.segments_succ {m n : Nat} (hm : TypesFollow m) (h : w.Mirrors c)
    (hlen : 4 * c.ahead.length + 1 ≤ m + 1) (hn : 4 * c.ahead.length + 1 ≤ n) :
    Follows (Walk.segments n) (Read.segmentsWith (m + 1)) w c := by
  obtain ⟨n, rfl⟩ : ∃ k, n = k + 1 := ⟨n - 1, by omega⟩
  rw [Walk.segments, segmentsWith_succ]
  refine (follows_expect h .ident .typeName).bind fun t d v hrun _ hv => ?_
  obtain ⟨hident, rfl⟩ := eq_of_expect hrun
  have hbump := length_bump h.ready (by simp [hident])
  refine (hm.argumentsOf hv t (by omega) (by omega)).bind fun segment e u _ hon hu => ?_
  have hle := hon.length_le hv hu
  rw [follows_get]
  refine Follows.kind hu (Follows.get ?_)
  rw [hu.peek]
  split
  · next hdot =>
    have hbump' := length_bump hu.ready (by simp [hdot.1])
    rw [follows_set]
    refine Follows.bump hu fun x _ hx => ?_
    refine (hm.segments n x _ hx (by omega) (by omega)).bind fun ss e' z _ _ hz => ?_
    exact follows_pure hz
  · exact follows_pure hu

theorem typesFollow (m : Nat) : TypesFollow m := by
  induction m with
  | zero =>
    refine ⟨?_, ?_, ?_, ?_, ?_⟩ <;> intro n w c _ h <;> omega
  | succ m ih =>
    exact ⟨fun _ _ _ => ih.typeExpr_succ, fun _ _ _ => ih.elements_succ,
      fun _ _ _ => ih.segments_succ, fun _ _ _ => ih.arguments_succ,
      fun _ _ _ => ih.argumentList_succ⟩

theorem follows_typeExpr {n : Nat} (h : w.Mirrors c) (hn : 4 * c.ahead.length + 3 ≤ n) :
    Follows (typeExpr n) Read.typeExpr w c := by
  rw [Read.typeExpr, follows_get]
  exact (typesFollow _).typeExpr n w c h (by rw [Read.typeFuel]; omega) hn

/-! ## Attribute lists -/

theorem follows_attributes (m : Nat) : ∀ (n : Nat) (w : Walker) (c : Cursor), w.Mirrors c →
    c.ahead.length < m → 4 * c.ahead.length + 4 ≤ n →
      Follows (attributes n) (Read.attributes m) w c := by
  induction m with
  | zero => intro n w c _ hm; omega
  | succ m ih =>
    intro n w c h hm hn
    obtain ⟨n, rfl⟩ : ∃ k, n = k + 1 := ⟨n - 1, by omega⟩
    rw [attributes, Read.attributes, follows_get]
    refine Follows.kind h ?_
    split
    · exact follows_pure h
    · refine (follows_typeExpr h (by omega)).bind fun name d v _ hon hv => ?_
      have hle := hon.length_le h hv
      refine (follows_callArguments hv (by omega)).bind fun _ e u _ hon' hu => ?_
      have hle' := hon'.length_le hv hu
      rw [follows_spanFrom]
      refine Follows.spanFrom hu ?_
      exact follows_more _ hu fun w' d' h' hd' => ih n w' d' h' (by omega) (by omega)

theorem follows_attributeTarget (h : w.Mirrors c) :
    Follows attributeTarget Read.attributeTarget w c := by
  rw [attributeTarget, Read.attributeTarget, follows_get]
  refine Follows.kind h (Follows.get ?_)
  rw [h.peek]
  split
  · rw [follows_set]
    exact Follows.bump h fun v _ hv => Follows.bump hv fun u _ hu => follows_pure hu
  · exact follows_pure h

theorem follows_attributeListsWith (m : Nat) : ∀ (n : Nat) (w : Walker) (c : Cursor), w.Mirrors c →
    c.ahead.length ≤ m → 4 * c.ahead.length + 1 ≤ n →
      Follows (attributeLists n) (Read.attributeListsWith m) w c := by
  induction m with
  | zero =>
    intro n w c h hm hn
    obtain ⟨n, rfl⟩ : ∃ k, n = k + 1 := ⟨n - 1, by omega⟩
    have hk := kind_of_ahead_nil h (List.length_eq_zero_iff.1 (Nat.le_zero.1 hm))
    rw [attributeLists]
    refine Follows.kind h ?_
    rw [hk]
    exact follows_pure h
  | succ m ih =>
    intro n w c h hm hn
    obtain ⟨n, rfl⟩ : ∃ k, n = k + 1 := ⟨n - 1, by omega⟩
    rw [attributeLists, Read.attributeListsWith, follows_get]
    refine Follows.kind h ?_
    split
    · next hk =>
      have hbump := length_bump h.ready (by simp [hk])
      rw [follows_set]
      refine Follows.bump h fun v _ hv => ?_
      refine (follows_attributeTarget hv).bind fun target d u _ hon hu => ?_
      have hle := hon.length_le hv hu
      refine (follows_attributes _ n u d hu (by omega) (by omega)).bind fun entries e x _ hon' hx => ?_
      have hle' := hon'.length_le hu hx
      refine (follows_expect hx .rbracket .closingBracket).bind fun close e' y _ hon'' hy => ?_
      have hle'' := hon''.length_le hx hy
      refine (ih n y e' hy (by omega) (by omega)).bind fun ls e'' z _ _ hz => ?_
      exact follows_pure hz
    · exact follows_pure h

theorem follows_attributeLists {n : Nat} (h : w.Mirrors c) (hn : 4 * c.ahead.length + 1 ≤ n) :
    Follows (attributeLists n) Read.attributeLists w c := by
  rw [Read.attributeLists, follows_get]
  exact follows_attributeListsWith _ n w c h (Nat.le_refl _) hn

end SelfTypeLint.Walk
