import SelfTypeLint.Proofs.Reader.FilesSound
import SelfTypeLint.Proofs.Walk.Types

/-!
# Walks through the heads of declarations

Modifiers, type parameters, base types and using directives. Where the reader measures what it takes on
the tokens ahead, the walk tests it token by token.
-/

namespace SelfTypeLint.Walk

open Walker Cursor

variable {α : Type} {w w' : Walker} {c d : Cursor}

/-- A walk that is over follows a step that only moves the cursor. -/
theorem follows_set_done (h : w.Mirrors d) : Follows (pure ()) (set d) w c :=
  ⟨w, rfl, Onward.refl w, h⟩

/-! ## Using directives -/

/-- What is said before the target of a using directive is passed on to what follows. -/
theorem follows_withUsingKind {f : UsingKind × Option String → Walk α}
    {g : String → UsingKind → Option String → Read α} (h : w.Mirrors c)
    (hfg : ∀ k newName w' d, w.Onward w' → w'.Mirrors d →
      Follows (f (k, newName)) (g c.source k newName) w' d) :
    Follows (liftM usingKind >>= f) (Read.withUsingKind g) w c := by
  rw [Read.withUsingKind, follows_get]
  obtain ⟨v, hbump, hon, hv⟩ := exists_bump h
  split
  · next hk =>
    have hrun : usingKind.run w = some ((.ofMembers, none), v) := by
      rw [usingKind, run_bind_some (kind_run h), if_pos hk, run_bind_some hbump]
      rfl
    rw [follows_set]
    exact Follows.after hrun hon (hfg _ _ v _ hon hv)
  · next hk =>
    split
    · next halias =>
      obtain ⟨u, hbump', hon', hu⟩ := exists_bump hv
      have hrun : usingKind.run w = some ((.ofAlias, some (identName c.current.text)), u) := by
        rw [usingKind, run_bind_some (kind_run h), if_neg hk, run_bind_some (kind_run h)]
        show StateT.run (ite (c.kind = .ident ∧ w.peek 1 = .eq) _ _) w = _
        rw [h.peek, if_pos halias, run_bind_some hbump, run_bind_some hbump']
        rfl
      rw [follows_set]
      exact Follows.after hrun (hon.trans hon') (hfg _ _ u _ (hon.trans hon') hu)
    · next halias =>
      have hrun : usingKind.run w = some ((.ofNamespace, none), w) := by
        rw [usingKind, run_bind_some (kind_run h), if_neg hk, run_bind_some (kind_run h)]
        show StateT.run (ite (c.kind = .ident ∧ w.peek 1 = .eq) _ _) w = _
        rw [h.peek, if_neg halias]
        rfl
      exact Follows.after hrun (Onward.refl w) (hfg _ _ w c (Onward.refl w) h)

theorem follows_usingRest {n start : Nat} {isGlobal : Bool} (h : w.Mirrors c)
    (hn : 4 * c.ahead.length + 3 ≤ n) : Follows (usingRest n start isGlobal) (do
      let _ ← Read.expect .kwUsing .usingWord
      Read.withUsingKind (Read.usingTarget start isGlobal)) w c := by
  rw [usingRest]
  refine (follows_expect h .kwUsing .usingWord).bind fun _ d v _ hon hv => ?_
  have hle := hon.length_le h hv
  refine follows_withUsingKind hv fun k newName u e hon' hu => ?_
  have hle' := hon'.length_le hv hu
  rw [Read.usingTarget]
  refine (follows_typeExpr hu (by omega)).bind fun target e' x _ hon'' hx => ?_
  refine Follows.get ?_
  rw [hx.source, (hon'.trans hon'').source_eq hv hx]
  refine (follows_expect hx .semi .semicolon).bind fun _ e'' y _ _ hy => ?_
  rw [follows_spanFrom]
  exact Follows.spanFrom hy (follows_pure hy)

theorem follows_usingDirective {n : Nat} (h : w.Mirrors c) (hn : 4 * c.ahead.length + 3 ≤ n) :
    Follows (usingDirective n) Read.usingDirective w c := by
  rw [usingDirective, Read.usingDirective_eq, follows_get]
  refine Follows.current h (Follows.atWord h ?_)
  dsimp only
  split
  · rw [follows_set]
    refine Follows.bump h fun v hon hv => ?_
    have hle := hon.length_le h hv
    exact follows_usingRest hv (by omega)
  · exact follows_usingRest h hn

/-! ## Modifiers -/

theorem exists_modifiers (n : Nat) : ∀ (w : Walker) (c : Cursor), w.Mirrors c →
    c.ahead.length < n → ∃ w', (modifiers n).run w = some (Read.leadingModifiers c.ahead, w') ∧
      w.Onward w' ∧ w'.Mirrors (c.advance (Read.leadingModifiers c.ahead).length) := by
  induction n with
  | zero => intro _ c _ hn; omega
  | succ n ih =>
    intro w c h hn
    rw [modifiers, run_bind_some (current_run h)]
    show ∃ w', StateT.run (ite _ _ _) w = _ ∧ _
    rw [h.peek]
    cases ha : c.ahead with
    | nil =>
      have heof : c.current.kind = .eof := kind_of_ahead_nil h ha
      rw [if_neg (by simp [heof])]
      exact ⟨w, rfl, Onward.refl w, h⟩
    | cons t ts =>
      have hlen := length_of_cons ha
      have hpeek : c.peek 1 = (ts.head?.map (·.kind)).getD .eof := by
        rw [Cursor.peek, ha, List.getElem?_cons_succ, List.head?_eq_getElem?]
      rw [hpeek, current_of_cons ha, Read.leadingModifiers]
      split
      · obtain ⟨v, hbump, hon, hv⟩ := exists_bump h
        obtain ⟨w', hrun, hon', hw'⟩ := ih v c.bump hv (by omega)
        rw [ahead_bump ha] at hrun hw'
        refine ⟨w', ?_, hon.trans hon', hw'⟩
        rw [run_bind_some hbump, run_bind_some hrun]
        rfl
      · exact ⟨w, rfl, Onward.refl w, h⟩

/-! ## Type declarations -/

theorem atTypeDecl_run (h : w.Mirrors c) : atTypeDecl.run w = some (Read.atTypeDecl c, w) := by
  have hrecord : atRecord.run w = some (Read.atRecord c, w) := by
    rw [atRecord, run_bind_some (atWord_run h _), Read.atRecord]
    cases c.atWord "record" with
    | false => rfl
    | true =>
      show some (_, w) = _
      rw [h.peek]
      rfl
  rw [atTypeDecl, run_bind_some (kind_run h), Read.atTypeDecl]
  split
  · next hk =>
    have htrue : (c.kind = .kwClass || c.kind = .kwStruct || c.kind = .kwInterface) = true := by
      rcases hk with hk | hk | hk <;> simp [hk]
    rw [htrue]
    rfl
  · next hk =>
    have hfalse : (c.kind = .kwClass || c.kind = .kwStruct || c.kind = .kwInterface) = false := by
      simpa [not_or, and_assoc] using hk
    rw [hrecord, hfalse]
    rfl

theorem follows_typeKind (h : w.Mirrors c) : Follows typeKind Read.typeKind w c := by
  rw [typeKind, Read.typeKind, follows_next]
  refine Follows.bump h fun v _ hv => ?_
  split
  · next hk =>
    rw [hk]
    exact follows_pure hv
  · split
    · next hk =>
      rw [hk]
      exact follows_pure hv
    · split
      · next hk =>
        rw [hk]
        exact follows_pure hv
      · next h1 h2 h3 =>
        split
        · contradiction
        · contradiction
        · contradiction
        · rw [follows_get]
          refine Follows.eat hv fun u _ hu => ?_
          by_cases hk : c.bump.kind = .kwStruct
          · rw [Cursor.eat, if_pos hk] at hu
            simp only [hk, decide_true, if_true]
            exact follows_set.2 (follows_pure hu)
          · rw [Cursor.eat, if_neg hk] at hu
            simp only [hk, decide_false, if_false]
            refine Follows.eat hu fun x _ hx => ?_
            rw [Cursor.eat] at hx
            split at hx
            · next hk' =>
              rw [if_pos hk', follows_set]
              exact follows_pure hx
            · next hk' =>
              rw [if_neg hk']
              exact follows_pure hx

theorem follows_variance (h : w.Mirrors c) : Follows variance Read.variance w c := by
  rw [Read.variance, follows_get]
  split
  · next hk =>
    rw [variance, follows_set]
    refine Follows.kind h ?_
    rw [if_pos hk]
    exact Follows.bump h fun v _ hv => follows_pure hv
  · next hk =>
    rw [variance, follows_set]
    refine Follows.kind h ?_
    rw [if_neg (by simp [hk]), if_pos hk]
    exact Follows.bump h fun v _ hv => follows_pure hv
  · next h1 h2 =>
    rw [variance]
    refine Follows.kind h ?_
    rw [if_neg h1, if_neg h2]
    exact follows_pure h

theorem follows_typeParamList (m : Nat) : ∀ (n : Nat) (w : Walker) (c : Cursor), w.Mirrors c →
    c.ahead.length < m → 4 * c.ahead.length + 2 ≤ n →
      Follows (typeParamList n) (Read.typeParamList m) w c := by
  induction m with
  | zero => intro n w c _ hm; omega
  | succ m ih =>
    intro n w c h hm hn
    obtain ⟨n, rfl⟩ : ∃ k, n = k + 1 := ⟨n - 1, by omega⟩
    rw [typeParamList, Read.typeParamList]
    refine (follows_attributeLists h (by omega)).bind fun attributes d v _ hon hv => ?_
    have hle := hon.length_le h hv
    rw [follows_get]
    refine Follows.current hv ?_
    dsimp only
    refine (follows_variance hv).bind fun variance e u _ hon' hu => ?_
    have hle' := hon'.length_le hv hu
    refine (follows_expect hu .ident .typeParamName).bind fun t e' x _ hon'' hx => ?_
    have hle'' := hon''.length_le hu hx
    exact follows_more _ hx fun w' d' h' hd' => ih n w' d' h' (by omega) (by omega)

theorem follows_typeParams {n : Nat} (h : w.Mirrors c) (hn : 4 * c.ahead.length + 2 ≤ n) :
    Follows (typeParams n) Read.typeParams w c := by
  rw [typeParams, Read.typeParams, follows_get]
  refine Follows.kind h ?_
  split
  · next hk =>
    have hbump := length_bump h.ready (by simp [hk])
    rw [follows_set]
    refine Follows.bump h fun v _ hv => ?_
    refine (follows_typeParamList _ n v _ hv (by omega) (by omega)).bind fun ps d u _ _ hu => ?_
    refine (follows_expect hu .gt .commaOrClosingAngle).bind fun close e x _ _ hx => ?_
    exact follows_pure hx
  · exact follows_pure h

theorem follows_baseTypeList (m : Nat) : ∀ (n : Nat) (w : Walker) (c : Cursor), w.Mirrors c →
    c.ahead.length < m → 4 * c.ahead.length + 4 ≤ n →
      Follows (baseTypeList n) (Read.baseTypeList m) w c := by
  induction m with
  | zero => intro n w c _ hm; omega
  | succ m ih =>
    intro n w c h hm hn
    obtain ⟨n, rfl⟩ : ∃ k, n = k + 1 := ⟨n - 1, by omega⟩
    rw [baseTypeList, Read.baseTypeList]
    refine (follows_typeExpr h (by omega)).bind fun e d v _ hon hv => ?_
    have hle := hon.length_le h hv
    refine (follows_callArguments hv (by omega)).bind fun _ d' u _ hon' hu => ?_
    have hle' := hon'.length_le hv hu
    exact follows_more e hu fun w' d' h' hd' => ih n w' d' h' (by omega) (by omega)

theorem follows_baseTypes {n : Nat} (h : w.Mirrors c) (hn : 4 * c.ahead.length + 4 ≤ n) :
    Follows (baseTypes n) Read.baseTypes w c := by
  rw [baseTypes, Read.baseTypes, follows_eat]
  refine Follows.eat h fun v hon hv => ?_
  have hle := hon.length_le h hv
  split
  · rw [follows_get]
    exact follows_baseTypeList _ n v _ hv (by omega) (by omega)
  · exact follows_pure hv

theorem follows_closeBody (h : w.Mirrors c) : Follows closeBody Read.closeBody w c := by
  rw [closeBody, Read.closeBody, follows_get]
  refine Follows.kind h ?_
  split
  · exact Follows.bump h fun v _ hv => Follows.eat hv fun u _ hu => follows_set_done hu
  · refine Follows.after (unexpected_run h .closingBrace) (Onward.refl w) ?_
    exact ⟨w.report _, rfl, Onward.report w _, h.report _⟩

/-! ## What stands in front of declarations -/

theorem follows_modifiers {f : Walk α} {k : List String → Read α} :
    Follows f (Read.modifiers >>= k) w c ↔ Follows f (k (Read.leadingModifiers c.ahead)) w
      (c.advance (Read.leadingModifiers c.ahead).length) := Iff.rfl

/-- Attribute lists and modifiers in front of what follows. -/
theorem follows_front {n : Nat} {f : List AttributeList → List String → Walk α}
    {g : List AttributeList → List String → Read α} (h : w.Mirrors c)
    (hn : 4 * c.ahead.length + 1 ≤ n)
    (hfg : ∀ attributes modifiers w' d, w'.Mirrors d → d.ahead.length ≤ c.ahead.length →
      Follows (f attributes modifiers) (g attributes modifiers) w' d) :
    Follows (do
        let attributes ← attributeLists n
        let modifiers ← modifiers n
        f attributes modifiers) (do
        let attributes ← Read.attributeLists
        let modifiers ← Read.modifiers
        g attributes modifiers) w c := by
  refine (follows_attributeLists h hn).bind fun attributes d v _ hon hv => ?_
  have hle := hon.length_le h hv
  rw [follows_modifiers]
  obtain ⟨u, hmodifiers, hon', hu⟩ := exists_modifiers n v d hv (by omega)
  exact Follows.after hmodifiers hon' (hfg _ _ u _ hu (Nat.le_trans (hon'.length_le hv hu) hle))

end SelfTypeLint.Walk
