import SelfTypeLint.Proofs.Grammar.Declarations
import SelfTypeLint.Proofs.Reader.TypesSound

/-!
# Reading heads of declarations gives heads of the grammar
-/

namespace SelfTypeLint.Read

open Cursor Token Grammar

variable {α : Type}

theorem length_leadingModifiers_le (ts : List Token) :
    (leadingModifiers ts).length ≤ ts.length := by
  fun_induction leadingModifiers ts with
  | case1 => exact Nat.le_refl _
  | case2 t ts next h ih => simpa using ih
  | case3 t ts next h => exact Nat.zero_le _

theorem leadingModifiers_eq_take (ts : List Token) :
    leadingModifiers ts = (ts.take (leadingModifiers ts).length).map (·.text) := by
  fun_induction leadingModifiers ts with
  | case1 => rfl
  | case2 t ts next h ih => simpa using ih
  | case3 t ts next h => rfl

theorem spells_modifiers : SpellsAll modifiers fun ts rest ms =>
    ModifiersForm ts rest ∧ ms = ts.map (·.text) := by
  intro c hc
  have hle := length_leadingModifiers_le c.ahead
  have htake := leadingModifiers_eq_take c.ahead
  have htook := took_advance_take c hle
  refine ⟨_, htook, ?_, htake⟩
  rw [ModifiersForm, ← htook.ahead]
  exact htake

theorem atTypeDecl_iff {c : Cursor} (hc : c.Ready) : atTypeDecl c = true ↔ TypeAt c.ahead := by
  simp only [atTypeDecl, atRecord, Bool.or_eq_true, Bool.and_eq_true, decide_eq_true_eq, or_assoc]
  simp only [hc.kind_eq, hc.atWord_eq, peek_eq, TypeAt]

theorem spells_typeKind {c : Cursor} (hc : c.Ready) (ht : TypeAt c.ahead) :
    Spells c typeKind c KindForm := by
  have hne : c.kind ≠ .eof := by
    intro he
    rw [hc.ahead_eq_nil he] at ht
    simp [TypeAt, wordAt] at ht
  obtain ⟨t, hk, hcur, hb, ha⟩ := hc.exists_cons rfl hne
  refine sat_bind.2 (sat_next.2 ?_)
  rw [hcur]
  split
  · next hk' => exact ⟨_, hb, .classType hk'⟩
  · next hk' => exact ⟨_, hb, .structType hk'⟩
  · next hk' => exact ⟨_, hb, .interfaceType hk'⟩
  · next h1 h2 h3 =>
    have hr := hb.ready hc
    have hword : wordAt "record" [t] = true ∧ (c.bump.kind = .ident ∨ c.bump.kind = .kwClass ∨
        c.bump.kind = .kwStruct) := by
      rw [ha] at ht
      rw [hr.kind_eq]
      rcases ht with ht | ht | ht | ht
      · exact absurd ht h1
      · exact absurd ht h2
      · exact absurd ht h3
      · exact ht
    obtain ⟨hrecord, hnext⟩ := hword
    refine sat_bind.2 (sat_get.2 ?_)
    split
    · next hs =>
      obtain ⟨u, hu, -, hbu, -⟩ := hr.exists_cons hs (by simp)
      exact ⟨_, hb.trans hbu, .recordStruct hrecord hu⟩
    · next hs =>
      dsimp only
      split
      · next hcl =>
        obtain ⟨u, hu, -, hbu, -⟩ := hr.exists_cons hcl (by simp)
        exact ⟨_, hb.trans hbu, .recordClass hrecord hu⟩
      · next hcl =>
        have hident : c.bump.kind = .ident := by
          rcases hnext with h | h | h
          · exact h
          · exact absurd h hcl
          · exact absurd h hs
        exact ⟨_, hb, .record hrecord (hr.kind_eq ▸ hident)⟩

theorem spells_variance : SpellsAll variance VarianceForm := by
  intro c hc
  refine sat_bind.2 (sat_get.2 ?_)
  split
  · next hk =>
    obtain ⟨t, ht, hcur, hb, -⟩ := hc.exists_cons hk (by simp)
    rw [hcur]
    exact ⟨[t], hb, .contravariant ht⟩
  · next hk =>
    obtain ⟨t, ht, hcur, hb, -⟩ := hc.exists_cons hk (by simp)
    rw [hcur]
    exact ⟨[t], hb, .covariant ht⟩
  · next h1 h2 =>
    rw [hc.kind_eq] at h1 h2
    exact ⟨[], Took.refl c, .none ⟨h1, h2⟩⟩

/-- After an item, a comma goes on with the list. -/
theorem spells_moreItems {form : List Token → List Token → α → Prop} {more : Read (List α)} {a : α}
    {c d : Cursor} {ts : List Token} (hmore : SpellsAll more (ListForm form)) (hd : d.Ready)
    (hts : c.Took ts d) (ha : form ts d.ahead a) : Spells c (do
      if ← eat .comma then return a :: (← more) else return [a]) d (ListForm form) := by
  refine sat_bind.2 (sat_eat.2 ?_)
  split
  · next hk =>
    obtain ⟨k, hk', -, hb, hahead⟩ := hd.exists_cons hk (by simp)
    refine Spells.bind (ListForm form) (hmore _ (hb.ready hd)) (hts.trans hb) ?_
    intro us as e hus he has
    rw [hahead, hus.ahead] at ha
    exact ⟨_, by simpa using he, .more ha hk' has⟩
  · next hk =>
    rw [hd.kind_eq] at hk
    exact spells_pure hts (.last ha hk)

theorem spells_typeParamList (n : Nat) : SpellsAll (typeParamList n) (ListForm ParamForm) := by
  intro c hc
  induction n generalizing c with
  | zero => exact ⟨[], Took.refl c⟩
  | succ n ih =>
    rw [typeParamList]
    refine Spells.bind AttributeListsForm (spells_attributeLists c hc) (Took.refl c) ?_
    intro as attributes d has _ hattributes
    refine sat_bind.2 (sat_get.2 ?_)
    dsimp only
    refine Spells.bind VarianceForm (spells_variance d (has.ready hc)) has ?_
    intro vs variance e hvs hall hvariance
    refine sat_bind.2 (sat_expect.2 ?_)
    split
    · next hk =>
      obtain ⟨t, ht, hcur, hb, ha⟩ := (hall.ready hc).exists_cons hk (by simp)
      have htook : c.Took (as ++ (vs ++ [t])) e.bump := by
        simpa using hall.trans hb
      have hstart : (attributes.head?.map (·.span.start)).getD d.current.span.start =
          startOf (as ++ (vs ++ [t])) := by
        rw [hattributes.start_eq]
        cases as with
        | nil => exact (hvs.trans hb).current_start (by simp)
        | cons a as => rfl
      have hparam : ParamForm (as ++ (vs ++ [t])) e.bump.ahead
          { attributes, variance, name := identName t.text, nameSpan := t.span
            span := spanOf (as ++ (vs ++ [t])) } := by
        rw [ha] at hvariance
        rw [hvs.ahead, ha] at hattributes
        exact .mk hattributes hvariance ht
      have hspan : spanOf (as ++ (vs ++ [t])) = ⟨startOf (as ++ (vs ++ [t])), t.span.stop⟩ := by
        rw [spanOf, ← List.append_assoc, stopOf_concat]
      rw [hcur, hstart, ← hspan]
      exact spells_moreItems ih (htook.ready hc) htook hparam
    · exact ⟨_, hall⟩

theorem spells_typeParams : SpellsAll typeParams fun ts rest r => ParamsForm ts rest r.1 r.2 := by
  intro c hc
  refine sat_bind.2 (sat_get.2 ?_)
  split
  · next hk =>
    obtain ⟨o, ho, hcur, hb, -⟩ := hc.exists_cons hk (by simp)
    refine sat_bind.2 (sat_set.2 ?_)
    show Spells c _ c.bump fun ts rest (r : List TypeParam × Option Span) =>
      ParamsForm ts rest r.1 r.2
    refine Spells.bind (ListForm ParamForm) (spells_typeParamList _ _ (hb.ready hc)) hb ?_
    intro ts ps d hts hall hps
    refine sat_bind.2 (sat_expect.2 ?_)
    split
    · next hk' =>
      obtain ⟨b, hb', hcurb, hbb, ha⟩ := (hall.ready hc).exists_cons hk' (by simp)
      have htook := hall.trans hbb
      have hplaced := hc.placed
      rw [htook.ahead] at hplaced
      have hmerge := hplaced.merge_eq (b := b) (by simp)
      rw [hcur, hcurb, hmerge]
      rw [ha] at hps
      have := ParamsForm.some ho hps hb'
      exact ⟨_, htook, by simpa using this⟩
    · exact ⟨_, hall⟩
  · next hk =>
    rw [hc.kind_eq] at hk
    exact ⟨[], Took.refl c, .none hk⟩

theorem spells_baseTypeList (n : Nat) : SpellsAll (baseTypeList n) (ListForm BaseForm) := by
  intro c hc
  induction n generalizing c with
  | zero => exact ⟨[], Took.refl c⟩
  | succ n ih =>
    rw [baseTypeList]
    refine Spells.bind TypeForm (spells_typeExpr c hc) (Took.refl c) ?_
    intro ts e d hts _ h
    refine Spells.bind _ (spells_skipArguments d (hts.ready hc)) hts ?_
    intro us _ f hus hf hcall
    rw [hus.ahead] at h
    exact spells_moreItems ih (hf.ready hc) hf (.mk h hcall)

theorem spells_baseTypes : SpellsAll baseTypes BasesForm := by
  intro c hc
  refine sat_bind.2 (sat_eat.2 ?_)
  split
  · next hk =>
    obtain ⟨k, hk', -, hb, -⟩ := hc.exists_cons hk (by simp)
    refine sat_bind.2 (sat_get.2 ?_)
    refine (spells_baseTypeList _ _ (hb.ready hc)).after hb ?_
    intro ts rest es _ h
    exact .some hk' h
  · next hk =>
    rw [hc.kind_eq] at hk
    exact spells_pure (Took.refl c) (.none hk)

/-! ## Constraints -/

theorem spells_skipConstraints {c : Cursor} (hc : c.Ready) {n : Nat} (hn : c.ahead.length ≤ n) :
    Spells c (skipConstraints n) c fun ts rest _ => ClauseForm ts rest := by
  induction n generalizing c with
  | zero =>
    have h : c.ahead = [] := List.length_eq_zero_iff.1 (Nat.le_zero.1 hn)
    exact ⟨[], Took.refl c, .done (by simp [ClauseEnd, h])⟩
  | succ n ih =>
    rw [skipConstraints]
    refine sat_bind.2 (sat_get.2 ?_)
    have hstop : ClauseEnd c.ahead → Spells c (pure ()) c fun ts rest _ => ClauseForm ts rest :=
      fun h => ⟨[], Took.refl c, .done h⟩
    split
    · next hk => exact hstop (.inl (hc.kind_eq ▸ hk))
    · next hk => exact hstop (.inr (.inl (hc.kind_eq ▸ hk)))
    · next hk => exact hstop (.inr (.inr (.inl (hc.kind_eq ▸ hk))))
    · next hk => exact hstop (.inr (.inr (.inr (.inl (hc.kind_eq ▸ hk)))))
    · next hk =>
      show Spells c _ c fun ts rest _ => ClauseForm ts rest
      refine Spells.bind _ (spells_skipBalanced hc hk (by simp)) (Took.refl c) ?_
      rintro us - d hus - ⟨o, vs, rfl, ho, hg⟩
      have hlen := hus.length_le
      simp only [List.length_cons] at hlen
      refine (ih (hus.ready hc) (by omega)).after hus ?_
      intro ts rest _ _ h
      exact .group ho hg h
    · next h1 h2 h3 h4 h5 =>
      rw [hc.atWord_eq]
      split
      · next hw => exact hstop (.inr (.inr (.inr (.inr hw))))
      · next hw =>
        obtain ⟨t, ht, -, hb, ha⟩ := hc.exists_cons rfl h3
        have hlen := hb.length_le
        simp only [List.length_singleton] at hlen
        refine sat_bind.2 (sat_set.2 ?_)
        show Spells c _ c.bump fun ts rest _ => ClauseForm ts rest
        refine (ih (hb.ready hc) (by omega)).after hb ?_
        intro ts rest _ _ h
        rw [ha, ← wordAt_singleton] at hw
        rw [← ht] at h1 h2 h3 h4 h5
        have hinside : ¬ ClauseEnd [t] := by
          rintro (h | h | h | h | h)
          · exact h1 h
          · exact h2 h
          · exact h3 h
          · exact h4 h
          · exact hw h
        exact .token hinside h5 h

theorem spells_skipConstraintClauses {c : Cursor} (hc : c.Ready) {n : Nat}
    (hn : c.ahead.length ≤ n) :
    Spells c (skipConstraintClauses n) c fun ts rest _ => ConstraintsForm ts rest := by
  induction n generalizing c with
  | zero =>
    have h : c.ahead = [] := List.length_eq_zero_iff.1 (Nat.le_zero.1 hn)
    exact ⟨[], Took.refl c, .none (by simp [wordAt, h])⟩
  | succ n ih =>
    rw [skipConstraintClauses]
    refine sat_bind.2 (sat_get.2 ?_)
    rw [hc.atWord_eq]
    split
    · next hw =>
      have hne : c.kind ≠ .eof := by
        intro he
        rw [hc.ahead_eq_nil he] at hw
        simp [wordAt] at hw
      obtain ⟨w, -, -, hb, ha⟩ := hc.exists_cons rfl hne
      have hlen := hb.length_le
      simp only [List.length_singleton] at hlen
      refine sat_bind.2 (sat_set.2 ?_)
      show Spells c _ c.bump fun ts rest _ => ConstraintsForm ts rest
      refine Spells.bind _ (spells_skipConstraints (hb.ready hc) (by omega)) hb ?_
      intro ts _ d hts hall hclause
      have hlen' := hall.length_le
      simp only [List.length_append, List.length_singleton] at hlen'
      refine (ih (hall.ready hc) (by omega)).after hall ?_
      intro us rest _ hrest h
      rw [ha, ← wordAt_singleton] at hw
      exact .cons hw (hrest ▸ hclause) h
    · next hw => exact ⟨[], Took.refl c, .none (by simpa using hw)⟩

/-! ## Whole heads -/

/-- What holds after a step that spells its value, followed by another. -/
theorem Spells.sat_bind {β : Type} {f : Read β} {g : β → Read α} {d : Cursor}
    {first : List Token → List Token → β → Prop} {Q : α → Cursor → Prop} {E : Cursor → Prop}
    (h : Spells d f d first) (hE : ∀ us e, d.Took us e → E e)
    (hg : ∀ us b e, d.Took us e → first us e.ahead b → Sat (g b) e Q E) :
    Sat (f >>= g) d Q E := by
  refine Read.sat_bind.2 (Sat.mono h ?_ ?_)
  · rintro b e ⟨us, hus, hb⟩
    exact hg us b e hus hb
  · rintro e ⟨us, hus⟩
    exact hE us e hus

/-- Reads the head of a type declaration and goes on with what it says. -/
def withHead (g : TypeKind → Token → List TypeParam → Option Span → List TypeExpr → Read α) :
    Read α := do
  let kind ← typeKind
  let t ← expect .ident .typeName
  let (params, paramsSpan) ← typeParams
  skipArguments
  let baseList ← baseTypes
  skipConstraintClauses (← get).ahead.length
  g kind t params paramsSpan baseList

/-- The parts of a head, read one after another, make a head. -/
theorem sat_withHead {g : TypeKind → Token → List TypeParam → Option Span → List TypeExpr → Read α}
    {c : Cursor} (hc : c.Ready) (ht : TypeAt c.ahead) {Q : α → Cursor → Prop}
    {E : Cursor → Prop} (hE : ∀ ts d, c.Took ts d → E d)
    (hg : ∀ ts d kind t params span bases, c.Took ts d →
      HeaderForm ts d.ahead ⟨kind, ⟨identName t.text, t.span⟩, params, span, bases⟩ →
      Sat (g kind t params span bases) d Q E) :
    Sat (withHead g) c Q E := by
  refine (spells_typeKind hc ht).sat_bind hE ?_
  intro ks kind d1 hks hkind
  refine Read.sat_bind.2 (sat_expect.2 ?_)
  split
  · next hk =>
    obtain ⟨t, ht, hcur, hb, ha⟩ := (hks.ready hc).exists_cons hk (by simp)
    have h1 := hks.trans hb
    rw [hcur]
    refine (spells_typeParams _ (h1.ready hc)).sat_bind (fun us e h => hE _ e (h1.trans h)) ?_
    rintro ps ⟨params, span⟩ d2 hps hparams
    have h2 := h1.trans hps
    refine (spells_skipArguments _ (h2.ready hc)).sat_bind (fun us e h => hE _ e (h2.trans h)) ?_
    intro gs _ d3 hgs hcall
    have h3 := h2.trans hgs
    refine (spells_baseTypes _ (h3.ready hc)).sat_bind (fun us e h => hE _ e (h3.trans h)) ?_
    intro bs bases d4 hbs hbases
    have h4 := h3.trans hbs
    refine Read.sat_bind.2 (sat_get.2 ?_)
    refine (spells_skipConstraintClauses (h4.ready hc) (Nat.le_refl _)).sat_bind
      (fun us e h => hE _ e (h4.trans h)) ?_
    intro ws _ d5 hws hconstraints
    have h5 := h4.trans hws
    rw [ha, hps.ahead, hgs.ahead, hbs.ahead, hws.ahead] at hkind
    rw [hgs.ahead, hbs.ahead, hws.ahead] at hparams
    rw [hbs.ahead, hws.ahead] at hcall
    rw [hws.ahead] at hbases
    refine hg (ks ++ t :: (ps ++ (gs ++ (bs ++ ws)))) d5 kind t params span bases ?_ ?_
    · simpa using h5
    · exact .mk hkind ht hparams hcall hbases hconstraints
  · exact hE ks d1 hks

end SelfTypeLint.Read
