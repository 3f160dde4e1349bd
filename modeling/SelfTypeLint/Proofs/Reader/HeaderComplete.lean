import SelfTypeLint.Proofs.Reader.HeaderSound
import SelfTypeLint.Proofs.Reader.TypesComplete

/-!
# Heads of the grammar are read
-/

namespace SelfTypeLint.Read

open Cursor Token Grammar

variable {α : Type} {c : Cursor} {Q : α → Cursor → Prop} {E : Cursor → Prop}

theorem parses_modifiers {ts rest : List Token} (h : ModifiersForm ts rest)
    (ha : c.ahead = ts ++ rest) : Parses modifiers c ts (ts.map (·.text)) := by
  have hwords : leadingModifiers c.ahead = ts.map (·.text) := by
    rw [ha]
    exact h
  refine Read.sat_bind.2 (sat_get.2 ?_)
  dsimp only
  rw [hwords, List.length_map]
  exact ⟨rfl, took_advance ha⟩

theorem parses_typeKind {ts rest : List Token} {kind : TypeKind} (h : KindForm ts rest kind)
    (hc : c.Ready) (ha : c.ahead = ts ++ rest) : Parses typeKind c ts kind := by
  refine Read.sat_bind.2 (sat_next.2 ?_)
  cases h with
  | classType word =>
    rw [current_of_cons ha, word]
    exact ⟨rfl, took_bump ha⟩
  | structType word =>
    rw [current_of_cons ha, word]
    exact ⟨rfl, took_bump ha⟩
  | interfaceType word =>
    rw [current_of_cons ha, word]
    exact ⟨rfl, took_bump ha⟩
  | record word name =>
    obtain ⟨hb, hab, htook⟩ := bump_of_ahead hc ha
    have hk := (kind_of_ahead hb hab).trans name
    rw [current_of_cons ha, kind_of_wordAt word]
    refine Read.sat_bind.2 (sat_get.2 ?_)
    simp only [hk]
    exact ⟨rfl, htook⟩
  | recordClass word second =>
    obtain ⟨hb, hab, htook⟩ := bump_of_ahead hc ha
    obtain ⟨-, -, htook'⟩ := bump_of_ahead hb hab
    have hk := (kind_of_ahead hb hab).trans second
    rw [current_of_cons ha, kind_of_wordAt word]
    refine Read.sat_bind.2 (sat_get.2 ?_)
    simp only [hk]
    exact ⟨rfl, htook.trans htook'⟩
  | recordStruct word second =>
    obtain ⟨hb, hab, htook⟩ := bump_of_ahead hc ha
    obtain ⟨-, -, htook'⟩ := bump_of_ahead hb hab
    have hk := (kind_of_ahead hb hab).trans second
    rw [current_of_cons ha, kind_of_wordAt word]
    refine Read.sat_bind.2 (sat_get.2 ?_)
    simp only [hk]
    exact ⟨rfl, htook.trans htook'⟩

theorem parses_variance {ts rest : List Token} {v : Option (Variance × Span)}
    (h : VarianceForm ts rest v) (hc : c.Ready) (ha : c.ahead = ts ++ rest) :
    Parses variance c ts v := by
  have hk := kind_of_ahead hc ha
  refine Read.sat_bind.2 (sat_get.2 ?_)
  cases h with
  | none stop =>
    rw [List.nil_append] at hk
    split
    · next hin => exact absurd (hk ▸ hin) stop.1
    · next hout => exact absurd (hk ▸ hout) stop.2
    · exact ⟨rfl, Took.refl c⟩
  | contravariant word =>
    rw [hk.trans word, current_of_cons ha]
    exact ⟨rfl, took_bump ha⟩
  | covariant word =>
    rw [hk.trans word, current_of_cons ha]
    exact ⟨rfl, took_bump ha⟩

/-! ## Lists -/

/-- A list of items is read, if each item is and a comma goes on with the list. -/
private theorem parses_list {form : List Token → List Token → α → Prop}
    {list : Nat → Read (List α)} (hne : ∀ {ts rest a}, form ts rest a → ts ≠ [])
    (hitem : ∀ {n : Nat} {c : Cursor} {ts rest : List Token} {a : α} {Q : List α → Cursor → Prop}
      {E : Cursor → Prop}, form ts rest a → c.Ready → c.ahead = ts ++ rest →
      (∀ d, d.Ready → d.ahead = rest → c.Took ts d → Sat (do
        if ← eat .comma then return a :: (← list n) else return [a]) d Q E) →
      Sat (list (n + 1)) c Q E)
    {ts rest : List Token} {as : List α} (h : ListForm form ts rest as) (hc : c.Ready)
    (ha : c.ahead = ts ++ rest) {n : Nat} (hn : ts.length ≤ n) : Parses (list n) c ts as := by
  induction h generalizing c n with
  | @last ts rest a item stop =>
    have hpos := List.length_pos_iff.2 (hne item)
    obtain ⟨n, rfl⟩ : ∃ m, n = m + 1 := ⟨n - 1, by omega⟩
    refine hitem item hc ha fun d hd had hts => ?_
    have hk := kind_ne_of_ahead hd had stop
    simp only [Read.sat_bind, sat_eat, if_neg hk]
    exact ⟨rfl, hts⟩
  | @more ts us rest k a as item comma _ ih =>
    simp only [List.length_append, List.length_cons] at hn
    obtain ⟨n, rfl⟩ : ∃ m, n = m + 1 := ⟨n - 1, by omega⟩
    have ha' : c.ahead = ts ++ (k :: (us ++ rest)) := by simpa using ha
    refine hitem item hc ha' fun d hd had hts => ?_
    obtain ⟨hb, hab, hbump⟩ := bump_of_ahead hd had
    have hk := (kind_of_ahead hd had).trans comma
    simp only [Read.sat_bind, sat_eat, if_pos hk]
    refine (ih hb hab (by omega)).sat_bind hb hab fun e _ _ he => ⟨rfl, ?_⟩
    simpa using hts.trans (hbump.trans he)

theorem parses_typeParamList {ts rest : List Token} {ps : List TypeParam}
    (h : ListForm ParamForm ts rest ps) (hc : c.Ready) (ha : c.ahead = ts ++ rest) {n : Nat}
    (hn : ts.length ≤ n) : Parses (typeParamList n) c ts ps := by
  refine parses_list ParamForm.ne_nil ?_ h hc ha hn
  clear h hc ha hn
  intro n c ts rest p Q E h hc ha hmore
  cases h with
  | @mk as vs _ t attributes v attributesForm varianceForm word =>
    have ha' : c.ahead = as ++ (vs ++ t :: rest) := by simpa using ha
    rw [typeParamList]
    refine (parses_attributeLists attributesForm hc ha').sat_bind hc ha' fun d hd had has => ?_
    refine Read.sat_bind.2 (sat_get.2 ?_)
    refine (parses_variance varianceForm hd had).sat_bind hd had fun e he hae hvs => ?_
    refine sat_expect_bind he hae word fun f hf haf hname => ?_
    have hall := has.trans (hvs.trans hname)
    have hstart : (attributes.head?.map (·.span.start)).getD d.current.span.start =
        startOf (as ++ (vs ++ [t])) := by
      rw [attributesForm.start_eq]
      cases as with
      | nil =>
        rw [current_start_eq (by rw [had]; simp), had]
        cases vs <;> rfl
      | cons a as => rfl
    dsimp only
    rw [hstart]
    have := hmore f hf haf hall
    rw [spanOf, ← List.append_assoc, stopOf_concat] at this
    rwa [List.append_assoc] at this

theorem parses_typeParams {ts rest : List Token} {ps : List TypeParam} {span : Option Span}
    (h : ParamsForm ts rest ps span) (hc : c.Ready) (ha : c.ahead = ts ++ rest) :
    Parses typeParams c ts (ps, span) := by
  have hk := kind_of_ahead hc ha
  refine Read.sat_bind.2 (sat_get.2 ?_)
  cases h with
  | none stop =>
    rw [if_neg (hk ▸ stop)]
    exact ⟨rfl, Took.refl c⟩
  | @some o k ts rest ps opener list closer =>
    have ha' : c.ahead = o :: (ts ++ (k :: rest)) := by simpa using ha
    have hlen : ts.length ≤ c.ahead.length := by
      rw [ha']
      simp only [List.length_append, List.length_cons]
      omega
    obtain ⟨hb, hab, hbump⟩ := bump_of_ahead hc ha'
    rw [if_pos (hk.trans opener)]
    refine Read.sat_bind.2 (sat_set.2 ?_)
    refine (parses_typeParamList list hb hab hlen).sat_bind hb hab fun d hd had hts => ?_
    refine sat_expect_bind hd had closer fun e he hae hclose => ?_
    have hmerge : c.current.span.merge k.span = ⟨o.span.start, k.span.stop⟩ := by
      have hplaced := hc.placed
      rw [ha'] at hplaced
      rw [current_of_cons ha']
      exact hplaced.merge_eq (by simp)
    rw [hmerge]
    exact ⟨rfl, hbump.trans (hts.trans hclose)⟩

theorem parses_baseTypeList {ts rest : List Token} {es : List TypeExpr}
    (h : ListForm BaseForm ts rest es) (hc : c.Ready) (ha : c.ahead = ts ++ rest) {n : Nat}
    (hn : ts.length ≤ n) : Parses (baseTypeList n) c ts es := by
  refine parses_list BaseForm.ne_nil ?_ h hc ha hn
  clear h hc ha hn
  intro n c ts rest e Q E h hc ha hmore
  cases h with
  | @mk ts us _ _ type call =>
    have ha' : c.ahead = ts ++ (us ++ rest) := by simpa using ha
    rw [baseTypeList]
    refine (parses_typeExpr type hc ha').sat_bind hc ha' fun d hd had hts => ?_
    refine (parses_skipArguments call hd had).sat_bind hd had fun f hf haf hus => ?_
    exact hmore f hf haf (hts.trans hus)

theorem parses_baseTypes {ts rest : List Token} {es : List TypeExpr} (h : BasesForm ts rest es)
    (hc : c.Ready) (ha : c.ahead = ts ++ rest) : Parses baseTypes c ts es := by
  have hk := kind_of_ahead hc ha
  refine Read.sat_bind.2 (sat_eat.2 ?_)
  cases h with
  | none stop =>
    rw [if_neg (hk ▸ stop)]
    exact ⟨rfl, Took.refl c⟩
  | @some k ts rest es colon list =>
    have ha' : c.ahead = k :: (ts ++ rest) := ha
    obtain ⟨hb, hab, hbump⟩ := bump_of_ahead hc ha'
    rw [if_pos (hk.trans colon)]
    refine Read.sat_bind.2 (sat_get.2 ?_)
    have hlen : ts.length ≤ c.bump.ahead.length + 1 := by
      rw [hab, List.length_append]
      omega
    exact (parses_baseTypeList list hb hab hlen).sat fun d hd => ⟨rfl, hbump.trans hd⟩

/-! ## Constraints -/

theorem parses_skipConstraints {ts rest : List Token} (h : ClauseForm ts rest) (hc : c.Ready)
    (ha : c.ahead = ts ++ rest) {n : Nat} (hn : ts.length ≤ n) :
    Parses (skipConstraints n) c ts () := by
  induction h generalizing c n with
  | @done rest stop =>
    cases n with
    | zero => exact ⟨rfl, Took.refl c⟩
    | succ n =>
      have hk := kind_of_ahead hc ha
      rw [skipConstraints]
      refine Read.sat_bind.2 (sat_get.2 ?_)
      split
      · exact ⟨rfl, Took.refl c⟩
      · exact ⟨rfl, Took.refl c⟩
      · exact ⟨rfl, Took.refl c⟩
      · exact ⟨rfl, Took.refl c⟩
      · next hp =>
        rw [hk] at hp
        rcases stop with h | h | h | h | h
        · simp [h] at hp
        · simp [h] at hp
        · simp [h] at hp
        · simp [h] at hp
        · cases rest with
          | nil => simp [wordAt] at h
          | cons t rest =>
            have := kind_of_wordAt (wordAt_singleton.trans h)
            rw [List.nil_append, kindAt_cons_zero, this] at hp
            simp at hp
      · next h1 h2 h3 h4 h5 =>
        rw [hk] at h1 h2 h3 h4
        rcases stop with h | h | h | h | h
        · exact absurd h h1
        · exact absurd h h2
        · exact absurd h h3
        · exact absurd h h4
        · rw [if_pos (by rw [hc.atWord_eq, ha]; exact h)]
          exact ⟨rfl, Took.refl c⟩
  | @group o us ts rest opener group _ ih =>
    obtain ⟨n, rfl⟩ : ∃ m, n = m + 1 := ⟨n - 1, by simp at hn; omega⟩
    have ha' : c.ahead = o :: (us ++ (ts ++ rest)) := by simpa using ha
    have hk : c.kind = .lparen := (kind_of_ahead hc ha').trans opener
    simp only [List.length_append, List.length_cons] at hn
    rw [skipConstraints]
    refine Read.sat_bind.2 (sat_get.2 ?_)
    simp only [hk]
    refine (parses_skipBalanced (opener ▸ group) hc ha').sat_bind hc
      (by rw [ha', List.cons_append]) fun d hd had htook => ?_
    refine (ih hd had (by omega)).sat fun e he => ⟨trivial, ?_⟩
    simpa using htook.trans he
  | @token t ts rest inside plain _ ih =>
    obtain ⟨n, rfl⟩ : ∃ m, n = m + 1 := ⟨n - 1, by simp at hn; omega⟩
    have hk : c.kind = t.kind := kind_of_ahead hc ha
    have hword : c.atWord "where" = false := by
      rw [hc.atWord_eq, ha, List.cons_append, ← wordAt_singleton, ← Bool.not_eq_true]
      exact fun h => inside (.inr (.inr (.inr (.inr h))))
    obtain ⟨hb, hab, htook⟩ := bump_of_ahead hc ha
    rw [skipConstraints]
    refine Read.sat_bind.2 (sat_get.2 ?_)
    split
    · next h => exact absurd (.inl (hk.symm.trans h)) inside
    · next h => exact absurd (.inr (.inl (hk.symm.trans h))) inside
    · next h => exact absurd (.inr (.inr (.inl (hk.symm.trans h)))) inside
    · next h => exact absurd (.inr (.inr (.inr (.inl (hk.symm.trans h))))) inside
    · next h => exact absurd (hk.symm.trans h) plain
    · rw [hword]
      refine Read.sat_bind.2 (sat_set.2 ?_)
      refine (ih hb hab (by simpa using hn)).sat fun e he => ⟨rfl, ?_⟩
      exact htook.trans he

theorem parses_skipConstraintClauses {ts rest : List Token} (h : ConstraintsForm ts rest)
    (hc : c.Ready) (ha : c.ahead = ts ++ rest) {n : Nat} (hn : ts.length ≤ n) :
    Parses (skipConstraintClauses n) c ts () := by
  induction h generalizing c n with
  | @none rest stop =>
    cases n with
    | zero => exact ⟨rfl, Took.refl c⟩
    | succ n =>
      have hword : c.atWord "where" = false := by
        rw [hc.atWord_eq, ha]
        exact stop
      rw [skipConstraintClauses]
      refine Read.sat_bind.2 (sat_get.2 ?_)
      rw [hword]
      exact ⟨rfl, Took.refl c⟩
  | @cons w ts us rest word clause _ ih =>
    obtain ⟨n, rfl⟩ : ∃ m, n = m + 1 := ⟨n - 1, by simp at hn; omega⟩
    have ha' : c.ahead = w :: (ts ++ (us ++ rest)) := by simpa using ha
    have hword : c.atWord "where" = true := by
      rw [hc.atWord_eq, ha', ← wordAt_singleton]
      exact word
    have hlen : ts.length ≤ c.ahead.length := by
      rw [ha']
      simp only [List.length_append, List.length_cons]
      omega
    obtain ⟨hb, hab, hbump⟩ := bump_of_ahead hc ha'
    simp only [List.length_append, List.length_cons] at hn
    rw [skipConstraintClauses]
    refine Read.sat_bind.2 (sat_get.2 ?_)
    rw [hword]
    refine Read.sat_bind.2 (sat_set.2 ?_)
    refine (parses_skipConstraints clause hb hab hlen).sat_bind hb hab fun d hd had hts => ?_
    refine (ih hd had (by omega)).sat fun e he => ⟨rfl, ?_⟩
    simpa using hbump.trans (hts.trans he)

/-! ## Whole heads -/

/-- A head is read. -/
theorem sat_withHead_of_form {g : TypeKind → Token → List TypeParam → Option Span →
    List TypeExpr → Read α} {ts rest : List Token} {header : Header}
    (h : HeaderForm ts rest header) (hc : c.Ready) (ha : c.ahead = ts ++ rest)
    (hg : ∀ d t, d.Ready → d.ahead = rest → c.Took ts d →
      header.name = ⟨identName t.text, t.span⟩ →
      Sat (g header.kind t header.typeParams header.typeParamListSpan header.baseList) d Q E) :
    Sat (withHead g) c Q E := by
  cases h with
  | @mk ks ps gs bs ws _ n kind params span bases kindForm word paramsForm call basesForm
      constraints =>
    have ha' : c.ahead = ks ++ (n :: (ps ++ (gs ++ (bs ++ (ws ++ rest))))) := by simpa using ha
    refine (parses_typeKind kindForm hc ha').sat_bind hc ha' fun d1 h1 ha1 hks => ?_
    refine sat_expect_bind h1 ha1 word fun d2 h2 ha2 hn => ?_
    refine (parses_typeParams paramsForm h2 ha2).sat_bind h2 ha2 fun d3 h3 ha3 hps => ?_
    refine (parses_skipArguments call h3 ha3).sat_bind h3 ha3 fun d4 h4 ha4 hgs => ?_
    refine (parses_baseTypes basesForm h4 ha4).sat_bind h4 ha4 fun d5 h5 ha5 hbs => ?_
    refine Read.sat_bind.2 (sat_get.2 ?_)
    have hlen : ws.length ≤ d5.ahead.length := by
      rw [ha5, List.length_append]
      omega
    refine (parses_skipConstraintClauses constraints h5 ha5 hlen).sat_bind h5 ha5 ?_
    intro d6 h6 ha6 hws
    refine hg d6 n h6 ha6 ?_ rfl
    simpa using hks.trans (hn.trans (hps.trans (hgs.trans (hbs.trans hws))))

end SelfTypeLint.Read
