import SelfTypeLint.Proofs.Grammar.Types
import SelfTypeLint.Proofs.Reader.Run

/-!
# Reading types gives types of the grammar

Whatever the tokens ahead are, a type or attribute list that is read is spelled by the tokens consumed
on the way, and a step that fails has consumed tokens all the same.
-/

namespace SelfTypeLint.Read

open Cursor Token Grammar

variable {α β : Type}

/-- Holds if what a step does at `d` gives, seen from `c`, tokens that spell its value, and tokens of
any kind if it fails. -/
def Spells (c : Cursor) (f : Read α) (d : Cursor) (form : List Token → List Token → α → Prop) :
    Prop :=
  Sat f d (fun a e => ∃ ts, c.Took ts e ∧ form ts e.ahead a) fun e => ∃ ts, c.Took ts e

/-- Holds of a step that gives what tokens of a form spell, wherever it is begun. -/
def SpellsAll (f : Read α) (form : List Token → List Token → α → Prop) : Prop :=
  ∀ c : Cursor, c.Ready → Spells c f c form

/-- A step after consumed tokens, seen from before them. -/
theorem Spells.after {f : Read α} {c d : Cursor} {ts : List Token}
    {form form' : List Token → List Token → α → Prop} (h : Spells d f d form) (hd : c.Took ts d)
    (hform : ∀ us rest a, d.ahead = us ++ rest → form us rest a → form' (ts ++ us) rest a) :
    Spells c f d form' := by
  refine Sat.mono h ?_ ?_
  · rintro a e ⟨us, hus, ha⟩
    exact ⟨ts ++ us, hd.trans hus, hform us e.ahead a hus.ahead ha⟩
  · rintro e ⟨us, hus⟩
    exact ⟨ts ++ us, hd.trans hus⟩

/-- Two steps, seen from before tokens consumed ahead of both. -/
theorem Spells.bind (first : List Token → List Token → β → Prop) {f : Read β} {g : β → Read α}
    {c d : Cursor} {ts : List Token} {form : List Token → List Token → α → Prop} (h : Spells d f d first) (hd : c.Took ts d)
    (hg : ∀ us b e, d.Took us e → c.Took (ts ++ us) e → first us e.ahead b → Spells c (g b) e form) :
    Spells c (f >>= g) d form := by
  refine sat_bind.2 (Sat.mono h ?_ ?_)
  · rintro b e ⟨us, hus, hb⟩
    exact hg us b e hus (hd.trans hus) hb
  · rintro e ⟨us, hus⟩
    exact ⟨ts ++ us, hd.trans hus⟩

theorem spells_pure {a : α} {c d : Cursor} {ts : List Token}
    {form : List Token → List Token → α → Prop} (hd : c.Took ts d) (h : form ts d.ahead a) :
    Spells c (pure a) d form :=
  ⟨ts, hd, h⟩

private theorem mem_takeWhile_comma (ts : List Token) :
    ∀ t ∈ ts.takeWhile (·.kind = .comma), t.kind = .comma := by
  intro t ht
  simpa using List.all_eq_true.1 List.all_takeWhile t ht

theorem spells_suffixes {c : Cursor} (hc : c.Ready) {start n : Nat} (e : TypeExpr)
    (hs : start ≤ c.prevEnd) (hn : c.ahead.length ≤ n) :
    Spells c (suffixes start n e) c (SuffixForm start e) := by
  induction n generalizing c e with
  | zero =>
    have h : c.ahead = [] := List.length_eq_zero_iff.1 (Nat.le_zero.1 hn)
    exact spells_pure (Took.refl c) (.done (h ▸ noSuffix_nil))
  | succ n ih =>
    have hhead := hc.kind_eq
    simp only [suffixes, Spells, sat_bind, sat_get]
    split
    · next hk =>
      obtain ⟨q, hq, -, hb, ha⟩ := hc.exists_cons hk (by simp)
      have hle := Nat.le_trans hs (hb.prevEnd_le hc)
      have hlen := hb.length_le
      simp only [List.length_singleton] at hlen
      simp only [sat_bind, sat_set, sat_spanFrom, spanFrom_of_le hle, hb.prevEnd]
      refine (ih (hb.ready hc) _ hle (by omega)).after hb ?_
      intro us rest a _ h
      exact .nullable hq h
    · next hk =>
      split
      · next hpeek =>
        obtain ⟨o, ho, -, hb, ha⟩ := hc.exists_cons hk (by simp)
        have hcs := c.bump.took_skipWhile (·.kind = .comma)
        have hbcs := hb.trans hcs
        have hr := hbcs.ready hc
        simp only [sat_bind, sat_set, commas, sat_modify, sat_expect]
        split
        · next hk' =>
          obtain ⟨b, hb', -, hbb, -⟩ := hr.exists_cons hk' (by simp)
          have hall := hbcs.trans hbb
          have hle := Nat.le_trans hs (hall.prevEnd_le hc)
          have hlen := hall.length_le
          simp only [List.length_append, List.length_singleton] at hlen
          simp only [sat_spanFrom, spanFrom_of_le hle, hbb.prevEnd]
          refine (ih (hall.ready hc) _ hle (by omega)).after hall ?_
          intro us rest a _ h
          have := SuffixForm.array (e := e) ho (mem_takeWhile_comma c.bump.ahead) hb' h
          simpa using this
        · exact ⟨_, hbcs⟩
      · next hpeek =>
        refine ⟨[], Took.refl c, .done ⟨?_, ?_, ?_⟩⟩
        · rw [← hhead, hk]; simp
        · exact fun _ => not_or.1 hpeek
        · exact starAt_of_kind_ne (by rw [← hhead, hk]; simp)
    · next hk =>
      obtain ⟨s, hs', hcur, hb, ha⟩ := hc.exists_cons hk (by simp)
      have hlen := hb.length_le
      simp only [List.length_singleton] at hlen
      rw [hcur]
      split
      · next hstar =>
        have hle := Nat.le_trans hs (hb.prevEnd_le hc)
        simp only [sat_bind, sat_set]
        refine (ih (hb.ready hc) e hle (by omega)).after hb ?_
        intro us rest a _ h
        exact .pointer hs' hstar h
      · next hstar =>
        refine ⟨[], Took.refl c, .done ⟨?_, ?_, ?_⟩⟩
        · rw [← hhead, hk]; simp
        · rw [← hhead, hk]; simp
        · simp [starAt, ha, hstar]
    · next h1 h2 h3 =>
      refine ⟨[], Took.refl c, .done ⟨?_, ?_, ?_⟩⟩
      · rw [← hhead]; exact h1
      · rw [← hhead]; exact fun h => absurd h h2
      · exact starAt_of_kind_ne (by rw [← hhead]; exact h3)

theorem spells_qualifier {c : Cursor} (hc : c.Ready) (hk : c.kind = .ident) :
    Spells c qualifier c fun ts rest r => QualifierForm ts rest r.1 r.2 := by
  simp only [qualifier, Spells, sat_bind, sat_get]
  split
  · next hpeek =>
    obtain ⟨t, ht, hcur, hb, ha⟩ := hc.exists_cons hk (by simp)
    have hsign : c.bump.kind = .colonColon := by
      rw [(hb.ready hc).kind_eq, ← hpeek, peek_eq, ha, kindAt_cons_succ]
    obtain ⟨s, hs, -, hb', -⟩ := (hb.ready hc).exists_cons hsign (by simp)
    simp only [sat_bind, sat_next, sat_modify, hcur]
    split
    · next hroot => exact ⟨_, hb.trans hb', .root ht hs hroot⟩
    · next hroot => exact ⟨_, hb.trans hb', .word ht hs hroot⟩
  · next hpeek => exact ⟨[], Took.refl c, .none hpeek⟩

/-- The next token is consumed if it is of the kind wanted. -/
theorem optionalForm_eat {c : Cursor} (hc : c.Ready) {k : TokenKind} (hne : k ≠ .eof) :
    ∃ ns, c.Took ns (c.eat k) ∧ OptionalForm k ns (c.eat k).ahead := by
  rw [Cursor.eat]
  split
  · next hk =>
    obtain ⟨t, ht, -, hb, -⟩ := hc.exists_cons hk hne
    exact ⟨[t], hb, .some ht⟩
  · next hk => exact ⟨[], Took.refl c, .none (by rwa [← hc.kind_eq])⟩

/-- The suffixes after the front of a type complete it. -/
private theorem spells_suffixes_of_atom {c d : Cursor} (hc : c.Ready) {ts : List Token}
    {a : TypeExpr} (hd : c.Took ts d) (ha : AtomForm ts d.ahead a) :
    Spells c (suffixes c.current.span.start d.ahead.length a) d TypeForm := by
  have hle := hd.startOf_le hc ha.ne_nil
  rw [hd.current_start ha.ne_nil]
  refine (spells_suffixes (hd.ready hc) a hle (Nat.le_refl _)).after hd ?_
  intro us rest e hrest h
  exact .mk (hrest ▸ ha) h

private theorem spells_typeExprWith_succ {n : Nat}
    (helements : SpellsAll (elementsWith n) ElementsForm)
    (hsegments : SpellsAll (segmentsWith n) SegmentsForm) :
    SpellsAll (typeExprWith (n + 1)) TypeForm := by
  intro c hc
  rw [typeExprWith]
  refine sat_bind.2 (sat_get.2 ?_)
  dsimp only
  split
  · next hk =>
    obtain ⟨t, ht, hcur, hb, -⟩ := hc.exists_cons hk (by simp)
    simp only [sat_bind, sat_next, sat_pure, sat_get]
    have hatom : AtomForm [t] c.bump.ahead (.predefined t.text t.span) := .predefined ht
    exact spells_suffixes_of_atom hc hb (hcur ▸ hatom)
  · next hk =>
    obtain ⟨o, ho, hcur, hb, -⟩ := hc.exists_cons hk (by simp)
    refine sat_bind.2 (sat_modify.2 ?_)
    refine Spells.bind ElementsForm (helements _ (hb.ready hc)) hb ?_
    intro ts es e hts hall h
    simp only [Spells, sat_bind, sat_expect]
    split
    · next hk' =>
      obtain ⟨b, hb', -, hbb, ha⟩ := (hall.ready hc).exists_cons hk' (by simp)
      have htook := hall.trans hbb
      have hle := htook.startOf_le hc (by simp)
      rw [← htook.current_start (by simp)] at hle
      simp only [sat_spanFrom, sat_pure, sat_get, spanFrom_of_le hle, htook.prevEnd, stopOf_concat]
      refine spells_suffixes_of_atom hc htook ?_
      rw [ha] at h
      rw [hcur]
      simpa using AtomForm.tuple ho h hb'
    · exact ⟨_, hall⟩
  · next hk =>
    refine Spells.bind _ (spells_qualifier hc hk) (Took.refl c) ?_
    rintro qs ⟨isGlobal, first⟩ d hqs hqs' hq
    refine Spells.bind SegmentsForm (hsegments d (hqs.ready hc)) hqs ?_
    intro ts more e hts hall h
    have hne : qs ++ ts ≠ [] := by simp [h.ne_nil]
    have hpath := AtomForm.path (hts.ahead ▸ hq) h
    have hsub := spells_suffixes_of_atom hc hall hpath
    rw [spanOf, ← hall.current_start hne, stopOf_of_ne_nil hne 0 c.prevEnd, ← hall.prevEnd] at hsub
    exact hsub
  · exact ⟨[], Took.refl c⟩

private theorem spells_elementsWith_succ {n : Nat} (htype : SpellsAll (typeExprWith n) TypeForm)
    (helements : SpellsAll (elementsWith n) ElementsForm) :
    SpellsAll (elementsWith (n + 1)) ElementsForm := by
  intro c hc
  rw [elementsWith]
  refine Spells.bind TypeForm (htype c hc) (Took.refl c) ?_
  intro ts e d hts _ h
  obtain ⟨ns, hns, hlabel⟩ := optionalForm_eat (k := .ident) (hts.ready hc) (by simp)
  have hall := hts.trans hns
  simp only [Spells, sat_bind, sat_modify, sat_eat]
  split
  · next hk =>
    obtain ⟨k, hk', -, hb, ha⟩ := (hall.ready hc).exists_cons hk (by simp)
    refine Spells.bind ElementsForm (helements _ ((hall.trans hb).ready hc)) (hall.trans hb) ?_
    intro us es f hus hf h'
    rw [hns.ahead, ha, hus.ahead] at h
    rw [ha, hus.ahead] at hlabel
    have := ElementsForm.more h hlabel hk' h'
    exact ⟨_, by simpa using hf, this⟩
  · next hk =>
    rw [hns.ahead] at h
    rw [(hall.ready hc).kind_eq] at hk
    exact spells_pure hall (.last h hlabel hk)

/-- After a word with its arguments, a dot and a word go on. -/
private theorem spells_moreSegments {n : Nat} (hsegments : SpellsAll (segmentsWith n) SegmentsForm)
    {c d : Cursor} {ts : List Token} {s : NameSegment TypeExpr} (hd : d.Ready) (hts : c.Took ts d)
    (hs : SegmentForm ts d.ahead s) : Spells c (do
      let c ← get
      if c.kind = .dot ∧ c.peek 1 = .ident then
        set c.bump
        return s :: (← segmentsWith n)
      else return [s]) d SegmentsForm := by
  refine sat_bind.2 (sat_get.2 ?_)
  split
  · next hk =>
    obtain ⟨k, hk', -, hb, ha⟩ := hd.exists_cons hk.1 (by simp)
    refine sat_bind.2 (sat_set.2 ?_)
    refine Spells.bind SegmentsForm (hsegments _ (hb.ready hd)) (hts.trans hb) ?_
    intro us ss e hus he h
    rw [ha, hus.ahead] at hs
    exact ⟨_, by simpa using he, .more hs hk' h⟩
  · next hk =>
    rw [hd.kind_eq, peek_eq] at hk
    exact spells_pure hts (.last hs hk)

private theorem spells_segmentsWith_succ {n : Nat} (hargs : SpellsAll (argumentsWith n) ArgumentsForm)
    (hsegments : SpellsAll (segmentsWith n) SegmentsForm) :
    SpellsAll (segmentsWith (n + 1)) SegmentsForm := by
  intro c hc
  rw [segmentsWith]
  refine sat_bind.2 (sat_expect.2 ?_)
  split
  · next hk =>
    obtain ⟨t, ht, hcur, hb, -⟩ := hc.exists_cons hk (by simp)
    have hr := hb.ready hc
    rw [hcur]
    refine sat_bind.2 (sat_get.2 ?_)
    dsimp only
    split
    · next hlt =>
      obtain ⟨o, ho, hcur', hbo, -⟩ := hr.exists_cons hlt (by simp)
      have htook := hb.trans hbo
      refine sat_bind.2 (sat_set.2 ?_)
      refine Spells.bind ArgumentsForm (hargs _ (htook.ready hc)) htook ?_
      intro ts args d hts hall h
      have hcs := d.took_skipWhile (·.kind = .comma)
      have hd := (hall.trans hcs).ready hc
      simp only [sat_bind, commas, sat_modify, Spells, sat_expect]
      split
      · next hgt =>
        obtain ⟨b, hb', hcurb, hbb, ha⟩ := hd.exists_cons hgt (by simp)
        have htook' := hbo.trans (hts.trans (hcs.trans hbb))
        have hplaced := hr.placed
        rw [htook'.ahead] at hplaced
        have hmerge := hplaced.merge_eq (b := b) (by simp)
        have hall' := hb.trans htook'
        rw [hcur', hcurb, hmerge, sat_pure]
        refine spells_moreSegments hsegments (hall'.ready hc) hall' ?_
        rw [hcs.ahead, ha] at h
        have := SegmentForm.generic ht ho h (mem_takeWhile_comma d.ahead) hb'
        simpa using this
      · exact ⟨_, hall.trans hcs⟩
    · next hlt =>
      rw [hr.kind_eq] at hlt
      exact spells_moreSegments hsegments hr hb (.plain ht hlt)
  · exact ⟨[], Took.refl c⟩

private theorem spells_argumentsWith_succ {n : Nat}
    (hlist : SpellsAll (argumentListWith n) TypeListForm) :
    SpellsAll (argumentsWith (n + 1)) ArgumentsForm := by
  intro c hc
  rw [argumentsWith]
  refine sat_bind.2 (sat_get.2 ?_)
  split
  · next hk =>
    rw [hc.kind_eq] at hk
    exact spells_pure (Took.refl c) (.none hk)
  · refine (hlist c hc).after (Took.refl c) ?_
    intro us rest es _ h
    exact .some h

private theorem spells_argumentListWith_succ {n : Nat}
    (htype : SpellsAll (typeExprWith n) TypeForm)
    (hlist : SpellsAll (argumentListWith n) TypeListForm) :
    SpellsAll (argumentListWith (n + 1)) TypeListForm := by
  intro c hc
  rw [argumentListWith]
  refine Spells.bind TypeForm (htype c hc) (Took.refl c) ?_
  intro ts e d hts _ h
  have hd := hts.ready hc
  refine sat_bind.2 (sat_eat.2 ?_)
  split
  · next hk =>
    obtain ⟨k, hk', -, hb, ha⟩ := hd.exists_cons hk (by simp)
    refine Spells.bind TypeListForm (hlist _ (hb.ready hd)) (hts.trans hb) ?_
    intro us es f hus hf h'
    rw [ha, hus.ahead] at h
    exact ⟨_, by simpa using hf, .more h hk' h'⟩
  · next hk =>
    rw [hd.kind_eq] at hk
    exact spells_pure hts (.last h hk)

/-- What is read as a type, or as a part of one, is spelled by the tokens consumed. -/
theorem spells_typeReaders (n : Nat) :
    SpellsAll (typeExprWith n) TypeForm ∧ SpellsAll (elementsWith n) ElementsForm ∧
      SpellsAll (segmentsWith n) SegmentsForm ∧ SpellsAll (argumentsWith n) ArgumentsForm ∧
      SpellsAll (argumentListWith n) TypeListForm := by
  induction n with
  | zero => exact ⟨fun c _ => ⟨[], Took.refl c⟩, fun c _ => ⟨[], Took.refl c⟩,
      fun c _ => ⟨[], Took.refl c⟩, fun c _ => ⟨[], Took.refl c⟩, fun c _ => ⟨[], Took.refl c⟩⟩
  | succ n ih =>
    obtain ⟨htype, helements, hsegments, hargs, hlist⟩ := ih
    exact ⟨spells_typeExprWith_succ helements hsegments,
      spells_elementsWith_succ htype helements, spells_segmentsWith_succ hargs hsegments,
      spells_argumentsWith_succ hlist, spells_argumentListWith_succ htype hlist⟩

theorem spells_typeExpr : SpellsAll typeExpr TypeForm := by
  intro c hc
  rw [typeExpr]
  exact sat_bind.2 (sat_get.2 ((spells_typeReaders _).1 c hc))

/-! ## Attribute lists -/

/-- A bracketed group that is skipped is closed. -/
theorem spells_skipBalanced {c : Cursor} (hc : c.Ready) {k : TokenKind} (hk : c.kind = k)
    (hne : k ≠ .eof) : Spells c skipBalanced c fun ts _ _ =>
      ∃ o us, ts = o :: us ∧ o.kind = k ∧ Group k.closer us := by
  obtain ⟨o, ho, hcur, hb, -⟩ := hc.exists_cons hk hne
  refine sat_bind.2 (sat_next.2 (sat_bind.2 (sat_get.2 ?_)))
  rw [hcur, ho]
  split
  · next n hn =>
    obtain ⟨hle, htake⟩ := balancedLength?_take hn
    have hgroup : Group k.closer (c.bump.ahead.take n) := by
      rw [Grammar.Group, htake, List.length_take, Nat.min_eq_left hle]
    exact ⟨_, hb.trans (took_advance_take c.bump hle), o, _, rfl, ho, hgroup⟩
  · have hall := took_advance (c := c.bump) (List.append_nil _).symm
    exact ⟨_, hb.trans hall⟩

theorem spells_skipArguments : SpellsAll skipArguments fun ts rest _ => GroupForm .lparen ts rest := by
  intro c hc
  refine sat_bind.2 (sat_get.2 ?_)
  split
  · next hk =>
    show Spells c skipBalanced c fun ts rest _ => GroupForm .lparen ts rest
    refine (spells_skipBalanced hc hk (by simp)).after (Took.refl c) ?_
    rintro us rest - - ⟨o, vs, rfl, ho, hg⟩
    exact .group ho hg
  · next hk =>
    rw [hc.kind_eq] at hk
    exact ⟨[], Took.refl c, GroupForm.none hk⟩

theorem spells_attributes {c : Cursor} (hc : c.Ready) {n : Nat} (hn : c.ahead.length < n) :
    Spells c (attributes n) c AttributesForm := by
  induction n generalizing c with
  | zero => omega
  | succ n ih =>
    rw [attributes]
    refine sat_bind.2 (sat_get.2 ?_)
    split
    · next hk =>
      rw [hc.kind_eq] at hk
      exact spells_pure (Took.refl c) (.none hk)
    · refine Spells.bind TypeForm (spells_typeExpr c hc) (Took.refl c) ?_
      intro ts e d hts _ h
      refine Spells.bind _ (spells_skipArguments d (hts.ready hc)) hts ?_
      intro us _ f hus hf hcall
      have hstart : e.span.start = startOf (ts ++ us) := by
        rw [h.span_start, startOf_append h.ne_nil]
      have hne : ts ++ us ≠ [] := by simp [h.ne_nil]
      have hle := hf.startOf_le hc hne
      have hspan : f.spanFrom e.span.start = spanOf (ts ++ us) := by
        rw [hstart, spanFrom_of_le hle, spanOf, hf.prevEnd, stopOf_of_ne_nil hne c.prevEnd 0]
      simp only [Spells, sat_bind, sat_spanFrom, hspan, sat_eat]
      rw [hus.ahead] at h
      split
      · next hk =>
        obtain ⟨k, hk', -, hb, ha⟩ := (hf.ready hc).exists_cons hk (by simp)
        have htook := hf.trans hb
        have hlen := htook.length_le
        have hpos := List.length_pos_iff.2 hne
        simp only [List.length_append, List.length_singleton] at hlen hpos
        refine Spells.bind AttributesForm (ih (htook.ready hc) (by omega)) htook ?_
        intro vs as g hvs hg has
        rw [ha, hvs.ahead] at h hcall
        exact ⟨_, by simpa using hg, .more h hcall hk' has⟩
      · next hk =>
        rw [(hf.ready hc).kind_eq] at hk
        exact ⟨_, hf, .last h hcall hk⟩

theorem spells_attributeTarget : SpellsAll attributeTarget TargetForm := by
  intro c hc
  refine sat_bind.2 (sat_get.2 ?_)
  split
  · next hk =>
    obtain ⟨t, ht, hcur, hb, ha⟩ := hc.exists_cons hk.1 (by simp)
    have hsign : c.bump.kind = .colon := by
      rw [(hb.ready hc).kind_eq, ← hk.2, peek_eq, ha, kindAt_cons_succ]
    obtain ⟨s, hs, -, hb', -⟩ := (hb.ready hc).exists_cons hsign (by simp)
    rw [hcur]
    exact ⟨[t, s], hb.trans hb', .word ht hs⟩
  · next hk =>
    rw [hc.kind_eq, peek_eq] at hk
    exact spells_pure (Took.refl c) (.none hk)

theorem spells_attributeListsWith {c : Cursor} (hc : c.Ready) {n : Nat} (hn : c.ahead.length ≤ n) :
    Spells c (attributeListsWith n) c AttributeListsForm := by
  induction n generalizing c with
  | zero =>
    have h : c.ahead = [] := List.length_eq_zero_iff.1 (Nat.le_zero.1 hn)
    exact spells_pure (Took.refl c) (.none (by simp [h]))
  | succ n ih =>
    rw [attributeListsWith]
    refine sat_bind.2 (sat_get.2 ?_)
    split
    · next hk =>
      obtain ⟨o, ho, hcur, hb, ha⟩ := hc.exists_cons hk (by simp)
      refine sat_bind.2 (sat_set.2 ?_)
      refine Spells.bind TargetForm (spells_attributeTarget _ (hb.ready hc)) hb ?_
      intro ts target d hts hall htarget
      have hlt : d.ahead.length < c.ahead.length := by
        have := hall.length_le
        simp only [List.length_append, List.length_singleton] at this
        omega
      refine Spells.bind AttributesForm (spells_attributes (hall.ready hc) hlt) hall ?_
      intro us as e hus hall' has
      refine sat_bind.2 (sat_expect.2 ?_)
      split
      · next hk' =>
        obtain ⟨b, hb', hcurb, hbb, hab⟩ := (hall'.ready hc).exists_cons hk' (by simp)
        have htook := hall'.trans hbb
        have hplaced := hc.placed
        rw [htook.ahead] at hplaced
        have hmerge := hplaced.merge_eq (b := b) (by simp)
        have hlen := htook.length_le
        simp only [List.length_append, List.length_singleton] at hlen
        rw [hcur, hcurb, hmerge]
        refine Spells.bind AttributeListsForm (ih (htook.ready hc) (by omega)) htook ?_
        intro vs ls f hvs hf hls
        rw [hus.ahead, hab, hvs.ahead] at htarget
        rw [hab, hvs.ahead] at has
        exact ⟨_, by simpa using hf, .cons ho htarget has hb' hls⟩
      · exact ⟨_, hall'⟩
    · next hk =>
      rw [hc.kind_eq] at hk
      exact spells_pure (Took.refl c) (.none hk)

/-- What is read as attribute lists is spelled by the tokens consumed. -/
theorem spells_attributeLists : SpellsAll attributeLists AttributeListsForm := by
  intro c hc
  rw [attributeLists]
  exact sat_bind.2 (sat_get.2 (spells_attributeListsWith hc (Nat.le_refl _)))

end SelfTypeLint.Read
