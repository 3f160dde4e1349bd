import SelfTypeLint.Proofs.Grammar.Types

/-!
# Types of the grammar are read

Where tokens ahead spell a type or attribute lists, the reader consumes these tokens and gives what they
spell, if the bound of its recursion is not too small for them.
-/

namespace SelfTypeLint.Read

open Cursor Token Grammar

variable {α β : Type} {c : Cursor} {Q : α → Cursor → Prop} {E : Cursor → Prop}

/-- Holds of a step that consumes some tokens ahead and gives a value. -/
def Parses (f : Read α) (c : Cursor) (ts : List Token) (a : α) : Prop :=
  Sat f c (fun b d => b = a ∧ c.Took ts d) fun _ => False

/-- What follows some tokens ahead is ahead when they are consumed. -/
theorem Took.ahead_eq {d : Cursor} {ts rest : List Token} (h : c.Took ts d)
    (ha : c.ahead = ts ++ rest) : d.ahead = rest :=
  List.append_cancel_left (h.ahead.symm.trans ha)

theorem Parses.sat {f : Read α} {ts : List Token} {a : α} (h : Parses f c ts a)
    (hQ : ∀ d, c.Took ts d → Q a d) : Sat f c Q E := by
  refine Sat.mono h ?_ fun _ h => h.elim
  rintro b d ⟨rfl, hd⟩
  exact hQ d hd

theorem Parses.sat_bind {f : Read β} {g : β → Read α} {ts rest : List Token} {b : β}
    (h : Parses f c ts b) (hc : c.Ready) (ha : c.ahead = ts ++ rest)
    (hg : ∀ d, d.Ready → d.ahead = rest → c.Took ts d → Sat (g b) d Q E) :
    Sat (f >>= g) c Q E :=
  Read.sat_bind.2 (h.sat fun d hd => hg d (hd.ready hc) (Took.ahead_eq hd ha) hd)

/-- The kind of the next token is seen from the tokens ahead. -/
theorem kind_of_ahead (hc : c.Ready) {ts : List Token} (ha : c.ahead = ts) :
    c.kind = kindAt ts 0 := by
  rw [hc.kind_eq, ha]

theorem kind_ne_of_ahead (hc : c.Ready) {ts : List Token} (ha : c.ahead = ts) {k : TokenKind}
    (h : kindAt ts 0 ≠ k) : c.kind ≠ k := by
  rwa [kind_of_ahead hc ha]

theorem bump_of_ahead {t : Token} {rest : List Token} (hc : c.Ready) (ha : c.ahead = t :: rest) :
    c.bump.Ready ∧ c.bump.ahead = rest ∧ c.Took [t] c.bump :=
  ⟨(took_bump ha).ready hc, Took.ahead_eq (took_bump ha) ha, took_bump ha⟩

theorem sat_expect_bind {g : Token → Read α} {t : Token} {rest : List Token} {k : TokenKind}
    {w : Wanted} (hc : c.Ready) (ha : c.ahead = t :: rest) (hk : t.kind = k)
    (hg : ∀ d, d.Ready → d.ahead = rest → c.Took [t] d → Sat (g t) d Q E) :
    Sat (expect k w >>= g) c Q E := by
  have hkind : c.kind = k := (kind_of_ahead hc ha).trans hk
  obtain ⟨hd, had, htook⟩ := bump_of_ahead hc ha
  rw [Read.sat_bind, sat_expect, if_pos hkind, current_of_cons ha]
  exact hg c.bump hd had htook

/-- Consuming tokens of one kind that a token of another kind ends. -/
theorem took_skipWhile_of_all {p : Token → Bool} {ts rest : List Token}
    (ha : c.ahead = ts ++ rest) (hp : ∀ t ∈ ts, p t = true)
    (hstop : ∀ t, rest.head? = some t → p t = false) : c.Took ts (c.skipWhile p) := by
  have htake : c.ahead.takeWhile p = ts := by
    rw [ha, List.takeWhile_append_of_pos hp]
    cases rest with
    | nil => simp
    | cons t rest => simp [hstop t rfl]
  have := c.took_skipWhile p
  rwa [htake] at this

theorem parses_suffixes {start : Nat} {a e : TypeExpr} {ts rest : List Token}
    (h : SuffixForm start a ts rest e) {n : Nat} (hc : c.Ready) (ha : c.ahead = ts ++ rest)
    (hs : start ≤ c.prevEnd) (hn : ts.length ≤ n) : Parses (suffixes start n a) c ts e := by
  induction h generalizing c n with
  | @done a rest stop =>
    cases n with
    | zero => exact ⟨rfl, Took.refl c⟩
    | succ n =>
      have hk := kind_of_ahead hc ha
      refine Read.sat_bind.2 (sat_get.2 ?_)
      split
      · next hq => exact absurd (hk ▸ hq) stop.question
      · next ho =>
        have hpeek := stop.brackets (hk ▸ ho)
        rw [if_neg (by rw [peek_eq, ha]; exact not_or.2 hpeek)]
        exact ⟨rfl, Took.refl c⟩
      · next ho =>
        have hstar := stop.star
        rw [hk] at ho
        cases rest with
        | nil => simp at ho
        | cons t rest =>
          rw [current_of_cons ha]
          have htext : t.text ≠ "*" := by
            simpa [starAt, show t.kind = .op from ho] using hstar
          rw [if_neg htext]
          exact ⟨rfl, Took.refl c⟩
      · exact ⟨rfl, Took.refl c⟩
  | @nullable a e' q ts rest hq _ ih =>
    cases n with
    | zero => simp at hn
    | succ n =>
      have hk : c.kind = .question := (kind_of_ahead hc ha).trans hq
      simp only [suffixes, Parses, Read.sat_bind, sat_get, hk, sat_set, sat_spanFrom]
      obtain ⟨hd, had, htook⟩ := bump_of_ahead hc ha
      have hle : start ≤ c.bump.prevEnd := Nat.le_trans hs (htook.prevEnd_le hc)
      have hprev : c.bump.prevEnd = q.span.stop := htook.prevEnd
      rw [spanFrom_of_le hle, hprev]
      exact (ih hd had hle (by simpa using hn)).sat fun f hf => ⟨rfl, htook.trans hf⟩
  | @array a e' o b cs ts rest ho hcs hb _ ih =>
    cases n with
    | zero => simp at hn
    | succ n =>
      have hk : c.kind = .lbracket := (kind_of_ahead hc ha).trans ho
      have hpeek : c.peek 1 = .rbracket ∨ c.peek 1 = .comma := by
        rw [peek_eq, ha]
        cases cs with
        | nil => exact .inl hb
        | cons k cs => exact .inr (hcs k List.mem_cons_self)
      simp only [suffixes, Parses, Read.sat_bind, sat_get, hk, if_pos hpeek, sat_set, commas, sat_modify]
      rw [List.cons_append, List.append_assoc] at ha
      obtain ⟨hd, had, htook⟩ := bump_of_ahead hc ha
      have hcommas : c.bump.Took cs (c.bump.skipWhile (·.kind = .comma)) := by
        apply took_skipWhile_of_all had
        · simpa using hcs
        · intro t ht
          obtain rfl := Option.some.inj ht
          simp [hb]
      rw [← Read.sat_bind]
      refine sat_expect_bind (hcommas.ready hd) (Took.ahead_eq hcommas had) hb ?_
      intro f hf haf htook'
      have hall := htook.trans (hcommas.trans htook')
      have hle : start ≤ f.prevEnd := Nat.le_trans hs (hall.prevEnd_le hc)
      have hprev : f.prevEnd = b.span.stop := htook'.prevEnd
      rw [sat_spanFrom, spanFrom_of_le hle, hprev]
      simp only [List.length_cons, List.length_append] at hn
      refine (ih hf haf hle (by omega)).sat fun g hg => ⟨rfl, ?_⟩
      simpa using hall.trans hg
  | @pointer a e' s ts rest hop hstar _ ih =>
    cases n with
    | zero => simp at hn
    | succ n =>
      have hk : c.kind = .op := (kind_of_ahead hc ha).trans hop
      simp only [suffixes, Parses, Read.sat_bind, sat_get, hk, current_of_cons ha, if_pos hstar, sat_set]
      obtain ⟨hd, had, htook⟩ := bump_of_ahead hc ha
      have hle : start ≤ c.bump.prevEnd := Nat.le_trans hs (htook.prevEnd_le hc)
      exact (ih hd had hle (by simpa using hn)).sat fun f hf => ⟨rfl, htook.trans hf⟩

theorem parses_qualifier {ts rest : List Token} {isGlobal : Bool} {first : List (NameSegment TypeExpr)}
    (h : QualifierForm ts rest isGlobal first) (hc : c.Ready) (ha : c.ahead = ts ++ rest) :
    Parses qualifier c ts (isGlobal, first) := by
  cases h with
  | none stop =>
    refine Read.sat_bind.2 (sat_get.2 ?_)
    rw [if_neg (by rwa [peek_eq, ha])]
    exact ⟨rfl, Took.refl c⟩
  | @root t s rest _ sign root =>
    refine Read.sat_bind.2 (sat_get.2 ?_)
    rw [if_pos (by rw [peek_eq, ha]; exact sign), Read.sat_bind, sat_next, current_of_cons ha]
    obtain ⟨hd, had, htook⟩ := bump_of_ahead hc ha
    obtain ⟨-, -, htook'⟩ := bump_of_ahead hd had
    rw [Read.sat_bind, sat_modify]
    dsimp only
    rw [if_pos root]
    exact ⟨rfl, htook.trans htook'⟩
  | @word t s rest _ sign other =>
    refine Read.sat_bind.2 (sat_get.2 ?_)
    rw [if_pos (by rw [peek_eq, ha]; exact sign), Read.sat_bind, sat_next, current_of_cons ha]
    obtain ⟨hd, had, htook⟩ := bump_of_ahead hc ha
    obtain ⟨-, -, htook'⟩ := bump_of_ahead hd had
    rw [Read.sat_bind, sat_modify]
    dsimp only
    rw [if_neg other]
    exact ⟨rfl, htook.trans htook'⟩

theorem took_eat {k : TokenKind} {ts rest : List Token} (h : OptionalForm k ts rest) (hc : c.Ready)
    (ha : c.ahead = ts ++ rest) : c.Took ts (c.eat k) := by
  have hk := kind_of_ahead hc ha
  rw [Cursor.eat]
  cases h with
  | none stop =>
    rw [if_neg (hk ▸ stop)]
    exact Took.refl c
  | some kind =>
    rw [if_pos (hk.trans kind)]
    exact took_bump ha

/-- After the front of a type its suffixes are read. -/
private theorem sat_suffixes_of_atom {d : Cursor} {ts us rest : List Token} {a e : TypeExpr}
    (hatom : AtomForm ts (us ++ rest) a) (h : SuffixForm (startOf ts) a us rest e) (hc : c.Ready)
    (hd : c.Took ts d) (ha : d.ahead = us ++ rest) :
    Sat (suffixes c.current.span.start d.ahead.length a) d
      (fun b f => b = e ∧ c.Took (ts ++ us) f) fun _ => False := by
  rw [hd.current_start hatom.ne_nil]
  have hlen : us.length ≤ d.ahead.length := by
    rw [ha, List.length_append]
    omega
  refine (parses_suffixes h (hd.ready hc) ha (hd.startOf_le hc hatom.ne_nil) hlen).sat ?_
  exact fun f hf => ⟨rfl, hd.trans hf⟩

/-- Goes on after one word of a name. -/
private def moreSegments (n : Nat) (s : NameSegment TypeExpr) :
    Read (List (NameSegment TypeExpr)) := do
  let c ← get
  if c.kind = .dot ∧ c.peek 1 = .ident then
    set c.bump
    return s :: (← segmentsWith n)
  else return [s]

private theorem parses_moreSegments_nil {n : Nat} {s : NameSegment TypeExpr} {rest : List Token}
    (hc : c.Ready) (ha : c.ahead = rest) (h : ¬ DotAt rest) :
    Parses (moreSegments n s) c [] [s] := by
  have hk : ¬ (c.kind = .dot ∧ c.peek 1 = .ident) := by
    rw [kind_of_ahead hc ha, peek_eq, ha]
    exact h
  rw [moreSegments, Parses, Read.sat_bind, sat_get, if_neg hk]
  exact ⟨rfl, Took.refl c⟩

private theorem parses_moreSegments {n : Nat} {us rest : List Token} {s : NameSegment TypeExpr}
    {ss : List (NameSegment TypeExpr)} {k : Token} (hk : k.kind = .dot) (hc : c.Ready)
    (ha : c.ahead = k :: (us ++ rest)) (h : SegmentsForm us rest ss)
    (htail : ∀ d : Cursor, d.Ready → d.ahead = us ++ rest → Parses (segmentsWith n) d us ss) :
    Parses (moreSegments n s) c (k :: us) (s :: ss) := by
  have hdot : c.kind = .dot ∧ c.peek 1 = .ident := by
    constructor
    · rw [kind_of_ahead hc ha]
      exact hk
    · rw [peek_eq, ha, kindAt_cons_succ, kindAt_append_left h.ne_nil]
      exact h.kindAt_eq
  obtain ⟨hb, hab, hbump⟩ := bump_of_ahead hc ha
  rw [moreSegments, Parses, Read.sat_bind, sat_get, if_pos hdot, Read.sat_bind, sat_set]
  exact (htail _ hb hab).sat_bind hb hab fun f _ _ hf => ⟨rfl, hbump.trans hf⟩

mutual

theorem parses_typeExprWith {ts rest : List Token} {e : TypeExpr} {n : Nat} {c : Cursor}
    (hc : c.Ready) (ha : c.ahead = ts ++ rest) (hn : 2 * ts.length ≤ n) :
    TypeForm ts rest e → Parses (typeExprWith n) c ts e
  | @TypeForm.mk _ us _ _ _ (@AtomForm.predefined t _ word) suffixes => by
    obtain ⟨n, rfl⟩ : ∃ m, n = m + 1 := ⟨n - 1, by simp at hn; omega⟩
    have hk : c.kind = .predefined := (kind_of_ahead hc ha).trans word
    have ha' : c.ahead = t :: (us ++ rest) := ha
    obtain ⟨hb, hab, htook⟩ := bump_of_ahead hc ha'
    rw [typeExprWith]
    refine Read.sat_bind.2 (sat_get.2 ?_)
    simp only [hk, Read.sat_bind, sat_next, sat_pure, sat_get, current_of_cons ha']
    have := sat_suffixes_of_atom (.predefined word) suffixes hc htook hab
    rwa [current_of_cons ha'] at this
  | @TypeForm.mk _ us _ _ _ (@AtomForm.tuple o k ts _ es opener elements closer) suffixes => by
    obtain ⟨n, rfl⟩ : ∃ m, n = m + 1 := ⟨n - 1, by simp at hn; omega⟩
    have hk : c.kind = .lparen := (kind_of_ahead hc ha).trans opener
    have ha' : c.ahead = o :: (ts ++ (k :: (us ++ rest))) := by simpa using ha
    obtain ⟨hb, hab, htook⟩ := bump_of_ahead hc ha'
    simp only [List.length_append, List.length_cons, List.length_nil] at hn
    rw [typeExprWith]
    refine Read.sat_bind.2 (sat_get.2 ?_)
    simp only [hk]
    refine Read.sat_bind.2 (sat_modify.2 ?_)
    refine (parses_elementsWith hb hab (by omega) elements).sat_bind hb hab ?_
    intro d hd had hts
    refine sat_expect_bind hd had closer fun f hf haf hclose => ?_
    have hall := htook.trans (hts.trans hclose)
    have hle := hall.startOf_le hc (by simp)
    have hspan : f.spanFrom c.current.span.start = ⟨o.span.start, k.span.stop⟩ := by
      rw [current_of_cons ha']
      exact (spanFrom_of_le hle).trans (by rw [hclose.prevEnd]; rfl)
    rw [Read.sat_bind, sat_spanFrom, hspan]
    simp only [Read.sat_bind, sat_pure, sat_get]
    exact sat_suffixes_of_atom (.tuple opener elements closer) suffixes hc (by simpa using hall) haf
  | @TypeForm.mk _ us _ _ _ (@AtomForm.path qs ts _ isGlobal first more qualifier segments)
      suffixes => by
    have hpos := List.length_pos_iff.2 segments.ne_nil
    obtain ⟨n, rfl⟩ : ∃ m, n = m + 1 := ⟨n - 1, by simp at hn; omega⟩
    have ha' : c.ahead = qs ++ (ts ++ (us ++ rest)) := by simpa using ha
    have hword : kindAt (qs ++ ts) 0 = .ident := by
      cases qualifier with
      | none _ => exact segments.kindAt_eq
      | root word _ _ => exact word
      | word word _ _ => exact word
    have hne : qs ++ ts ≠ [] := by simp [segments.ne_nil]
    have hk : c.kind = .ident := by
      rw [kind_of_ahead hc ha', ← List.append_assoc, kindAt_append_left hne, hword]
    simp only [List.length_append] at hn
    rw [typeExprWith]
    refine Read.sat_bind.2 (sat_get.2 ?_)
    simp only [hk]
    refine (parses_qualifier qualifier hc ha').sat_bind hc ha' fun d hd had hqs => ?_
    refine (parses_segmentsWith hd had (by omega) segments).sat_bind hd had ?_
    intro f hf haf hts
    have hall := hqs.trans hts
    have hspan : (⟨c.current.span.start, f.prevEnd⟩ : Span) = spanOf (qs ++ ts) := by
      rw [hall.current_start hne, hall.prevEnd, stopOf_of_ne_nil hne c.prevEnd 0]
      rfl
    simp only [Read.sat_bind, sat_pure, sat_get, hspan]
    exact sat_suffixes_of_atom (.path qualifier segments) suffixes hc hall haf

theorem parses_elementsWith {ts rest : List Token} {es : List TypeExpr} {n : Nat} {c : Cursor}
    (hc : c.Ready) (ha : c.ahead = ts ++ rest) (hn : 2 * ts.length + 1 ≤ n) :
    ElementsForm ts rest es → Parses (elementsWith n) c ts es
  | @ElementsForm.last ts ns _ e type label stop => by
    obtain ⟨n, rfl⟩ : ∃ m, n = m + 1 := ⟨n - 1, by omega⟩
    have ha' : c.ahead = ts ++ (ns ++ rest) := by simpa using ha
    simp only [List.length_append] at hn
    rw [elementsWith]
    refine (parses_typeExprWith hc ha' (by omega) type).sat_bind hc ha' fun d hd had hts => ?_
    have hns := took_eat label hd had
    have hk := kind_ne_of_ahead (hns.ready hd) (Took.ahead_eq hns had) stop
    simp only [Read.sat_bind, sat_modify, sat_eat, if_neg hk]
    exact ⟨rfl, hts.trans hns⟩
  | @ElementsForm.more ts ns us _ k e es type label comma tail => by
    obtain ⟨n, rfl⟩ : ∃ m, n = m + 1 := ⟨n - 1, by omega⟩
    have ha' : c.ahead = ts ++ (ns ++ k :: (us ++ rest)) := by simpa using ha
    simp only [List.length_append, List.length_cons] at hn
    rw [elementsWith]
    refine (parses_typeExprWith hc ha' (by omega) type).sat_bind hc ha' fun d hd had hts => ?_
    have hns := took_eat label hd had
    have hf := hns.ready hd
    have haf := Took.ahead_eq hns had
    obtain ⟨hb, hab, hcomma⟩ := bump_of_ahead hf haf
    have hk := (kind_of_ahead hf haf).trans comma
    simp only [Read.sat_bind, sat_modify, sat_eat, if_pos hk]
    refine (parses_elementsWith hb hab (by omega) tail).sat_bind hb hab fun g _ _ hg => ⟨rfl, ?_⟩
    simpa using hts.trans (hns.trans (hcomma.trans hg))

theorem sat_segmentsWith {ts rest : List Token} {s : NameSegment TypeExpr} {n : Nat} {c : Cursor}
    {Q : List (NameSegment TypeExpr) → Cursor → Prop} {E : Cursor → Prop} (hc : c.Ready)
    (ha : c.ahead = ts ++ rest) (hn : 2 * ts.length ≤ n + 2)
    (hmore : ∀ d, d.Ready → d.ahead = rest → c.Took ts d → Sat (moreSegments n s) d Q E) :
    SegmentForm ts rest s → Sat (segmentsWith (n + 1)) c Q E
  | @SegmentForm.plain t _ word stop => by
    rw [segmentsWith]
    refine sat_expect_bind hc ha word fun d hd had htook => ?_
    refine Read.sat_bind.2 (sat_get.2 ?_)
    have hlt := kind_ne_of_ahead hd had stop
    simp only [if_neg hlt]
    exact hmore d hd had htook
  | @SegmentForm.generic t o k ts cs _ args word opener arguments commas closer => by
    have ha' : c.ahead = t :: o :: (ts ++ (cs ++ k :: rest)) := by simpa using ha
    simp only [List.length_append, List.length_cons, List.length_nil] at hn
    rw [segmentsWith]
    refine sat_expect_bind hc ha' word fun d hd had htook => ?_
    refine Read.sat_bind.2 (sat_get.2 ?_)
    have hlt : d.kind = .lt := (kind_of_ahead hd had).trans opener
    obtain ⟨hb, hab, hbump⟩ := bump_of_ahead hd had
    simp only [if_pos hlt]
    refine Read.sat_bind.2 (sat_set.2 ?_)
    refine (parses_argumentsWith hb hab (by omega) arguments).sat_bind hb hab ?_
    intro e he hae hts
    have hcs : e.Took cs (e.skipWhile (·.kind = .comma)) := by
      apply took_skipWhile_of_all hae
      · simpa using commas
      · intro t ht
        obtain rfl := Option.some.inj ht
        simp [closer]
    refine Read.sat_bind.2 (sat_modify.2 ?_)
    refine sat_expect_bind (hcs.ready he) (Took.ahead_eq hcs hae) closer fun f hf haf hclose => ?_
    have hall := hbump.trans (hts.trans (hcs.trans hclose))
    have hmerge : d.current.span.merge k.span = ⟨o.span.start, k.span.stop⟩ := by
      have hplaced := hd.placed
      rw [had] at hplaced
      rw [current_of_cons had]
      exact hplaced.merge_eq (by simp)
    rw [hmerge]
    exact hmore f hf haf (by simpa using htook.trans hall)

theorem parses_segmentsWith {ts rest : List Token} {ss : List (NameSegment TypeExpr)} {n : Nat}
    {c : Cursor} (hc : c.Ready) (ha : c.ahead = ts ++ rest) (hn : 2 * ts.length ≤ n + 1) :
    SegmentsForm ts rest ss → Parses (segmentsWith n) c ts ss
  | @SegmentsForm.last ts _ s segment stop => by
    have hpos := List.length_pos_iff.2 segment.ne_nil
    obtain ⟨n, rfl⟩ : ∃ m, n = m + 1 := ⟨n - 1, by omega⟩
    refine sat_segmentsWith hc ha (by omega) (fun d hd had htook => ?_) segment
    refine (parses_moreSegments_nil hd had stop).sat fun e he => ⟨rfl, ?_⟩
    simpa using htook.trans he
  | @SegmentsForm.more ts us _ k s ss segment dot tail => by
    have hpos := List.length_pos_iff.2 segment.ne_nil
    obtain ⟨n, rfl⟩ : ∃ m, n = m + 1 := ⟨n - 1, by simp at hn; omega⟩
    have ha' : c.ahead = ts ++ (k :: (us ++ rest)) := by simpa using ha
    simp only [List.length_append, List.length_cons] at hn
    refine sat_segmentsWith hc ha' (by omega) (fun d hd had htook => ?_) segment
    have hmore := parses_moreSegments (n := n) (s := s) dot hd had tail fun e he hae =>
      parses_segmentsWith he hae (by omega) tail
    exact hmore.sat fun e he => ⟨rfl, htook.trans he⟩

theorem parses_argumentsWith {ts rest : List Token} {es : List TypeExpr} {n : Nat} {c : Cursor}
    (hc : c.Ready) (ha : c.ahead = ts ++ rest) (hn : 2 * ts.length + 2 ≤ n) :
    ArgumentsForm ts rest es → Parses (argumentsWith n) c ts es
  | .none stop => by
    obtain ⟨n, rfl⟩ : ∃ m, n = m + 1 := ⟨n - 1, by omega⟩
    have hk : c.kind = .gt ∨ c.kind = .comma := by
      rw [kind_of_ahead hc ha]
      exact stop
    rw [argumentsWith, Parses, Read.sat_bind, sat_get, if_pos hk]
    exact ⟨rfl, Took.refl c⟩
  | .some list => by
    obtain ⟨n, rfl⟩ : ∃ m, n = m + 1 := ⟨n - 1, by omega⟩
    have hk : ¬ (c.kind = .gt ∨ c.kind = .comma) := by
      rw [kind_of_ahead hc ha, kindAt_append_left list.ne_nil]
      rcases list.kindAt_eq with h | h | h <;> simp [h]
    rw [argumentsWith, Parses, Read.sat_bind, sat_get, if_neg hk]
    exact parses_argumentListWith hc ha (by omega) list

theorem parses_argumentListWith {ts rest : List Token} {es : List TypeExpr} {n : Nat} {c : Cursor}
    (hc : c.Ready) (ha : c.ahead = ts ++ rest) (hn : 2 * ts.length + 1 ≤ n) :
    TypeListForm ts rest es → Parses (argumentListWith n) c ts es
  | @TypeListForm.last ts _ e type stop => by
    obtain ⟨n, rfl⟩ : ∃ m, n = m + 1 := ⟨n - 1, by omega⟩
    rw [argumentListWith]
    refine (parses_typeExprWith hc ha (by omega) type).sat_bind hc ha fun d hd had hts => ?_
    have hk := kind_ne_of_ahead hd had stop
    simp only [Read.sat_bind, sat_eat, if_neg hk]
    exact ⟨rfl, hts⟩
  | @TypeListForm.more ts us _ k e es type comma tail => by
    obtain ⟨n, rfl⟩ : ∃ m, n = m + 1 := ⟨n - 1, by omega⟩
    have ha' : c.ahead = ts ++ (k :: (us ++ rest)) := by simpa using ha
    simp only [List.length_append, List.length_cons] at hn
    rw [argumentListWith]
    refine (parses_typeExprWith hc ha' (by omega) type).sat_bind hc ha' fun d hd had hts => ?_
    obtain ⟨hb, hab, hcomma⟩ := bump_of_ahead hd had
    have hk := (kind_of_ahead hd had).trans comma
    simp only [Read.sat_bind, sat_eat, if_pos hk]
    refine (parses_argumentListWith hb hab (by omega) tail).sat_bind hb hab fun g _ _ hg => ⟨rfl, ?_⟩
    simpa using hts.trans (hcomma.trans hg)

end

/-- A type is read. -/
theorem parses_typeExpr {ts rest : List Token} {e : TypeExpr} (h : TypeForm ts rest e)
    (hc : c.Ready) (ha : c.ahead = ts ++ rest) : Parses typeExpr c ts e := by
  refine Read.sat_bind.2 (sat_get.2 (parses_typeExprWith hc ha ?_ h))
  rw [typeFuel, ha, List.length_append]
  omega

/-! ## Attribute lists -/

/-- What is read from a type on spans the tokens consumed. -/
theorem Took.spanFrom_eq {d : Cursor} {ts us rest : List Token} {e : TypeExpr}
    (h : c.Took (ts ++ us) d) (hc : c.Ready) (type : TypeForm ts rest e) :
    d.spanFrom e.span.start = spanOf (ts ++ us) := by
  have hne : ts ++ us ≠ [] := by simp [type.ne_nil]
  have hstart : e.span.start = startOf (ts ++ us) := by
    rw [type.span_start, startOf_append type.ne_nil]
  rw [hstart, spanFrom_of_le (h.startOf_le hc hne), spanOf, h.prevEnd,
    stopOf_of_ne_nil hne c.prevEnd 0]

/-- A closed group of brackets is skipped. -/
theorem parses_skipBalanced {o : Token} {ts rest : List Token} (h : Group o.kind.closer ts)
    (hc : c.Ready) (ha : c.ahead = o :: (ts ++ rest)) : Parses skipBalanced c (o :: ts) () := by
  obtain ⟨hb, hab, htook⟩ := bump_of_ahead hc ha
  have hlen : balancedLength? [o.kind.closer] c.bump.ahead = some ts.length := by
    rw [hab]
    exact balancedLength?_append h rest
  refine Read.sat_bind.2 (sat_next.2 (Read.sat_bind.2 (sat_get.2 ?_)))
  rw [current_of_cons ha]
  simp only [hlen, sat_set]
  exact ⟨trivial, htook.trans (took_advance hab)⟩

theorem parses_skipArguments {ts rest : List Token} (h : GroupForm .lparen ts rest) (hc : c.Ready)
    (ha : c.ahead = ts ++ rest) : Parses skipArguments c ts () := by
  have hk := kind_of_ahead hc ha
  refine Read.sat_bind.2 (sat_get.2 ?_)
  cases h with
  | none stop =>
    rw [if_neg (hk ▸ stop)]
    exact ⟨rfl, Took.refl c⟩
  | group opener group =>
    rw [if_pos (hk.trans opener)]
    exact parses_skipBalanced (opener ▸ group) hc ha

theorem parses_attributes {ts rest : List Token} {as : List Attribute}
    (h : AttributesForm ts rest as) (hc : c.Ready) (ha : c.ahead = ts ++ rest) {n : Nat}
    (hn : ts.length < n) : Parses (attributes n) c ts as := by
  induction h generalizing c n with
  | @none rest stop =>
    obtain ⟨n, rfl⟩ : ∃ m, n = m + 1 := ⟨n - 1, by omega⟩
    have hk : c.kind = .rbracket := (kind_of_ahead hc ha).trans stop
    rw [attributes, Parses, Read.sat_bind, sat_get, if_pos hk]
    exact ⟨rfl, Took.refl c⟩
  | @last ts us rest e type call stop =>
    obtain ⟨n, rfl⟩ : ∃ m, n = m + 1 := ⟨n - 1, by omega⟩
    rw [List.append_assoc] at ha
    have hk : c.kind ≠ .rbracket := by
      rw [kind_of_ahead hc ha, kindAt_append_left type.ne_nil]
      rcases type.kindAt_eq with h | h | h <;> simp [h]
    rw [attributes, Parses, Read.sat_bind, sat_get, if_neg hk]
    refine (parses_typeExpr type hc ha).sat_bind hc ha fun d hd had hts => ?_
    refine (parses_skipArguments call hd had).sat_bind hd had fun f hf haf hus => ?_
    have hspan := Took.spanFrom_eq (hts.trans hus) hc type
    have hcomma := kind_ne_of_ahead hf haf stop
    simp only [Read.sat_bind, sat_spanFrom, hspan, sat_eat, if_neg hcomma]
    exact ⟨rfl, hts.trans hus⟩
  | @more ts us vs rest k e as type call comma _ ih =>
    obtain ⟨n, rfl⟩ : ∃ m, n = m + 1 := ⟨n - 1, by omega⟩
    have ha' : c.ahead = ts ++ (us ++ (k :: (vs ++ rest))) := by simpa using ha
    have hk : c.kind ≠ .rbracket := by
      rw [kind_of_ahead hc ha', kindAt_append_left type.ne_nil]
      rcases type.kindAt_eq with h | h | h <;> simp [h]
    simp only [List.length_append, List.length_cons] at hn
    rw [attributes, Parses, Read.sat_bind, sat_get, if_neg hk]
    refine (parses_typeExpr type hc ha').sat_bind hc ha' fun d hd had hts => ?_
    refine (parses_skipArguments call hd had).sat_bind hd had fun f hf haf hus => ?_
    have hspan := Took.spanFrom_eq (hts.trans hus) hc type
    have hcomma := (kind_of_ahead hf haf).trans comma
    obtain ⟨hb, hab, hbump⟩ := bump_of_ahead hf haf
    simp only [Read.sat_bind, sat_spanFrom, hspan, sat_eat, if_pos hcomma]
    refine (ih hb hab (by omega)).sat_bind hb hab fun g _ _ hg => ⟨rfl, ?_⟩
    simpa using hts.trans (hus.trans (hbump.trans hg))

theorem parses_attributeTarget {ts rest : List Token} {target : Option String}
    (h : TargetForm ts rest target) (hc : c.Ready) (ha : c.ahead = ts ++ rest) :
    Parses attributeTarget c ts target := by
  refine Read.sat_bind.2 (sat_get.2 ?_)
  cases h with
  | none stop =>
    have hk : ¬ (c.kind = .ident ∧ c.peek 1 = .colon) := by
      rw [kind_of_ahead hc ha, peek_eq, ha]
      exact stop
    rw [if_neg hk]
    exact ⟨rfl, Took.refl c⟩
  | @word t s rest word sign =>
    have hk : c.kind = .ident ∧ c.peek 1 = .colon := by
      rw [kind_of_ahead hc ha, peek_eq, ha]
      exact ⟨word, sign⟩
    rw [if_pos hk, current_of_cons ha]
    exact ⟨rfl, took_advance (show c.ahead = [t, s] ++ _ from ha)⟩

theorem parses_attributeListsWith {ts rest : List Token} {ls : List AttributeList}
    (h : AttributeListsForm ts rest ls) (hc : c.Ready) (ha : c.ahead = ts ++ rest) {n : Nat}
    (hn : ts.length ≤ n) : Parses (attributeListsWith n) c ts ls := by
  induction h generalizing c n with
  | @none rest stop =>
    cases n with
    | zero => exact ⟨rfl, Took.refl c⟩
    | succ n =>
      have hk := kind_ne_of_ahead hc ha stop
      rw [attributeListsWith, Parses, Read.sat_bind, sat_get, if_neg hk]
      exact ⟨rfl, Took.refl c⟩
  | @cons o k ts us vs rest target as ls opener head attributes closer _ ih =>
    obtain ⟨n, rfl⟩ : ∃ m, n = m + 1 := ⟨n - 1, by simp at hn; omega⟩
    have ha' : c.ahead = o :: (ts ++ (us ++ k :: (vs ++ rest))) := by simpa using ha
    have hk : c.kind = .lbracket := (kind_of_ahead hc ha').trans opener
    have hlen : us.length < c.ahead.length := by
      rw [ha']
      simp only [List.length_append, List.length_cons]
      omega
    obtain ⟨hb, hab, hbump⟩ := bump_of_ahead hc ha'
    simp only [List.length_append, List.length_cons] at hn
    rw [attributeListsWith, Parses, Read.sat_bind, sat_get, if_pos hk, Read.sat_bind, sat_set]
    refine (parses_attributeTarget head hb hab).sat_bind hb hab fun d hd had hts => ?_
    refine (parses_attributes attributes hd had hlen).sat_bind hd had fun e he hae hus => ?_
    refine sat_expect_bind he hae closer fun f hf haf hclose => ?_
    have hall := hbump.trans (hts.trans (hus.trans hclose))
    have hmerge : c.current.span.merge k.span = ⟨o.span.start, k.span.stop⟩ := by
      have hplaced := hc.placed
      rw [ha'] at hplaced
      rw [current_of_cons ha']
      exact hplaced.merge_eq (by simp)
    refine (ih hf haf (by omega)).sat_bind hf haf fun g _ _ hg => ⟨?_, ?_⟩
    · rw [hmerge]
    · simpa using hall.trans hg

/-- Attribute lists are read. -/
theorem parses_attributeLists {ts rest : List Token} {ls : List AttributeList}
    (h : AttributeListsForm ts rest ls) (hc : c.Ready) (ha : c.ahead = ts ++ rest) :
    Parses attributeLists c ts ls := by
  refine Read.sat_bind.2 (sat_get.2 (parses_attributeListsWith h hc ha ?_))
  rw [ha, List.length_append]
  omega

end SelfTypeLint.Read
