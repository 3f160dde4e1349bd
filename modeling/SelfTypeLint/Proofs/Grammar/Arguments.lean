import SelfTypeLint.Proofs.Grammar.Derivations
import SelfTypeLint.Proofs.Grammar.Holes

/-!
# Exchanging an argument

An argument of a base type can be exchanged for any other type. `ArgumentIn` says where its tokens stand in
a derivation, and that the tokens around them derive something again whatever type comes between.
-/

namespace SelfTypeLint.Grammar

open Token Respelling

variable {m : Respelling}

/-! ## Derivations that move -/

theorem TypeDerivation.moved {ts : List Token} {e : TypeExpr} (h : TypeDerivation ts e) (hm : m.Moves) :
    TypeDerivation (ts.map m.token) (m.typeExpr e) :=
  ((h.form (typeEnds_nil ts)).respell (fun t _ => hm.suits t) (.refl [])).derivation

theorem QualifierDerivation.moved {ts : List Token} {isGlobal : Bool}
    {first : List (NameSegment TypeExpr)} (h : QualifierDerivation ts isGlobal first) (hm : m.Moves) :
    ∃ first', QualifierDerivation (ts.map m.token) isGlobal first' := by
  have htext : ∀ t : Token, (m.token t).text = t.text := fun t => hm.text_eq _ _
  cases h with
  | none => exact ⟨_, .none⟩
  | @root t s word sign root =>
    exact ⟨_, .root (t := m.token t) (s := m.token s) word sign (by rwa [htext])⟩
  | @word t s word sign other =>
    exact ⟨_, .word (t := m.token t) (s := m.token s) word sign (by rwa [htext])⟩

theorem SegmentDerivation.moved {ts : List Token} {s : NameSegment TypeExpr}
    (h : SegmentDerivation ts s) (hm : m.Moves) : ∃ s', SegmentDerivation (ts.map m.token) s' := by
  have hform : SegmentForm ts [] s := h.form (by simp)
  exact ⟨_, (hform.respell (fun t _ => hm.suits t) (.refl [])).derivation⟩

theorem SegmentsDerivation.moved {ts : List Token} {ss : List (NameSegment TypeExpr)}
    (h : SegmentsDerivation ts ss) (hm : m.Moves) : ∃ ss', SegmentsDerivation (ts.map m.token) ss' := by
  have hform : SegmentsForm ts [] ss := h.form (by simp) (by simp [DotAt])
  exact ⟨_, (hform.respell (fun t _ => hm.suits t) (.refl [])).derivation⟩

theorem TypesDerivation.moved {ts : List Token} {es : List TypeExpr} (hm : m.Moves) :
    TypesDerivation ts es → ∃ es', TypesDerivation (ts.map m.token) es'
  | .last type => ⟨_, .last (type.moved hm)⟩
  | @TypesDerivation.more ts us c e es type comma tail => by
    obtain ⟨es', htail⟩ := tail.moved hm
    rw [List.map_append, List.map_cons]
    exact ⟨_, .more (c := m.token c) (type.moved hm) comma htail⟩

/-- The same suffixes may stand after any type. -/
theorem SuffixesDerivation.moved {start : Nat} {a e : TypeExpr} {ts : List Token}
    (h : SuffixesDerivation start a ts e) (hm : m.Moves) (start' : Nat) (a' : TypeExpr) :
    ∃ e', SuffixesDerivation start' a' (ts.map m.token) e' := by
  induction h generalizing a' with
  | nil => exact ⟨a', .nil⟩
  | @nullable _ _ q _ question _ ih =>
    obtain ⟨e', h⟩ := ih (.nullable a' ⟨start', (m.token q).span.stop⟩)
    exact ⟨e', .nullable (q := m.token q) question h⟩
  | @array _ _ o b cs _ opener commas closer _ ih =>
    obtain ⟨e', h⟩ := ih (.array a' ⟨start', (m.token b).span.stop⟩)
    rw [List.map_cons, List.map_append, List.map_cons]
    refine ⟨e', .array (o := m.token o) (b := m.token b) opener ?_ closer h⟩
    intro t ht
    obtain ⟨u, hu, rfl⟩ := List.mem_map.1 ht
    exact commas u hu
  | @pointer _ _ s _ op star _ ih =>
    obtain ⟨e', h⟩ := ih a'
    exact ⟨e', .pointer (s := m.token s) op ((hm.text_eq _ _).trans star) h⟩

/-- Only a type without suffixes, up to the stars of pointers, has arguments. -/
theorem SuffixesDerivation.typeArgs_eq {start : Nat} {a e : TypeExpr} {ts : List Token}
    (h : SuffixesDerivation start a ts e) : e.typeArgs = [] ∨ e = a := by
  induction h with
  | nil => exact .inr rfl
  | nullable _ _ ih => exact .inl (ih.elim id fun h => h ▸ rfl)
  | array _ _ _ _ ih => exact .inl (ih.elim id fun h => h ▸ rfl)
  | pointer _ _ _ ih => exact ih

/-- Tokens that are exchanged for others, with the stars of pointers behind them, are a type in the end. -/
theorem SegmentDerivation.type {vs stars : List Token} {s : NameSegment TypeExpr}
    (h : SegmentDerivation vs s) (hstars : ∀ t ∈ stars, t.kind = .op ∧ t.text = "*") :
    ∃ e, TypeDerivation (vs ++ stars) e := by
  obtain ⟨e, he⟩ := (SegmentsDerivation.last h).type .none
  have hsuffixes : SuffixesDerivation (startOf ([] ++ vs)) e stars e := by
    induction stars with
    | nil => exact .nil
    | cons t stars ih =>
      obtain ⟨⟨op, star⟩, htail⟩ := List.forall_mem_cons.1 hstars
      exact .pointer op star (ih htail)
  exact ⟨e, he.append hsuffixes⟩

/-! ## Where an argument stands -/

/-- Holds of tokens among which those of a type stand, between commas or the angles of a list. Where they
move and the tokens of another type come in the place of these, they make tokens of which `P` holds. -/
def ArgumentIn (a : TypeExpr) (ts : List Token) (P : Respelling → List Token → Prop) : Prop :=
  ∃ xs ws ys, ts = xs ++ (ws ++ ys) ∧ TypeDerivation ws a ∧
    (lastKind xs = .lt ∨ lastKind xs = .comma) ∧ (kindAt ys 0 = .gt ∨ kindAt ys 0 = .comma) ∧
      ∀ (m : Respelling) (ws' : List Token) (e : TypeExpr), m.Moves → TypeDerivation ws' e →
        P m (xs.map m.token ++ (ws' ++ ys.map m.token))

variable {a : TypeExpr}

theorem ne_nil_of_lastKind {xs : List Token} (h : lastKind xs = .lt ∨ lastKind xs = .comma) : xs ≠ [] := by
  rintro rfl
  rcases h with h | h <;> exact absurd h (by decide)

theorem ne_nil_of_kindAt {ys : List Token} (h : kindAt ys 0 = .gt ∨ kindAt ys 0 = .comma) : ys ≠ [] := by
  rintro rfl
  rcases h with h | h <;> exact absurd h (by decide)

/-- An argument among some tokens is among more of them. -/
theorem ArgumentIn.within {ts : List Token} {P Q : Respelling → List Token → Prop} (fs us : List Token)
    (h : ArgumentIn a ts P)
    (hPQ : ∀ (m : Respelling) (ts' : List Token), m.Moves → P m ts' →
      Q m (fs.map m.token ++ (ts' ++ us.map m.token))) : ArgumentIn a (fs ++ (ts ++ us)) Q := by
  obtain ⟨xs, ws, ys, rfl, ha, hopens, hcloses, hnew⟩ := h
  refine ⟨fs ++ xs, ws, ys ++ us, by simp, ha, ?_, ?_, fun m ws' e hm he => ?_⟩
  · rwa [lastKind_append (ne_nil_of_lastKind hopens)]
  · rwa [kindAt_append_left (ne_nil_of_kindAt hcloses)]
  · have hQ := hPQ m _ hm (hnew m ws' e hm he)
    simpa using hQ

/-- An argument is among the types of a list between angles. -/
theorem TypesDerivation.argument {ts : List Token} {es : List TypeExpr} (ha : a ∈ es) {o c : Token}
    (ho : o.kind = .lt ∨ o.kind = .comma) (hc : c.kind = .gt) :
    TypesDerivation ts es → ArgumentIn a (o :: (ts ++ [c])) fun m ts' =>
      ∃ us es', ts' = m.token o :: (us ++ [m.token c]) ∧ TypesDerivation us es'
  | .last type => by
    obtain rfl := List.mem_singleton.1 ha
    exact ⟨[o], ts, [c], rfl, type, ho, .inl hc, fun m ws' e _ he => ⟨ws', _, rfl, .last he⟩⟩
  | @TypesDerivation.more ts us d e es type comma tail => by
    rcases List.mem_cons.1 ha with rfl | ha
    · refine ⟨[o], ts, d :: (us ++ [c]), by simp, type, ho, .inr comma, fun m ws' e hm he => ?_⟩
      obtain ⟨es', htail⟩ := tail.moved hm
      exact ⟨ws' ++ m.token d :: us.map m.token, _, by simp, .more he comma htail⟩
    · have hassoc : o :: (ts ++ d :: us ++ [c]) = o :: ts ++ (d :: (us ++ [c]) ++ []) := by simp
      rw [hassoc]
      refine (tail.argument ha (.inr comma) hc).within _ _ ?_
      rintro m ts' hm ⟨vs, es', rfl, htail⟩
      refine ⟨ts.map m.token ++ m.token d :: vs, _, by simp, .more (type.moved hm) comma htail⟩

theorem SegmentDerivation.argument {ts : List Token} {s : NameSegment TypeExpr} (ha : a ∈ s.args)
    (h : SegmentDerivation ts s) : ArgumentIn a ts fun _ ts' => ∃ s', SegmentDerivation ts' s' := by
  cases h with
  | plain _ => exact absurd ha List.not_mem_nil
  | unbound _ _ _ _ => exact absurd ha List.not_mem_nil
  | @generic t o c ts args word opener arguments closer =>
    have hassoc : t :: o :: (ts ++ [c]) = [t] ++ (o :: (ts ++ [c]) ++ []) := by simp
    rw [hassoc]
    refine (arguments.argument ha (.inl opener) closer).within _ _ ?_
    rintro m ts' - ⟨us, es', rfl, harguments⟩
    rw [List.map_nil, List.append_nil]
    exact ⟨_, .generic (t := m.token t) (o := m.token o) (c := m.token c) word opener harguments closer⟩

theorem SegmentsDerivation.argument {ts : List Token} {ss : List (NameSegment TypeExpr)}
    {s : NameSegment TypeExpr} (hs : ss.getLast? = some s) (ha : a ∈ s.args) :
    SegmentsDerivation ts ss → ArgumentIn a ts fun _ ts' => ∃ ss', SegmentsDerivation ts' ss'
  | .last only => by
    obtain rfl := Option.some.inj hs
    obtain ⟨xs, ws, ys, hts, hws, hopens, hcloses, hnew⟩ := only.argument ha
    refine ⟨xs, ws, ys, hts, hws, hopens, hcloses, fun m ws' e hm he => ?_⟩
    obtain ⟨s', hsegment⟩ := hnew m ws' e hm he
    exact ⟨_, .last hsegment⟩
  | @SegmentsDerivation.more ts us d s' ss first dot tail => by
    have hlast : ss.getLast? = some s := by
      obtain ⟨u, vs, rfl⟩ : ∃ u vs, ss = u :: vs := by cases tail <;> exact ⟨_, _, rfl⟩
      rwa [List.getLast?_cons_cons] at hs
    have hassoc : ts ++ d :: us = ts ++ [d] ++ (us ++ []) := by simp
    rw [hassoc]
    refine (tail.argument hlast ha).within _ _ ?_
    rintro m ts' hm ⟨ss', htail⟩
    obtain ⟨s'', hsegment⟩ := first.moved hm
    refine ⟨s'' :: ss', ?_⟩
    have hmore := SegmentsDerivation.more (d := m.token d) hsegment dot htail
    simpa using hmore

/-- An argument of a type can be exchanged. -/
theorem TypeDerivation.argument {ts : List Token} {e : TypeExpr} (ha : a ∈ e.typeArgs)
    (h : TypeDerivation ts e) : ArgumentIn a ts fun _ ts' => ∃ e', TypeDerivation ts' e' := by
  cases h with
  | @mk ts us b _ atom suffixes =>
    rcases suffixes.typeArgs_eq with hnone | rfl
    · rw [hnone] at ha
      exact absurd ha List.not_mem_nil
    cases atom with
    | predefined _ => exact absurd ha List.not_mem_nil
    | tuple _ _ _ => exact absurd ha List.not_mem_nil
    | @path qs ts isGlobal first more qualifier segments =>
      rw [TypeExpr.typeArgs, TypeExpr.segments] at ha
      obtain ⟨s, hs⟩ : ∃ s, more.getLast? = some s := by
        cases segments <;> exact ⟨_, List.getLast?_eq_some_getLast (by simp)⟩
      rw [List.getLast?_append, hs, Option.some_or] at ha
      rw [List.append_assoc]
      refine (segments.argument hs ha).within _ _ ?_
      rintro m ts' hm ⟨ss', hsegments⟩
      obtain ⟨first', hqualifier⟩ := qualifier.moved hm
      obtain ⟨e', hsuffixes⟩ := suffixes.moved hm (startOf (qs.map m.token ++ ts'))
        (.path isGlobal (first' ++ ss') (spanOf (qs.map m.token ++ ts')))
      rw [← List.append_assoc]
      exact ⟨e', .mk (.path hqualifier hsegments) hsuffixes⟩

end SelfTypeLint.Grammar
