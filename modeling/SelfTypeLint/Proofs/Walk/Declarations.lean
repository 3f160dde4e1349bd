import SelfTypeLint.Proofs.Reader.Progress
import SelfTypeLint.Proofs.Walk.Headers

/-!
# Walks through declarations

A walk over the members of a body makes sure by the index that each turn gets on. It always does: a
member that is read consumes a token, and so does skipping one that is given up.
-/

namespace SelfTypeLint.Walk

open Walker Cursor

variable {α β : Type} {w w' : Walker} {c d : Cursor}

/-! ## Identifiers -/

theorem collecting_run_ok {f : Walk α} {a : α}
    (hf : f.run.run { w with sinks := [] :: w.sinks } = some (.ok a, w')) :
    (collecting f).run.run w =
      some (.ok (a, (w'.sinks.head?.getD []).reverse), { w' with sinks := w'.sinks.tail }) := by
  have hattempt : (attempt f).run.run { w with sinks := [] :: w.sinks } = some (.ok (.ok a), w') := by
    show (f.run.run _).bind _ = _
    rw [hf]
    rfl
  show ((attempt f >>= _ : Walk _).run.run { w with sinks := [] :: w.sinks }) = _
  rw [run_bind_ok hattempt]
  rfl

theorem collecting_run_error {f : Walk α} {e : ParseError}
    (hf : f.run.run { w with sinks := [] :: w.sinks } = some (.error e, w')) :
    (collecting f).run.run w = some (.error e, { w' with sinks := w'.sinks.tail }) := by
  have hattempt : (attempt f).run.run { w with sinks := [] :: w.sinks } =
      some (.ok (.error e), w') := by
    show (f.run.run _).bind _ = _
    rw [hf]
    rfl
  show ((attempt f >>= _ : Walk _).run.run { w with sinks := [] :: w.sinks }) = _
  rw [run_bind_ok hattempt]
  rfl

theorem read_collecting_ok {g : Read α} {a : α}
    (hg : g.run.run { c with idents := [] } = (.ok a, d)) :
    (Read.collecting g).run.run c = (.ok (a, d.idents.reverse), { d with idents := c.idents }) := by
  have hattempt : (Read.attempt g).run.run { c with idents := [] } = (.ok (.ok a), d) := by
    show (Except.ok (g.run.run _).1, (g.run.run _).2) = _
    rw [hg]
  refine (read_bind_ok (g := get) (b := c) (d := c) rfl).trans ?_
  refine (read_bind_ok (g := modify _) (b := ⟨⟩) (d := { c with idents := [] }) rfl).trans ?_
  exact read_bind_ok hattempt

theorem read_collecting_error {g : Read α} {e : ParseError}
    (hg : g.run.run { c with idents := [] } = (.error e, d)) :
    (Read.collecting g).run.run c = (.error e, { d with idents := c.idents }) := by
  have hattempt : (Read.attempt g).run.run { c with idents := [] } = (.ok (.error e), d) := by
    show (Except.ok (g.run.run _).1, (g.run.run _).2) = _
    rw [hg]
  refine (read_bind_ok (g := get) (b := c) (d := c) rfl).trans ?_
  refine (read_bind_ok (g := modify _) (b := ⟨⟩) (d := { c with idents := [] }) rfl).trans ?_
  exact read_bind_ok hattempt

/-- A walk with a list of identifiers of its own meets those that the reader does. -/
theorem follows_collecting {f : Walk α} {g : Read α} (h : w.Mirrors c)
    (hf : ∀ v, v.Mirrors { c with idents := [] } → Follows f g v { c with idents := [] }) :
    Follows (collecting f) (Read.collecting g) w c := by
  obtain ⟨v, hrun, hon, hv⟩ := hf _ (mirrors_push h)
  obtain ⟨hmirrors, hon'⟩ := mirrors_pop h hon hv
  have hmet : v.sinks.head?.getD [] = (g.run.run { c with idents := [] }).2.idents := by
    have hdepth : v.sinks.length = w.sinks.length + 1 := hon.depth
    cases hsinks : v.sinks with
    | nil => simp [hsinks] at hdepth
    | cons sink outer => exact hv.idents sink (by simp [hsinks])
  unfold Follows FollowsM
  cases hg : g.run.run { c with idents := [] } with
  | mk r d =>
    rw [hg] at hrun hmirrors hmet
    cases r with
    | ok a =>
      rw [read_collecting_ok hg, collecting_run_ok hrun, hmet]
      exact ⟨_, rfl, hon', hmirrors⟩
    | error e =>
      rw [read_collecting_error hg, collecting_run_error hrun]
      exact ⟨_, rfl, hon', hmirrors⟩

/-! ## Types and their bodies -/

theorem exists_recover {n : Nat} (h : w.Mirrors c) (hn : c.ahead.length < n) (e : ParseError) :
    ∃ w', (recover n e).run w = some ((), w') ∧ w.Onward w' ∧
      w'.Mirrors (c.report e).skipMember := by
  obtain ⟨w', hrun, hon, h'⟩ := exists_member n 0 _ _ (h.report e) hn
  exact ⟨w', hrun, (Onward.report w e).trans hon, h'⟩

/-- A turn that got on is not made to. -/
theorem insist_run {before : Nat} (hlt : before < w.pos) : (insist before).run w = some ((), w) := by
  show StateT.run (ite (w.pos = before) _ _) w = _
  rw [if_neg (by omega)]
  rfl

/-- The reader of a block, apart from what follows it. -/
theorem withBlock_eq (m : Nat) (g : List TypeDecl → Read α) :
    Read.withBlock m g = Read.withBlock m pure >>= g := by
  rw [Read.withBlock, Read.withBlock, bind_assoc]
  refine congrArg (get >>= ·) (funext fun c => ?_)
  generalize c.kind = k
  split <;> simp only [bind_assoc, pure_bind]

/-- What the reader of bodies does with what stands next. -/
def bodyEntryOf (m : Nat) : StateM Cursor (Option TypeDecl) := do
  let c ← get
  if c.kind = .semi then
    set c.bump
    return none
  else
    match ← (Read.bodyMemberWith m).run with
    | .ok found => return found
    | .error e =>
      modify fun c => (c.report e).skipMember
      return none

theorem bodyWith_succ (m : Nat) : Read.bodyWith (m + 1) = (do
    let c ← get
    if c.kind = .rbrace ∨ c.kind = .eof then return []
    else
      let found ← bodyEntryOf m
      return found.toList ++ (← Read.bodyWith m)) := by
  refine StateT.ext fun c => ?_
  rw [Read.bodyWith, bodyEntryOf]
  simp only [StateT.run_bind, StateT.run_get, pure_bind]
  split
  · next hk => rw [if_pos (.inl hk)]
  · next hk => rw [if_pos (.inr hk)]
  · next hk =>
    rw [if_neg (by simp [hk])]
    simp [hk]
  · next h1 h2 h3 =>
    rw [if_neg (by rintro (hk | hk) <;> contradiction)]
    simp only [StateT.run_bind, StateT.run_get, pure_bind]
    rw [if_neg h3, StateT.run_bind]
    obtain ⟨r, d⟩ := (Read.bodyMemberWith m).run.run c
    rcases r with e | (_ | found) <;> rfl

/-- Where a body goes on, what stands next consumes a token. -/
theorem satM_bodyEntryOf_lt (m : Nat) (hc : c.Ready) (h1 : c.kind ≠ .rbrace) (h2 : c.kind ≠ .eof) :
    Read.SatM (bodyEntryOf m) c fun _ d => d.ahead.length < c.ahead.length := by
  refine Read.satM_bind.2 (Read.satM_get.2 ?_)
  split
  · have hlen := length_bump hc h2
    exact Read.satM_bind.2 (Read.satM_set.2 (Read.satM_pure.2 (by omega)))
  · next h3 =>
    have hm : Grammar.MemberAt c.ahead := by
      rw [Grammar.MemberAt, ← hc.kind_eq]
      exact ⟨h1, h2, h3⟩
    have hread := ((Read.readsDeclarations m).2.2 c hc hm).and (Read.sat_bodyMember_lt m hc hm)
    refine Read.satM_bind.2 (Read.satM_run.2 (Read.Sat.mono hread (fun _ _ h => h.2) ?_))
    rintro d ⟨⟨ts, is, es, hmoved, -⟩, -⟩ e _
    exact length_skipMember_lt (Moved.trans hmoved (d.moved_report e)) hm

/-- Holds of a number for which the readers of types and their bodies do what the walks do. From a body
to that of a type nested in it, the name of the type and a brace are passed. -/
structure BodiesFollow (m : Nat) : Prop where
  typeDecl : ∀ n start attributes modifiers w c, w.Mirrors c → 4 * c.ahead.length + 1 ≤ m →
    4 * c.ahead.length + 3 ≤ n →
      Follows (typeDecl start attributes modifiers n)
        (Read.typeDeclWith start attributes modifiers m) w c
  body : ∀ n w c, w.Mirrors c → 4 * c.ahead.length + 3 ≤ m → 4 * c.ahead.length + 6 ≤ n →
    FollowsM (body n) (Read.bodyWith m) w c
  bodyMember : ∀ n w c, w.Mirrors c → 4 * c.ahead.length + 2 ≤ m → 4 * c.ahead.length + 4 ≤ n →
    Follows (bodyMember n) (Read.bodyMemberWith m) w c

theorem BodiesFollow.block {m n : Nat} (hm : BodiesFollow m) (h : w.Mirrors c)
    (hlen : 4 * c.ahead.length ≤ m + 1) (hn : 4 * c.ahead.length + 3 ≤ n) :
    Follows (Walk.block n) (Read.withBlock m pure) w c := by
  obtain ⟨n, rfl⟩ : ∃ k, n = k + 1 := ⟨n - 1, by omega⟩
  rw [Read.withBlock, follows_get]
  split
  · next hk =>
    have hbump := length_bump h.ready (by simp [hk])
    rw [Walk.block, follows_set]
    refine Follows.kind h ?_
    rw [if_pos hk]
    refine Follows.bump h fun v _ hv => ?_
    refine Follows.lift (hm.body n v c.bump hv (by omega) (by omega)) fun u _ hu => ?_
    exact (follows_closeBody hu).bind fun _ d x _ _ hx => follows_pure hx
  · next hk =>
    rw [Walk.block, follows_set]
    refine Follows.kind h ?_
    rw [if_neg (by simp [hk]), if_pos hk]
    exact Follows.bump h fun v _ hv => follows_pure hv
  · next h1 h2 =>
    rw [Walk.block, bind_pure]
    refine Follows.kind h ?_
    rw [if_neg h1, if_neg h2]
    exact follows_fail h .bodyOrSemicolon

theorem BodiesFollow.typeDecl_succ {m n start : Nat} {attributes : List AttributeList}
    {modifiers : List String} (hm : BodiesFollow m) (h : w.Mirrors c)
    (hlen : 4 * c.ahead.length + 1 ≤ m + 1) (hn : 4 * c.ahead.length + 3 ≤ n) :
    Follows (Walk.typeDecl start attributes modifiers n)
      (Read.typeDeclWith start attributes modifiers (m + 1)) w c := by
  obtain ⟨n, rfl⟩ : ∃ k, n = k + 1 := ⟨n - 1, by omega⟩
  rw [Walk.typeDecl, Read.typeDeclWith_succ]
  refine (follows_collecting h fun v hv => ?_).bind ?_
  · have hsame : c.ahead.length = ({ c with idents := [] } : Cursor).ahead.length := rfl
    generalize ({ c with idents := [] } : Cursor) = c' at hv hsame
    rw [Read.withHead]
    refine (follows_typeKind hv).bind fun kind c1 w1 _ hon1 h1 => ?_
    have hle1 := hon1.length_le hv h1
    refine (follows_expect h1 .ident .typeName).bind fun t c2 w2 hrun hon2 h2 => ?_
    obtain ⟨hident, rfl⟩ := eq_of_expect hrun
    have hbump := length_bump h1.ready (by simp [hident])
    refine (follows_typeParams h2 (by omega)).bind ?_
    rintro ⟨params, paramsSpan⟩ c3 w3 - hon3 h3
    have hle3 := hon3.length_le h2 h3
    refine (follows_callArguments h3 (by omega)).bind fun _ c4 w4 _ hon4 h4 => ?_
    have hle4 := hon4.length_le h3 h4
    refine (follows_baseTypes h4 (by omega)).bind fun bases c5 w5 _ hon5 h5 => ?_
    have hle5 := hon5.length_le h4 h5
    rw [follows_get]
    refine (follows_constraintClauses _ n w5 c5 h5 (Nat.le_refl _) (by omega)).bind
      fun _ c6 w6 _ hon6 h6 => ?_
    have hle6 := hon6.length_le h5 h6
    rw [withBlock_eq]
    refine (hm.block h6 (by omega) (by omega)).bind fun nested c7 w7 _ _ h7 => ?_
    rw [follows_spanFrom]
    exact Follows.spanFrom h7 (follows_pure h7)
  · rintro ⟨d, idents⟩ e w' - - h'
    exact follows_pure h'

theorem BodiesFollow.bodyMember_succ {m n : Nat} (hm : BodiesFollow m) (h : w.Mirrors c)
    (hlen : 4 * c.ahead.length + 2 ≤ m + 1) (hn : 4 * c.ahead.length + 4 ≤ n) :
    Follows (Walk.bodyMember n) (Read.bodyMemberWith (m + 1)) w c := by
  obtain ⟨n, rfl⟩ : ∃ k, n = k + 1 := ⟨n - 1, by omega⟩
  rw [Walk.bodyMember, Read.bodyMemberWith, follows_get]
  refine Follows.current h ?_
  dsimp only
  refine follows_front h (by omega) fun attributes modifiers u e hu hle => ?_
  rw [follows_get]
  refine Follows.after (atTypeDecl_run hu) (Onward.refl u) ?_
  by_cases hat : Read.atTypeDecl e = true
  · rw [if_pos hat, if_pos hat]
    refine (hm.typeDecl n _ attributes modifiers u e hu (by omega) (by omega)).bind
      fun decl e' x _ _ hx => ?_
    exact follows_pure hx
  · rw [if_neg hat, if_neg hat]
    split
    · next hk =>
      refine Follows.kind hu ?_
      rw [if_pos hk]
      refine (follows_enumeration hu (by omega)).bind fun _ e' x _ _ hx => ?_
      exact follows_pure hx
    · next hk =>
      rw [follows_set]
      refine Follows.kind hu ?_
      rw [if_neg (by simp [hk]), if_pos hk]
      obtain ⟨x, hdelegate, honx, hx⟩ := exists_delegate (n := n) hu (by omega)
      exact Follows.after hdelegate honx (follows_pure hx)
    · next h1 h2 =>
      rw [follows_set]
      refine Follows.kind hu ?_
      rw [if_neg h1, if_neg h2]
      obtain ⟨x, hmember, honx, hx⟩ := exists_member n 0 u e hu (by omega)
      exact Follows.after hmember honx (follows_pure hx)

theorem BodiesFollow.bodyEntry {m n : Nat} (hm : BodiesFollow m) (h : w.Mirrors c)
    (hlen : 4 * c.ahead.length + 2 ≤ m) (hn : 4 * c.ahead.length + 5 ≤ n) :
    FollowsM (Walk.bodyEntry n) (bodyEntryOf m) w c := by
  obtain ⟨n, rfl⟩ : ∃ k, n = k + 1 := ⟨n - 1, by omega⟩
  rw [Walk.bodyEntry, bodyEntryOf, followsM_get]
  refine FollowsM.after (kind_run h) (Onward.refl w) ?_
  split
  · obtain ⟨v, hbump, hon, hv⟩ := exists_bump h
    rw [followsM_set]
    exact FollowsM.after hbump hon (followsM_pure hv)
  · refine FollowsM.bind (hm.bodyMember n w c h hlen (by omega)) fun v hon hv => ?_
    have hle := hon.length_le h hv
    generalize (Read.bodyMemberWith m).run.run c = out at *
    obtain ⟨r, d⟩ := out
    cases r with
    | ok found => exact followsM_pure hv
    | error e =>
      rw [followsM_modify]
      obtain ⟨u, hrecover, hon', hu⟩ := exists_recover (n := n) hv (by dsimp only at hle ⊢; omega) e
      exact FollowsM.after hrecover hon' (followsM_pure hu)

theorem BodiesFollow.body_succ {m n : Nat} (hm : BodiesFollow m) (h : w.Mirrors c)
    (hlen : 4 * c.ahead.length + 3 ≤ m + 1) (hn : 4 * c.ahead.length + 6 ≤ n) :
    FollowsM (Walk.body n) (Read.bodyWith (m + 1)) w c := by
  obtain ⟨n, rfl⟩ : ∃ k, n = k + 1 := ⟨n - 1, by omega⟩
  rw [Walk.body, bodyWith_succ, followsM_get]
  refine FollowsM.get ?_
  dsimp only
  refine FollowsM.after (kind_run h) (Onward.refl w) ?_
  split
  · exact followsM_pure h
  · next hk =>
    rw [not_or] at hk
    have hlt := satM_bodyEntryOf_lt m h.ready hk.1 hk.2
    unfold Read.SatM at hlt
    refine FollowsM.bind (hm.bodyEntry h (by omega) (by omega)) fun v hon hv => ?_
    refine FollowsM.after (insist_run (hon.pos_lt h hv hlt)) (Onward.refl v) ?_
    refine FollowsM.bind (hm.body n v _ hv (by omega) (by omega)) fun u _ hu => ?_
    exact followsM_pure hu

theorem bodiesFollow (m : Nat) : BodiesFollow m := by
  induction m with
  | zero => refine ⟨?_, ?_, ?_⟩ <;> intros <;> omega
  | succ m ih =>
    exact ⟨fun _ _ _ _ _ _ => ih.typeDecl_succ, fun _ _ _ => ih.body_succ,
      fun _ _ _ => ih.bodyMember_succ⟩

end SelfTypeLint.Walk
