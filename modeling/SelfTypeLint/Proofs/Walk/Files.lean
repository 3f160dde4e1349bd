import SelfTypeLint.Proofs.Walk.Declarations

/-!
# Walks through files

A walk through a whole file has an outcome: it never leaves the vector of tokens, never lowers a depth
below zero and reaches no limit that is linear in the number of tokens. The outcome is what the readers
give, and the walker is left on the token that marks the end.
-/

namespace SelfTypeLint

namespace Walk

open Walker Cursor

variable {α β : Type} {w w' : Walker} {c d : Cursor}

theorem follows_dottedTail (m : Nat) : ∀ (n : Nat) (name : String) (span : Span) (w : Walker)
    (c : Cursor), w.Mirrors c → c.ahead.length ≤ m → c.ahead.length < n →
      Follows (dottedTail n name span) (Read.dottedTail m name span) w c := by
  induction m with
  | zero =>
    intro n name span w c h hm hn
    obtain ⟨n, rfl⟩ : ∃ k, n = k + 1 := ⟨n - 1, by omega⟩
    have hk := kind_of_ahead_nil h (List.length_eq_zero_iff.1 (Nat.le_zero.1 hm))
    rw [dottedTail]
    refine Follows.kind h (Follows.get ?_)
    rw [if_neg (by simp [hk])]
    exact follows_pure h
  | succ m ih =>
    intro n name span w c h hm hn
    obtain ⟨n, rfl⟩ : ∃ k, n = k + 1 := ⟨n - 1, by omega⟩
    rw [dottedTail, Read.dottedTail, follows_get]
    refine Follows.kind h (Follows.get ?_)
    rw [h.peek]
    split
    · next hdot =>
      have hlen := length_bump h.ready (by simp [hdot.1])
      rw [follows_set, follows_next]
      refine Follows.bump h fun v _ hv => Follows.bump hv fun u hon hu => ?_
      have hle := hon.length_le hv hu
      exact ih n _ _ u _ hu (by omega) (by omega)
    · exact follows_pure h

/-! ## Members -/

/-- What the reader of members does with what stands next. -/
def entryOf (m : Nat) : StateM Cursor Read.Members := do
  let c ← get
  if c.kind = .semi then
    set c.bump
    return ([], [])
  else if c.kind = .kwUsing ∨ (c.atWord "global" = true ∧ c.peek 1 = .kwUsing) then
    match ← Read.usingDirective.run with
    | .ok u => return ([u], [])
    | .error e =>
      modify fun c => (c.report e).skipStatement
      return ([], [])
  else if c.kind = .modifier ∧ c.current.text = "extern" ∧ c.peek 1 = .ident then
    set c.skipStatement
    return ([], [])
  else
    match ← (Read.memberWith m).run with
    | .ok found => return ([], found.toList)
    | .error e =>
      modify fun c => (c.report e).skipMember
      return ([], [])

theorem membersWith_succ (m : Nat) : Read.membersWith (m + 1) = (do
    let c ← get
    if c.kind = .eof ∨ c.kind = .rbrace then return ([], [])
    else
      let (us, ms) ← entryOf m
      let (us', ms') ← Read.membersWith m
      return (us ++ us', ms ++ ms')) := by
  refine StateT.ext fun c => ?_
  rw [Read.membersWith, entryOf]
  simp only [StateT.run_bind, StateT.run_get, pure_bind]
  split
  · next hk => rw [if_pos (.inl hk)]
  · next hk => rw [if_pos (.inr hk)]
  · next hk =>
    rw [if_neg (by simp [hk])]
    simp only [StateT.run_bind, StateT.run_get, pure_bind]
    rw [if_pos hk]
    rfl
  · next h1 h2 h3 =>
    have hmore : ¬(c.kind = .eof ∨ c.kind = .rbrace) := by rintro (hk | hk) <;> contradiction
    rw [if_neg hmore]
    simp only [StateT.run_bind, StateT.run_get, pure_bind]
    rw [if_neg h3]
    split
    · simp only [StateT.run_bind]
      obtain ⟨r, d⟩ := Read.usingDirective.run.run c
      rcases r with e | u <;> rfl
    · split
      · rfl
      · simp only [StateT.run_bind]
        obtain ⟨r, d⟩ := (Read.memberWith m).run.run c
        rcases r with e | (_ | found) <;> rfl

/-- Where members go on, what stands next consumes a token. -/
theorem satM_entryOf_lt (m : Nat) (hc : c.Ready) (h1 : c.kind ≠ .eof) (h2 : c.kind ≠ .rbrace) :
    Read.SatM (entryOf m) c fun _ d => d.ahead.length < c.ahead.length := by
  refine Read.satM_bind.2 (Read.satM_get.2 ?_)
  split
  · have hlen := length_bump hc h1
    exact Read.satM_bind.2 (Read.satM_set.2 (Read.satM_pure.2 (by omega)))
  · next h3 =>
    have hm : Grammar.MemberAt c.ahead := by
      rw [Grammar.MemberAt, ← hc.kind_eq]
      exact ⟨h2, h1, h3⟩
    split
    · have hread := Read.Sat.and (Read.spells_usingDirective hc) (Read.sat_usingDirective_lt hc)
      refine Read.satM_bind.2 (Read.satM_run.2 (Read.Sat.mono hread (fun _ _ h => h.2) ?_))
      rintro d ⟨⟨ts, hts⟩, -⟩ e _
      exact length_skipStatement_lt (Moved.trans hts (d.moved_report e)) hm
    · split
      · exact Read.satM_bind.2 (Read.satM_set.2 (Read.satM_pure.2
          (length_skipStatement_lt (Moved.refl c) hm)))
      · have hread := ((Read.readsFiles c.source m).2.1 c hc rfl hm).and (Read.sat_member_lt m hc)
        refine Read.satM_bind.2 (Read.satM_run.2 (Read.Sat.mono hread (fun _ _ h => h.2) ?_))
        rintro d ⟨⟨ts, is, es, hmoved⟩, -⟩ e _
        exact length_skipMember_lt (Moved.trans hmoved (d.moved_report e)) hm

theorem follows_usingEntry {n : Nat} (h : w.Mirrors c) (hn : 4 * c.ahead.length + 3 ≤ n) :
    FollowsM (usingEntry n) (do
      match ← Read.usingDirective.run with
      | .ok u => return ([u], [])
      | .error e =>
        modify fun c => (c.report e).skipStatement
        return ([], [])) w c := by
  rw [usingEntry]
  refine FollowsM.bind (follows_usingDirective h hn) fun v hon hv => ?_
  have hle := hon.length_le h hv
  generalize Read.usingDirective.run.run c = out at *
  obtain ⟨r, d⟩ := out
  cases r with
  | ok u => exact followsM_pure hv
  | error e =>
    rw [followsM_modify]
    obtain ⟨u, hrun, hon', hu⟩ := exists_statement n 0 _ _ (hv.report e)
      (by dsimp only [Cursor.report] at hle ⊢; omega)
    refine FollowsM.report e ?_
    exact FollowsM.after hrun hon' (followsM_pure hu)

/-- Holds of a number for which the readers of members do what the walks do. From the members of a file
to those of a namespace in it, a keyword and a name are passed. -/
structure MembersFollow (m : Nat) : Prop where
  members : ∀ n w c, w.Mirrors c → 4 * c.ahead.length + 3 ≤ m → 4 * c.ahead.length + 6 ≤ n →
    FollowsM (members n) (Read.membersWith m) w c
  fileMember : ∀ n w c, w.Mirrors c → 4 * c.ahead.length + 2 ≤ m → 4 * c.ahead.length + 4 ≤ n →
    Follows (fileMember n) (Read.memberWith m) w c
  space : ∀ n start w c, w.Mirrors c → 4 * c.ahead.length + 1 ≤ m → 4 * c.ahead.length + 3 ≤ n →
    Follows (space start n) (Read.namespaceWith start m) w c

theorem MembersFollow.spaceBody {m n : Nat} (hm : MembersFollow m) (h : w.Mirrors c)
    (hlen : 4 * c.ahead.length + 3 ≤ m) (hn : 4 * c.ahead.length + 7 ≤ n) (start : Nat)
    (name : String) (nameSpan : Span) (fileScoped : Bool) :
    Follows (Walk.spaceBody start name nameSpan fileScoped n)
      (Read.spaceBody start m name nameSpan fileScoped) w c := by
  obtain ⟨n, rfl⟩ : ∃ k, n = k + 1 := ⟨n - 1, by omega⟩
  rw [Walk.spaceBody, Read.spaceBody, follows_get]
  refine Follows.get ?_
  rw [h.prevEnd]
  refine Follows.lift (hm.members n w c h hlen (by omega)) fun v _ hv => ?_
  generalize (Read.membersWith m).run c = out at hv ⊢
  obtain ⟨⟨usings, members⟩, d⟩ := out
  dsimp only at hv ⊢
  cases fileScoped with
  | true =>
    rw [if_pos rfl, if_pos rfl]
    rw [follows_spanFrom]
    exact Follows.spanFrom hv (follows_pure hv)
  | false =>
    rw [if_neg (by simp), if_neg (by simp)]
    refine (follows_closeBody hv).bind fun _ d u _ _ hu => ?_
    rw [follows_spanFrom]
    exact Follows.spanFrom hu (follows_pure hu)

theorem MembersFollow.space_succ {m n start : Nat} (hm : MembersFollow m) (h : w.Mirrors c)
    (hlen : 4 * c.ahead.length + 1 ≤ m + 1) (hn : 4 * c.ahead.length + 3 ≤ n) :
    Follows (Walk.space start n) (Read.namespaceWith start (m + 1)) w c := by
  obtain ⟨n, rfl⟩ : ∃ k, n = k + 1 := ⟨n - 1, by omega⟩
  rw [Walk.space, Read.namespaceWith_succ]
  refine (follows_expect h .kwNamespace .namespaceWord).bind fun _ d v hrun _ hv => ?_
  obtain ⟨hword, rfl⟩ := eq_of_expect hrun
  have hbump := length_bump h.ready (by simp [hword])
  refine (follows_expect hv .ident .namespaceName).bind fun first d u hrun' _ hu => ?_
  obtain ⟨hident, rfl⟩ := eq_of_expect hrun'
  have hbump' := length_bump hv.ready (by simp [hident])
  rw [follows_get]
  refine (follows_dottedTail _ n _ _ u _ hu (Nat.le_refl _) (by omega)).bind ?_
  rintro ⟨name, nameSpan⟩ d x - hon hx
  have hle := hon.length_le hu hx
  rw [follows_eat]
  refine Follows.eat hx fun y hon' hy => ?_
  have hle' := hon'.length_le hx hy
  by_cases hsemi : d.kind = .semi
  · simp only [hsemi, decide_true, if_true]
    exact hm.spaceBody hy (by omega) (by omega) _ _ _ _
  · simp only [hsemi, decide_false]
    refine (follows_expect hy .lbrace .openingBrace).bind fun _ e z _ hon'' hz => ?_
    have hle'' := hon''.length_le hy hz
    exact hm.spaceBody hz (by omega) (by omega) _ _ _ _

theorem MembersFollow.fileMember_succ {m n : Nat} (hm : MembersFollow m) (h : w.Mirrors c)
    (hlen : 4 * c.ahead.length + 2 ≤ m + 1) (hn : 4 * c.ahead.length + 4 ≤ n) :
    Follows (Walk.fileMember n) (Read.memberWith (m + 1)) w c := by
  obtain ⟨n, rfl⟩ : ∃ k, n = k + 1 := ⟨n - 1, by omega⟩
  rw [Walk.fileMember, Read.memberWith, follows_get]
  refine Follows.current h ?_
  dsimp only
  refine follows_front h (by omega) fun attributes modifiers u e hu hle => ?_
  rw [follows_get]
  generalize (!attributes.isEmpty && modifiers.isEmpty && attributes.all (·.target.isSome)) = targets
  have htargets : Follows
      (if targets = true then pure none else fail .declaration : Walk (Option Member))
      (if targets = true then pure none else Read.fail .declaration) u e := by
    split
    · exact follows_pure hu
    · exact follows_fail hu .declaration
  -- Left as they are, so that the kind of the next token is what tells the cases.
  generalize (if targets = true then pure none else fail .declaration : Walk (Option Member)) = f
    at htargets ⊢
  generalize
    (if targets = true then pure none else Read.fail .declaration : Read (Option Member)) = g
    at htargets ⊢
  by_cases hat : Read.atTypeDecl e = true
  · have hspace : e.kind ≠ .kwNamespace := by
      intro hk
      simp [Read.atTypeDecl, Read.atRecord, Cursor.atWord, hk] at hat
    rw [if_pos hat]
    refine Follows.kind hu ?_
    rw [if_neg hspace]
    refine Follows.after (atTypeDecl_run hu) (Onward.refl u) ?_
    rw [if_pos hat]
    refine ((bodiesFollow m).typeDecl n _ attributes modifiers u e hu (by omega) (by omega)).bind
      fun decl e' x _ _ hx => ?_
    exact follows_pure hx
  · rw [if_neg hat]
    split
    · next hk =>
      refine Follows.kind hu ?_
      rw [if_pos hk]
      refine (hm.space n _ u e hu (by omega) (by omega)).bind fun decl e' x _ _ hx => ?_
      exact follows_pure hx
    · next hk =>
      refine Follows.kind hu ?_
      rw [if_neg (by simp [hk])]
      refine Follows.after (atTypeDecl_run hu) (Onward.refl u) ?_
      rw [if_neg hat, if_pos hk]
      refine (follows_enumeration hu (by omega)).bind fun _ e' x _ _ hx => ?_
      exact follows_pure hx
    · next hk =>
      rw [follows_set]
      refine Follows.kind hu ?_
      rw [if_neg (by simp [hk])]
      refine Follows.after (atTypeDecl_run hu) (Onward.refl u) ?_
      rw [if_neg hat, if_neg (by simp [hk]), if_pos hk]
      obtain ⟨x, hdelegate, honx, hx⟩ := exists_delegate (n := n) hu (by omega)
      exact Follows.after hdelegate honx (follows_pure hx)
    · next h1 h2 h3 =>
      refine Follows.kind hu ?_
      rw [if_neg h1]
      refine Follows.after (atTypeDecl_run hu) (Onward.refl u) ?_
      rw [if_neg hat, if_neg h2, if_neg h3]
      exact htargets

theorem MembersFollow.entry {m n : Nat} (hm : MembersFollow m) (h : w.Mirrors c)
    (hlen : 4 * c.ahead.length + 2 ≤ m) (hn : 4 * c.ahead.length + 5 ≤ n) :
    FollowsM (Walk.entry n) (entryOf m) w c := by
  obtain ⟨n, rfl⟩ : ∃ k, n = k + 1 := ⟨n - 1, by omega⟩
  rw [Walk.entry, entryOf, followsM_get]
  refine FollowsM.after (kind_run h) (Onward.refl w) ?_
  refine FollowsM.get ?_
  rw [h.peek]
  dsimp only
  split
  · obtain ⟨v, hbump, hon, hv⟩ := exists_bump h
    rw [followsM_set]
    exact FollowsM.after hbump hon (followsM_pure hv)
  · split
    · next husing =>
      rw [if_pos (.inl husing)]
      exact follows_usingEntry h (by omega)
    · next husing =>
      refine FollowsM.after (atWord_run h "global") (Onward.refl w) ?_
      split
      · next hglobal =>
        rw [if_pos (.inr hglobal)]
        exact follows_usingEntry h (by omega)
      · next hglobal =>
        have hother : ¬(c.kind = .kwUsing ∨ (c.atWord "global" = true ∧ c.peek 1 = .kwUsing)) := by
          rintro (hk | hk)
          · exact husing hk
          · exact hglobal hk
        rw [if_neg hother]
        refine FollowsM.after (current_run h) (Onward.refl w) ?_
        split
        · next hextern =>
          rw [followsM_set]
          obtain ⟨v, hrun, hon, hv⟩ := exists_statement n 0 w c h (by omega)
          exact FollowsM.after hrun hon (followsM_pure hv)
        · next hextern =>
          refine FollowsM.bind (hm.fileMember n w c h hlen (by omega)) fun v hon hv => ?_
          have hle := hon.length_le h hv
          generalize (Read.memberWith m).run.run c = out at *
          obtain ⟨r, d⟩ := out
          cases r with
          | ok found => exact followsM_pure hv
          | error e =>
            rw [followsM_modify]
            obtain ⟨u, hrecover, hon', hu⟩ := exists_recover (n := n) hv
              (by dsimp only at hle ⊢; omega) e
            exact FollowsM.after hrecover hon' (followsM_pure hu)

theorem MembersFollow.members_succ {m n : Nat} (hm : MembersFollow m) (h : w.Mirrors c)
    (hlen : 4 * c.ahead.length + 3 ≤ m + 1) (hn : 4 * c.ahead.length + 6 ≤ n) :
    FollowsM (Walk.members n) (Read.membersWith (m + 1)) w c := by
  obtain ⟨n, rfl⟩ : ∃ k, n = k + 1 := ⟨n - 1, by omega⟩
  rw [Walk.members, membersWith_succ, followsM_get]
  refine FollowsM.get ?_
  dsimp only
  refine FollowsM.after (kind_run h) (Onward.refl w) ?_
  split
  · exact followsM_pure h
  · next hk =>
    rw [not_or] at hk
    have hlt := satM_entryOf_lt m h.ready hk.1 hk.2
    unfold Read.SatM at hlt
    refine FollowsM.bind (hm.entry h (by omega) (by omega)) fun v hon hv => ?_
    refine FollowsM.after (insist_run (hon.pos_lt h hv hlt)) (Onward.refl v) ?_
    refine FollowsM.bind (hm.members n v _ hv (by omega) (by omega)) fun u _ hu => ?_
    exact followsM_pure hu

theorem membersFollow (m : Nat) : MembersFollow m := by
  induction m with
  | zero => refine ⟨?_, ?_, ?_⟩ <;> intros <;> omega
  | succ m ih =>
    exact ⟨fun _ _ _ => ih.members_succ, fun _ _ _ => ih.fileMember_succ,
      fun _ _ _ _ => ih.space_succ⟩

/-- Members end at the end of the text or before a closing brace. -/
theorem satM_membersWith_kind (m : Nat) : ∀ (w : Walker) (c : Cursor), w.Mirrors c →
    4 * c.ahead.length + 3 ≤ m →
      Read.SatM (Read.membersWith m) c fun _ d => d.kind = .eof ∨ d.kind = .rbrace := by
  induction m with
  | zero => intro _ _ _ hlen; omega
  | succ m ih =>
    intro w c h hlen
    rw [membersWith_succ]
    refine Read.satM_bind.2 (Read.satM_get.2 ?_)
    split
    · next hk => exact Read.satM_pure.2 hk
    · next hk =>
      rw [not_or] at hk
      have hlt := satM_entryOf_lt m h.ready hk.1 hk.2
      unfold Read.SatM at hlt
      obtain ⟨v, -, -, hv⟩ := (membersFollow m).entry (n := 4 * c.ahead.length + 5) h (by omega)
        (Nat.le_refl _)
      have hrest : Read.SatM (entryOf m) c fun _ d => Read.SatM (Read.membersWith m) d fun _ e =>
          e.kind = .eof ∨ e.kind = .rbrace := ih v _ hv (by omega)
      refine Read.satM_bind.2 (Read.SatM.mono hrest ?_)
      rintro ⟨us, ms⟩ d hd
      exact Read.satM_bind.2 hd

/-! ## Whole files -/

/-- Behind a brace that closes nothing, fewer tokens are left. -/
theorem length_strayBrace (hc : c.Ready) (hk : c.kind = .rbrace) (e : ParseError) :
    c.ahead.length = (c.report e).bump.ahead.length + 1 :=
  length_bump ((moved_report c e).ready hc) (show c.kind ≠ .eof by simp [hk])

theorem followsM_file (fuel m : Nat) : ∀ (n : Nat) (w : Walker) (c : Cursor), w.Mirrors c →
    c.ahead.length < m → 4 * c.ahead.length + 3 ≤ fuel → 4 * c.ahead.length + 7 ≤ n →
      FollowsM (file n) (Read.fileMembers fuel m) w c := by
  induction m with
  | zero => intro _ _ _ _ hm; omega
  | succ m ih =>
    intro n w c h hm hfuel hn
    obtain ⟨n, rfl⟩ : ∃ k, n = k + 1 := ⟨n - 1, by omega⟩
    rw [file, Read.fileMembers]
    refine FollowsM.bind ((membersFollow fuel).members n w c h hfuel (by omega)) fun v hon hv => ?_
    have hle := hon.length_le h hv
    generalize (Read.membersWith fuel).run c = out at *
    obtain ⟨⟨us, ms⟩, d⟩ := out
    dsimp only at hv hle ⊢
    rw [followsM_get]
    refine FollowsM.after (kind_run hv) (Onward.refl v) ?_
    split
    · next hk =>
      have hlen := length_strayBrace hv.ready hk (d.unexpected .declaration)
      obtain ⟨u, hbump, hon', hu⟩ := exists_bump (hv.report (d.unexpected .declaration))
      rw [followsM_set]
      refine FollowsM.after (unexpected_run hv .declaration) (Onward.refl v) ?_
      refine FollowsM.report _ (FollowsM.after hbump hon' ?_)
      refine FollowsM.bind (ih n u _ hu (by omega) (by omega) (by omega)) fun x _ hx => ?_
      exact followsM_pure hx
    · exact followsM_pure hv

theorem satM_fileMembers_kind (fuel m : Nat) : ∀ (w : Walker) (c : Cursor), w.Mirrors c →
    c.ahead.length < m → 4 * c.ahead.length + 3 ≤ fuel →
      Read.SatM (Read.fileMembers fuel m) c fun _ d => d.kind = .eof := by
  induction m with
  | zero => intro _ _ _ hm; omega
  | succ m ih =>
    intro w c h hm hfuel
    obtain ⟨v, -, hon, hv⟩ := (membersFollow fuel).members (4 * c.ahead.length + 6) w c h hfuel
      (Nat.le_refl _)
    have hle := hon.length_le h hv
    have hrest : Read.SatM (Read.membersWith fuel) c fun _ d =>
        (d.kind = .eof ∨ d.kind = .rbrace) ∧ v.Mirrors d ∧ d.ahead.length ≤ c.ahead.length :=
      ⟨satM_membersWith_kind fuel w c h hfuel, hv, hle⟩
    rw [Read.fileMembers]
    refine Read.satM_bind.2 (Read.SatM.mono hrest ?_)
    rintro ⟨us, ms⟩ d ⟨hstop, hd, hlen⟩
    refine Read.satM_bind.2 (Read.satM_get.2 ?_)
    dsimp only
    split
    · next hk =>
      have hstray := length_strayBrace hd.ready hk (d.unexpected .declaration)
      obtain ⟨u, -, -, hu⟩ := exists_bump (hd.report (d.unexpected .declaration))
      refine Read.satM_bind.2 (Read.satM_set.2 (Read.satM_bind.2 (Read.SatM.mono
        (ih u _ hu (by omega) (by omega)) ?_)))
      rintro ⟨us', ms'⟩ e he
      exact Read.satM_pure.2 he
    · next hk => exact Read.satM_pure.2 (hstop.resolve_right hk)

end Walk

namespace Walker

variable {v w : Walker} {c : Cursor}

/-- Walkers over the same tokens that mirror one cursor stand at the same place. -/
theorem Mirrors.eq (hv : v.Mirrors c) (hw : w.Mirrors c) (htokens : v.tokens = w.tokens)
    (hsinks : v.sinks = w.sinks) : v = w := by
  have hsource := hv.source.trans hw.source.symm
  have herrors := hv.errors.trans hw.errors.symm
  have hpos : v.pos = w.pos := by
    have h1 := hv.length
    have h2 := hw.length
    rw [htokens] at h1
    omega
  cases v
  cases w
  simp_all

/-- Before the first token, walker and cursor stand at the same place. -/
theorem mirrors_ofSource (source : String) : (ofSource source).Mirrors (Cursor.ofSource source) where
  source := rfl
  tokens := by
    obtain ⟨ts, t, hread⟩ : ∃ ts t, Token.read source = ts ++ [t] :=
      ⟨_, _, Token.readFrom_eq 0 source.toList⟩
    show (Token.read source).drop 0 =
      (Token.read source).dropLast ++ [(Token.read source).getLast?.getD default]
    simp [hread]
  prevEnd := rfl
  errors := by
    obtain ⟨ts, t, hread, ht⟩ : ∃ ts t, Token.read source = ts ++ [t] ∧ t.kind = .eof :=
      ⟨_, _, Token.readFrom_eq 0 source.toList, rfl⟩
    show List.reverse (List.filterMap _ (Token.read source)) =
      List.reverse (List.filterMap _ (Token.read source).dropLast)
    simp [hread, ht]
  idents := by
    intro sink hsink
    simp [ofSource] at hsink
  ready := Cursor.ready_ofSource source

end Walker

/-- The walk through a text has an outcome at every limit from one on that is linear in the number of
tokens: it ends, and on its way it neither leaves the vector of tokens nor lowers a depth below zero.
The outcome is what is read, and the walker ends on the token that marks the end. -/
theorem Walk.file_ends_at_eof (file : FileId) (source : String) :
    ∃ w : Walker, (∀ n, (Walk.file (4 * (Token.read source).length + 3 + n)).run (.ofSource source) =
        some (((SyntaxTree.read file source).tree.usings, (SyntaxTree.read file source).tree.members),
          w)) ∧
      w.tokens = Token.read source ∧ w.pos + 1 = w.tokens.length ∧
      (∃ t, w.tokens[w.pos]? = some t ∧ t.kind = .eof) ∧
      w.errors.reverse = (SyntaxTree.read file source).errors := by
  have h := Walker.mirrors_ofSource source
  have hlength := h.length
  have hsize : (Walker.ofSource source).pos = 0 := rfl
  have htokens : (Walker.ofSource source).tokens = Token.read source := rfl
  rw [htokens, hsize] at hlength
  let size := (Cursor.ofSource source).ahead.length
  have hfollows := fun n => Walk.followsM_file (Read.declarationFuel size) (size + 1)
    (4 * (Token.read source).length + 3 + n) _ _ h (Nat.lt_succ_self _)
    (by simp only [Read.declarationFuel, size]; omega) (by omega)
  have heof := Walk.satM_fileMembers_kind (Read.declarationFuel size) (size + 1) _ _ h
    (Nat.lt_succ_self _) (by simp only [Read.declarationFuel, size]; omega)
  obtain ⟨w, -, hon, hw⟩ := hfollows 0
  have hahead := hw.ready.ahead_eq_nil heof
  refine ⟨w, fun n => ?_, hon.tokens, ?_, ⟨_, hw.current, heof⟩, congrArg List.reverse hw.errors⟩
  · obtain ⟨v, hrun, hon', hv⟩ := hfollows n
    have hnil : ∀ u : Walker, (Walker.ofSource source).Onward u → u.sinks = [] :=
      fun u hu => List.length_eq_zero_iff.1 hu.depth
    have heq : v = w := hv.eq hw (hon'.tokens.trans hon.tokens.symm)
      ((hnil v hon').trans (hnil w hon).symm)
    rw [heq] at hrun
    exact hrun
  · have hend := hw.length
    rw [hahead] at hend
    exact hend

end SelfTypeLint
