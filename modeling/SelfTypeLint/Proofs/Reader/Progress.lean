import SelfTypeLint.Proofs.Reader.FilesSound

/-!
# Members consume tokens

What begins a member is no semicolon and no closing brace, so a member that is read consumes a token, and
so does the skipping after a member that is given up: a loop over members gets on.
-/

namespace SelfTypeLint

open Token Cursor Grammar

namespace Cursor

variable {c d : Cursor} {ts : List Token} {is : List Ident} {es : List ParseError}

theorem Moved.length_lt (h : c.Moved ts is es d) (hne : ts ≠ []) :
    d.ahead.length < c.ahead.length := by
  have hlen := h.length_le
  have hpos := List.length_pos_iff.2 hne
  omega

/-- What consumes a token where nothing was consumed before leaves fewer tokens in any case. -/
theorem Moved.length_lt_of_stuck {f : Cursor} {us : List Token} {js : List Ident}
    {fs : List ParseError} (h : c.Moved ts is es d) (h' : d.Moved us js fs f)
    (hne : d.ahead = c.ahead → us ≠ []) : f.ahead.length < c.ahead.length := by
  refine (h.trans h').length_lt ?_
  intro hnil
  obtain ⟨rfl, hnil⟩ := List.append_eq_nil_iff.1 hnil
  exact hne h.ahead.symm hnil

/-- Where a member can begin, skipping one consumes a token, also from further on. -/
theorem length_skipMember_lt (h : c.Moved ts is es d) (hc : MemberAt c.ahead) :
    d.skipMember.ahead.length < c.ahead.length := by
  obtain ⟨us, hus, hform⟩ := Read.took_skipMember d
  refine h.length_lt_of_stuck hus fun hstuck => hform.ne_nil ?_
  rwa [← hus.ahead, hstuck]

/-- Where a member can begin, skipping a statement consumes a token, also from further on. -/
theorem length_skipStatement_lt (h : c.Moved ts is es d) (hc : MemberAt c.ahead) :
    d.skipStatement.ahead.length < c.ahead.length := by
  obtain ⟨us, hus, hform⟩ := Read.took_skipStatement d
  refine h.length_lt_of_stuck hus fun hstuck => hform.ne_nil ?_
  rwa [← hus.ahead, hstuck]

end Cursor

namespace Read

variable {c : Cursor}

theorem Sat.and {α : Type} {f : Read α} {Q Q' : α → Cursor → Prop} {E E' : Cursor → Prop}
    (h : Sat f c Q E) (h' : Sat f c Q' E') :
    Sat f c (fun a d => Q a d ∧ Q' a d) fun d => E d ∧ E' d := by
  unfold Sat at h h' ⊢
  split
  · next a d hr =>
    rw [hr] at h h'
    exact ⟨h, h'⟩
  · next e d hr =>
    rw [hr] at h h'
    exact ⟨h, h'⟩

/-- A type declaration that is read consumes a token. -/
theorem sat_typeDecl_lt {n start : Nat} {attributes : List AttributeList} {modifiers : List String}
    {d : Cursor} {ts : List Token} (hd : c.Took ts d) (hc : c.Ready) (ht : atTypeDecl d = true)
    (hstart : start = c.current.span.start) :
    Sat (typeDeclWith start attributes modifiers n) d
      (fun _ e => e.ahead.length < c.ahead.length) fun _ => True := by
  have hr := hd.ready hc
  have ht := (atTypeDecl_iff hr).1 ht
  have hstart := hstart ▸ hd.current_start_le hc (typeAt_ne_nil ht)
  refine Sat.mono ((readsDeclarations n).1 _ attributes modifiers d hr ht hstart) ?_ fun _ _ => trivial
  rintro r e ⟨us, es, hus, hloose, -⟩
  exact (Moved.trans hd hus).length_lt (by simp [hloose.ne_nil])

/-- An enumeration that is read consumes a token. -/
theorem sat_skipEnum_lt {d : Cursor} {ts : List Token} (hd : c.Took ts d) (hc : c.Ready)
    (hk : d.kind = .kwEnum) :
    Sat skipEnum d (fun _ e => e.ahead.length < c.ahead.length) fun _ => True := by
  refine Sat.mono (spells_skipEnum (hd.ready hc) hk) ?_ fun _ _ => trivial
  rintro _ e ⟨us, hus, henum⟩
  exact (hd.trans hus).length_lt (by cases henum; simp)

theorem length_skipDelegate_lt {d : Cursor} {ts : List Token} (hd : c.Took ts d) (hc : c.Ready)
    (hk : d.kind = .kwDelegate) : d.skipDelegate.ahead.length < c.ahead.length := by
  obtain ⟨us, hus, hform⟩ := moved_skipDelegate d
  rw [(hd.ready hc).kind_eq, hus.ahead] at hk
  have hne := hform.ne_nil ⟨by simp [hk], by simp [hk], by simp [hk]⟩
  exact (Moved.trans hd hus).length_lt (by simp [hne])

/-- A member of a body that is read consumes a token. -/
theorem sat_bodyMember_lt (n : Nat) (hc : c.Ready) (hm : MemberAt c.ahead) :
    Sat (bodyMemberWith n) c (fun _ d => d.ahead.length < c.ahead.length) fun _ => True := by
  cases n with
  | zero => exact trivial
  | succ n =>
    rw [bodyMemberWith]
    refine sat_bind.2 (sat_get.2 ?_)
    dsimp only
    refine (spells_attributeLists c hc).sat_bind (fun _ _ _ => trivial) ?_
    intro as attributes d has _
    refine (spells_modifiers d (has.ready hc)).sat_bind (fun _ _ _ => trivial) ?_
    intro ms modifiers e hms _
    have htook := has.trans hms
    refine sat_bind.2 (sat_get.2 ?_)
    split
    · next ht =>
      exact sat_bind.2 (Sat.mono (sat_typeDecl_lt htook hc ht rfl) (fun _ _ h => sat_pure.2 h)
        fun _ h => h)
    · split
      · next hk =>
        exact sat_bind.2 (Sat.mono (sat_skipEnum_lt htook hc hk) (fun _ _ h => sat_pure.2 h)
          fun _ h => h)
      · next hk =>
        exact sat_bind.2 (sat_set.2 (sat_pure.2 (length_skipDelegate_lt htook hc hk)))
      · exact sat_bind.2 (sat_set.2 (sat_pure.2 (length_skipMember_lt htook hm)))

/-- A namespace that is read consumes a token. -/
theorem sat_namespace_lt {n start : Nat} {d : Cursor} {ts : List Token} (hd : c.Took ts d)
    (hc : c.Ready) (hk : d.kind = .kwNamespace) (hstart : start = c.current.span.start) :
    Sat (namespaceWith start n) d (fun _ e => e.ahead.length < c.ahead.length) fun _ => True := by
  have hr := hd.ready hc
  obtain ⟨k, -, -, -, ha⟩ := hr.exists_cons hk (by simp)
  have hstart := hstart ▸ hd.current_start_le hc (by simp [ha])
  refine Sat.mono ((readsFiles d.source n).2.2 _ d hr rfl hstart) ?_ fun _ _ => trivial
  rintro r e ⟨us, is, es, hus, hloose, -⟩
  exact (Moved.trans hd hus).length_lt (by simp [hloose.ne_nil])

/-- A member of a file that is read consumes a token: where nothing else is there, attribute lists are
in front. -/
theorem sat_member_lt (n : Nat) (hc : c.Ready) :
    Sat (memberWith n) c (fun _ d => d.ahead.length < c.ahead.length) fun _ => True := by
  cases n with
  | zero => exact trivial
  | succ n =>
    rw [memberWith]
    refine sat_bind.2 (sat_get.2 ?_)
    dsimp only
    refine (spells_attributeLists c hc).sat_bind (fun _ _ _ => trivial) ?_
    intro as attributes d has hattributes
    refine (spells_modifiers d (has.ready hc)).sat_bind (fun _ _ _ => trivial) ?_
    intro ms modifiers e hms _
    have htook := has.trans hms
    refine sat_bind.2 (sat_get.2 ?_)
    split
    · next ht =>
      exact sat_bind.2 (Sat.mono (sat_typeDecl_lt htook hc ht rfl) (fun _ _ h => sat_pure.2 h)
        fun _ h => h)
    · split
      · next hk =>
        exact sat_bind.2 (Sat.mono (sat_namespace_lt htook hc hk rfl) (fun _ _ h => sat_pure.2 h)
          fun _ h => h)
      · next hk =>
        exact sat_bind.2 (Sat.mono (sat_skipEnum_lt htook hc hk) (fun _ _ h => sat_pure.2 h)
          fun _ h => h)
      · next hk =>
        exact sat_bind.2 (sat_set.2 (sat_pure.2 (length_skipDelegate_lt htook hc hk)))
      · split
        · next htargets =>
          simp only [Bool.and_eq_true, Bool.not_eq_true', List.isEmpty_eq_false_iff] at htargets
          refine sat_pure.2 (htook.length_lt ?_)
          intro hnil
          obtain ⟨rfl, -⟩ := List.append_eq_nil_iff.1 hnil
          cases hattributes
          exact htargets.1.1 rfl
        · exact trivial

/-- A using directive that is read consumes a token. -/
theorem sat_usingDirective_lt (hc : c.Ready) :
    Sat usingDirective c (fun _ d => d.ahead.length < c.ahead.length) fun _ => True := by
  refine Sat.mono (spells_usingDirective hc) ?_ fun _ _ => trivial
  rintro u d ⟨ts, hts, hform⟩
  exact hts.length_lt (by cases hform; simp)

end Read

end SelfTypeLint
