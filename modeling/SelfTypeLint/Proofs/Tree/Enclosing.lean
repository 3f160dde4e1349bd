import SelfTypeLint.Proofs.Tree.Innermost

/-!
# The namespaces around a declaration

In a tree that is laid out as a text is, the namespaces found around the span of a declaration are the
ones that it stands in.
-/

namespace SelfTypeLint

open Outline

/-- Holds of the namespaces that a declaration of some members stands in, outermost first. -/
inductive Within (d : TypeDecl) : List Member → List NamespaceDecl → Prop
  | type {ms : List Member} {e : TypeDecl} (he : .type e ∈ ms) (hd : d ∈ e.withNested) :
    Within d ms []
  | space {ms : List Member} {n : NamespaceDecl} {ns : List NamespaceDecl} (hn : .space n ∈ ms)
    (h : Within d n.members ns) : Within d ms (n :: ns)

/-- Each declaration of some members stands in some namespaces. -/
theorem exists_within {ms : List Member} {m : Member} (hm : m ∈ ms) {d : TypeDecl}
    (hd : d ∈ m.typeDecls) : ∃ ns, Within d ms ns := by
  match m with
  | .type e =>
    rw [Member.typeDecls_type] at hd
    exact ⟨[], .type hm hd⟩
  | .space n =>
    rw [Member.typeDecls_space] at hd
    obtain ⟨m, hmem, hdm⟩ := List.mem_flatMap.1 hd
    have hlt : sizeOf m < 1 + sizeOf n :=
      Nat.lt_trans (List.sizeOf_lt_of_mem hmem) (Nat.lt_add_left 1 n.sizeOf_members_lt)
    obtain ⟨ns, hns⟩ := exists_within hmem hdm
    exact ⟨n :: ns, .space hm hns⟩
  termination_by sizeOf m
  decreasing_by simpa using hlt

theorem Within.exists_member {d : TypeDecl} {ms : List Member} {ns : List NamespaceDecl}
    (h : Within d ms ns) : ∃ m ∈ ms, d ∈ m.typeDecls := by
  induction h with
  | @type _ e he hd => exact ⟨_, he, by rwa [Member.typeDecls_type]⟩
  | @space _ n _ hn _ ih =>
    refine ⟨_, hn, ?_⟩
    rw [Member.typeDecls_space]
    exact List.mem_flatMap.2 ih

/-- A declaration of some members stands in no namespace, in the first member or in those after it. -/
theorem Within.cons_cases {d : TypeDecl} {m : Member} {ms : List Member} {ns : List NamespaceDecl}
    (h : Within d (m :: ms) ns) : ns = [] ∨
      (∃ n ns', m = .space n ∧ ns = n :: ns' ∧ Within d n.members ns') ∨ Within d ms ns := by
  cases h with
  | type => exact .inl rfl
  | space hn h =>
    rcases List.mem_cons.1 hn with rfl | hn
    · exact .inr (.inl ⟨_, _, rfl, rfl, h⟩)
    · exact .inr (.inr (.space hn h))

namespace Member

variable {span : Span} {ms : List Member}

/-- Where no namespace contains a span, none is found. -/
theorem namespacesAround_eq_nil (h : ∀ n, .space n ∈ ms → n.span.contains span = false) :
    namespacesAround span ms = [] := by
  induction ms with
  | nil => rw [namespacesAround]
  | cons m ms ih =>
    have hrest := ih fun n hn => h n (List.mem_cons_of_mem m hn)
    cases m with
    | type d => rw [namespacesAround, hrest]
    | space n =>
      have hn : n.span.contains span = false := h n List.mem_cons_self
      rw [namespacesAround, hn, hrest]
      rfl

/-- The only namespace that contains a span is found. -/
theorem namespacesAround_eq_cons {n : NamespaceDecl} (hn : .space n ∈ ms)
    (hspan : n.span.contains span = true)
    (honly : ∀ n', .space n' ∈ ms → n'.span.contains span = true → n' = n) :
    namespacesAround span ms = n :: namespacesAround span n.members := by
  induction ms with
  | nil => exact absurd hn List.not_mem_nil
  | cons m ms ih =>
    have hrest : ∀ n', .space n' ∈ ms → n'.span.contains span = true → n' = n :=
      fun n' hn' => honly n' (List.mem_cons_of_mem m hn')
    cases m with
    | type d =>
      rw [namespacesAround]
      exact ih (by simpa using hn) hrest
    | space n' =>
      rw [namespacesAround]
      split
      · next hc =>
        obtain rfl := honly n' List.mem_cons_self hc
        rfl
      · next hc =>
        rcases List.mem_cons.1 hn with heq | hn
        · obtain rfl := Member.space.inj heq
          exact absurd hspan hc
        · exact ih hn hrest

end Member

/-- Among members that stand beside each other, the namespaces found around a declaration are those
that it stands in. -/
theorem Within.namespacesAround_eq {d : TypeDecl} {ms : List Member} {ns : List NamespaceDecl}
    (h : Within d ms ns) (hbeside : ms.Pairwise fun m n => Beside m.outline n.outline)
    (hsolid : ∀ m ∈ ms, m.outline.Solid) : Member.namespacesAround d.span ms = ns := by
  -- The member with the declaration is the only one that contains its span.
  have honly : ∀ m ∈ ms, d ∈ m.typeDecls → ∀ m' ∈ ms, m'.outline.span.contains d.span = true →
      m' = m := by
    intro m hm hdm m' hm' hspan
    obtain ⟨hdsolid, hcontains⟩ := Member.solid_typeDecls (hsolid m hm) hdm
    exact eq_of_contains hbeside hm' hm hdsolid.span_lt hspan hcontains
  have hspace : ∀ n : NamespaceDecl, (Member.space n).outline.span = n.span := fun n => by
    rw [Member.outline_space]
    rfl
  cases h with
  | @type _ e he hd =>
    refine Member.namespacesAround_eq_nil fun n hn => ?_
    by_contra hspan
    have hsame := honly _ he (by rwa [Member.typeDecls_type]) _ hn
      (by rw [hspace]; simpa using hspan)
    exact absurd hsame (by simp)
  | @space _ n ns hn h =>
    have hdn : d ∈ (Member.space n).typeDecls := by
      rw [Member.typeDecls_space]
      exact List.mem_flatMap.2 h.exists_member
    have hnsolid := hsolid _ hn
    have hcontains := (Member.solid_typeDecls hnsolid hdn).2
    rw [hspace] at hcontains
    rw [Member.outline_space] at hnsolid
    rw [Member.namespacesAround_eq_cons hn hcontains fun n' hn' hspan =>
      Member.space.inj (honly _ hn hdn _ hn' (by rwa [hspace]))]
    rw [Within.namespacesAround_eq h (members_beside hnsolid.nested.2.2.2) fun m hm =>
      hnsolid.part (List.mem_cons_of_mem _ (outline_mem_mix _ hm))]
  termination_by ns

/-- The namespaces found around a declaration of a tree are those that it stands in. -/
theorem SyntaxTree.enclosingNamespaces_eq {t : SyntaxTree} (hrow : InRow t.outlines)
    (hspans : ∀ s ∈ t.spans, s.start < s.stop) {d : TypeDecl} {ns : List NamespaceDecl}
    (h : Within d t.members ns) : t.enclosingNamespaces d.span = ns := by
  obtain ⟨hbeside, hsolid⟩ := solid_members hrow hspans
  exact h.namespacesAround_eq hbeside hsolid

end SelfTypeLint
