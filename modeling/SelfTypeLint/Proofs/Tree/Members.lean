import SelfTypeLint.Proofs.Tree.Innermost

/-!
# Members of members

Types and namespaces hold members of their own. In a tree that is laid out as a text is, of two members
that share a place in the text one stands in the other, so what a member holds is told by the places.
-/

namespace SelfTypeLint

open Outline

namespace Member

/-- The whole member. -/
def span : Member → Span
  | .type d => d.span
  | .space n => n.span

theorem span_outline (m : Member) : m.outline.span = m.span := by
  cases m with
  | type d => rw [outline, d.span_outline, span]
  | space n => rw [outline_space]; rfl

/-- The members right in another: the nested types of a type, or the members of a namespace. -/
def inner : Member → List Member
  | .type d => d.nested.map .type
  | .space n => n.members

theorem sizeOf_lt_of_mem_inner {m n : Member} (h : n ∈ m.inner) : sizeOf n < sizeOf m := by
  cases m with
  | type d =>
    obtain ⟨e, he, rfl⟩ := List.mem_map.1 h
    have := TypeDecl.sizeOf_lt_of_mem_nested he
    simp only [type.sizeOf_spec]
    omega
  | space s =>
    have hlt := List.sizeOf_lt_of_mem (show n ∈ s.members from h)
    have := s.sizeOf_members_lt
    simp only [space.sizeOf_spec]
    omega

/-- A member and all that stand in it, outer ones first. -/
def withInner (m : Member) : List Member :=
  m :: m.inner.attach.flatMap fun ⟨n, h⟩ =>
    have := sizeOf_lt_of_mem_inner h
    n.withInner
  termination_by sizeOf m

theorem withInner_eq (m : Member) : m.withInner = m :: m.inner.flatMap withInner := by
  rw [withInner]
  simp

theorem mem_withInner_self (m : Member) : m ∈ m.withInner := by
  rw [withInner_eq]
  exact List.mem_cons_self

theorem mem_withInner_of_inner {a m n : Member} (hn : n ∈ m.inner) (ha : a ∈ n.withInner) :
    a ∈ m.withInner := by
  rw [withInner_eq]
  exact List.mem_cons_of_mem m (List.mem_flatMap.2 ⟨n, hn, ha⟩)

/-- The type declarations of a member stand in it. -/
theorem type_mem_withInner {m : Member} {d : TypeDecl} (hd : d ∈ m.typeDecls) :
    .type d ∈ m.withInner := by
  match m with
  | .type e =>
    rw [typeDecls_type, TypeDecl.withNested_eq] at hd
    rcases List.mem_cons.1 hd with rfl | hd
    · exact mem_withInner_self _
    · obtain ⟨f, hf, hdf⟩ := List.mem_flatMap.1 hd
      have hinner : .type f ∈ (Member.type e).inner := List.mem_map_of_mem hf
      have hlt := sizeOf_lt_of_mem_inner hinner
      exact mem_withInner_of_inner hinner (type_mem_withInner (by rwa [typeDecls_type]))
  | .space n =>
    rw [typeDecls_space] at hd
    obtain ⟨m, hm, hdm⟩ := List.mem_flatMap.1 hd
    have hinner : m ∈ (Member.space n).inner := hm
    have hlt := sizeOf_lt_of_mem_inner hinner
    exact mem_withInner_of_inner hinner (type_mem_withInner hdm)
  termination_by sizeOf m
  decreasing_by all_goals exact hlt

/-! ## Members laid out as the text is -/

section

variable {m : Member} (h : m.outline.Solid)

include h

theorem solid_inner {n : Member} (hn : n ∈ m.inner) :
    n.outline.Solid ∧ m.span.contains n.span = true := by
  rw [← span_outline n]
  cases m with
  | type d =>
    obtain ⟨e, he, rfl⟩ := List.mem_map.1 hn
    rw [outline, d.outline_eq] at h
    have hpart : (Member.type e).outline ∈ d.parts := by
      rw [outline]
      exact TypeDecl.outline_mem_parts he
    exact ⟨h.part hpart, h.contains_part hpart⟩
  | space s =>
    rw [outline_space] at h
    have hpart := List.mem_cons_of_mem (leaf s.nameSpan)
      (outline_mem_mix (s.usings.map UsingDirective.outline) (show n ∈ s.members from hn))
    exact ⟨h.part hpart, h.contains_part hpart⟩

theorem inner_beside : m.inner.Pairwise fun a b => Beside a.outline b.outline := by
  cases m with
  | type d =>
    rw [outline, d.outline_eq] at h
    refine List.pairwise_map.2 ((TypeDecl.nested_beside h).imp fun hbeside => ?_)
    rw [outline, outline]
    exact hbeside
  | space s =>
    rw [outline_space] at h
    exact members_beside h.nested.2.2.2

end

/-- What stands in a member lies in it, and is laid out as the text is. -/
theorem solid_withInner {m a : Member} (h : m.outline.Solid) (ha : a ∈ m.withInner) :
    a.outline.Solid ∧ m.span.contains a.span = true := by
  rw [withInner_eq] at ha
  rcases List.mem_cons.1 ha with rfl | ha
  · exact ⟨h, a.span.contains_self⟩
  · obtain ⟨n, hn, han⟩ := List.mem_flatMap.1 ha
    obtain ⟨hsolid, hcontains⟩ := solid_inner h hn
    have := sizeOf_lt_of_mem_inner hn
    obtain ⟨ha, hna⟩ := solid_withInner hsolid han
    exact ⟨ha, Span.contains_trans hcontains hna⟩
  termination_by sizeOf m

/-- Two members that stand in members beside each other, and share a place, stand in the same one. -/
theorem exists_common {ms : List Member} (hbeside : ms.Pairwise fun a b => Beside a.outline b.outline)
    (hsolid : ∀ m ∈ ms, m.outline.Solid) {a b : Member} (ha : a ∈ ms.flatMap withInner)
    (hb : b ∈ ms.flatMap withInner) {s : Span} (hs : s.start < s.stop)
    (has : a.span.contains s = true) (hbs : b.span.contains s = true) :
    ∃ m ∈ ms, a ∈ m.withInner ∧ b ∈ m.withInner := by
  obtain ⟨m, hm, ham⟩ := List.mem_flatMap.1 ha
  obtain ⟨n, hn, hbn⟩ := List.mem_flatMap.1 hb
  have hms := Span.contains_trans (solid_withInner (hsolid m hm) ham).2 has
  have hns := Span.contains_trans (solid_withInner (hsolid n hn) hbn).2 hbs
  rw [← span_outline] at hms hns
  obtain rfl := eq_of_contains hbeside hm hn hs hms hns
  exact ⟨m, hm, ham, hbn⟩

/-- Of two members that share a place one stands in the other. -/
theorem mem_withInner_of_common {m a b : Member} (h : m.outline.Solid) (ha : a ∈ m.withInner)
    (hb : b ∈ m.withInner) {s : Span} (hs : s.start < s.stop) (has : a.span.contains s = true)
    (hbs : b.span.contains s = true) : a ∈ b.withInner ∨ b ∈ a.withInner := by
  have ha' := ha
  have hb' := hb
  rw [withInner_eq] at ha' hb'
  rcases List.mem_cons.1 ha' with rfl | ha'
  · exact .inr hb
  rcases List.mem_cons.1 hb' with rfl | hb'
  · exact .inl ha
  obtain ⟨n, hn, han, hbn⟩ := exists_common (inner_beside h) (fun n hn => (solid_inner h hn).1) ha' hb'
    hs has hbs
  have := sizeOf_lt_of_mem_inner hn
  exact mem_withInner_of_common (solid_inner h hn).1 han hbn hs has hbs
  termination_by sizeOf m

end Member

namespace SyntaxTree

/-- All members of a tree, outer ones first. -/
def allMembers (t : SyntaxTree) : List Member := t.members.flatMap Member.withInner

theorem type_mem_allMembers {t : SyntaxTree} {d : TypeDecl} (hd : d ∈ t.typeDecls) :
    .type d ∈ t.allMembers := by
  obtain ⟨m, hm, hdm⟩ := List.mem_flatMap.1 hd
  exact List.mem_flatMap.2 ⟨m, hm, Member.type_mem_withInner hdm⟩

section

variable {t : SyntaxTree} (hrow : InRow t.outlines) (hspans : ∀ s ∈ t.spans, s.start < s.stop)
  {a b : Member} (ha : a ∈ t.allMembers)

include hrow hspans ha

theorem contains_of_mem_withInner (hb : b ∈ a.withInner) : a.span.contains b.span = true := by
  obtain ⟨m, hm, ham⟩ := List.mem_flatMap.1 ha
  have hsolid := (solid_members hrow hspans).2 m hm
  exact (Member.solid_withInner (Member.solid_withInner hsolid ham).1 hb).2

/-- Of two members of a tree that share a place one stands in the other. -/
theorem mem_withInner_of_common (hb : b ∈ t.allMembers) {s : Span} (hs : s.start < s.stop)
    (has : a.span.contains s = true) (hbs : b.span.contains s = true) :
    a ∈ b.withInner ∨ b ∈ a.withInner := by
  obtain ⟨hbeside, hsolid⟩ := solid_members hrow hspans
  obtain ⟨m, hm, ham, hbm⟩ := Member.exists_common hbeside hsolid ha hb hs has hbs
  exact Member.mem_withInner_of_common (hsolid m hm) ham hbm hs has hbs

/-- A member that lies in the span of another, and does not fill it, stands in the other. -/
theorem mem_inner_of_contains (hb : b ∈ t.allMembers) (hsome : a.span.start < a.span.stop)
    (hin : b.span.contains a.span = true) (hnot : ¬ a.span.contains b.span = true) :
    a ∈ b.inner.flatMap Member.withInner := by
  rcases mem_withInner_of_common hrow hspans ha hb hsome a.span.contains_self hin with hab | hba
  · rw [Member.withInner_eq] at hab
    rcases List.mem_cons.1 hab with rfl | hab
    · exact absurd a.span.contains_self hnot
    · exact hab
  · exact absurd (contains_of_mem_withInner hrow hspans ha hba) hnot

end

end SyntaxTree

end SelfTypeLint
