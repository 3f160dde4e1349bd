import Mathlib.Data.List.Pairwise
import SelfTypeLint.Proofs.Tree.Outline
import SelfTypeLint.Proofs.Tree.Query

/-!
# The innermost declaration

In a tree that is laid out as a text is, what stands in a base type of a declaration stands in this
declaration and in those around it, which are longer, and in no other. So the shortest declaration
around it is the one that has it in its base list.
-/

namespace SelfTypeLint

open Outline

namespace Outline

/-- Two parts of which one ends before the other begins. -/
def Beside (o p : Outline) : Prop := o.span.stop ≤ p.span.start ∨ p.span.stop ≤ o.span.start

theorem InRow.ordered {os : List Outline} (h : InRow os) :
    os.Pairwise fun o p => o.span.stop ≤ p.span.start := by
  induction os with
  | nil => exact .nil
  | cons o os ih => exact .cons h.2.1 (ih h.2.2)

theorem InRow.nested {os : List Outline} (h : InRow os) {o : Outline} (ho : o ∈ os) : Nested o := by
  induction os with
  | nil => exact absurd ho List.not_mem_nil
  | cons p os ih =>
    rcases List.mem_cons.1 ho with rfl | ho
    · exact h.1
    · exact ih h.2.2 ho

/-- Holds of a part that contains all parts in it, of which none is empty. -/
structure Solid (o : Outline) : Prop where
  nested : o.Nested
  nonempty : ∀ s ∈ o.spans, s.start < s.stop

variable {span : Span} {parts : List Outline}

theorem Solid.part (h : (node span parts).Solid) {o : Outline} (ho : o ∈ parts) : o.Solid where
  nested := h.nested.2.nested ho
  nonempty _ hs := h.nonempty _ (List.mem_cons_of_mem _ (spans_subset_spansAll ho hs))

theorem Solid.contains (h : (node span parts).Solid) {s : Span} (hs : s ∈ spansAll parts) :
    span.contains s = true := h.nested.1 s hs

theorem Solid.contains_part (h : (node span parts).Solid) {o : Outline} (ho : o ∈ parts) :
    span.contains o.span = true := h.contains (span_mem_spansAll ho)

theorem Solid.span_lt {o : Outline} (h : o.Solid) : o.span.start < o.span.stop :=
  h.nonempty _ o.span_mem_spans

end Outline

theorem Span.contains_self (s : Span) : s.contains s = true :=
  (contains_iff s s).2 ⟨Nat.le_refl _, Nat.le_refl _⟩

theorem Span.contains_trans {s t u : Span} (hst : s.contains t = true)
    (htu : t.contains u = true) : s.contains u = true := by
  rw [contains_iff] at *
  omega

theorem Span.size_le_of_contains {s t : Span} (h : s.contains t = true) : t.size ≤ s.size := by
  rw [contains_iff] at h
  rw [size, size]
  omega

/-- Of parts beside each other only one holds what is not empty. -/
theorem eq_of_contains {α : Type} {as : List α} {f : α → Outline}
    (h : as.Pairwise fun a b => Beside (f a) (f b)) {a b : α} (ha : a ∈ as) (hb : b ∈ as)
    {s : Span} (hs : s.start < s.stop) (has : (f a).span.contains s = true)
    (hbs : (f b).span.contains s = true) : a = b := by
  have : Std.Symm fun a b => Beside (f a) (f b) := ⟨fun _ _ h => h.symm⟩
  by_contra hne
  have hbeside := h.forall ha hb hne
  rw [Span.contains_iff] at has hbs
  rcases hbeside with hbeside | hbeside <;> omega

/-- Holds of declarations of which only the one with a base type and longer ones hold what stands in
this type. -/
def Innermost (ds : List TypeDecl) : Prop :=
  ∀ d ∈ ds, ∀ e ∈ ds, ∀ b ∈ d.baseList, ∀ s : Span, s.start < s.stop → d.span.contains s = true →
    b.span.contains s = true → e.span.contains s = true → e = d ∨ d.span.size < e.span.size

/-- Declarations in parts beside each other do not hold what stands in one of another part. -/
theorem Innermost.flatMap {α : Type} {as : List α} {f : α → Outline} {g : α → List TypeDecl}
    (hbeside : as.Pairwise fun a b => Beside (f a) (f b))
    (hinside : ∀ a ∈ as, ∀ d ∈ g a, (f a).span.contains d.span = true)
    (h : ∀ a ∈ as, Innermost (g a)) : Innermost (as.flatMap g) := by
  intro d hd e he b hb s hs hds hbs hes
  obtain ⟨x, hx, hdx⟩ := List.mem_flatMap.1 hd
  obtain ⟨y, hy, hey⟩ := List.mem_flatMap.1 he
  obtain rfl := eq_of_contains hbeside hx hy hs (Span.contains_trans (hinside x hx d hdx) hds)
    (Span.contains_trans (hinside y hy e hey) hes)
  exact h x hx d hdx e hey b hb s hs hds hbs hes

namespace TypeDecl

section

variable {d n : TypeDecl} {b : TypeExpr}

/-- The name, the base types and the nested declarations are parts in this order. -/
theorem sublist_parts : (leaf d.nameSpan :: (d.baseList.map TypeExpr.outline ++
    d.nested.map TypeDecl.outline)).Sublist d.parts :=
  ((List.sublist_append_right _ _).cons_cons _).trans (List.sublist_append_right _ _)

theorem outline_mem_parts (hn : n ∈ d.nested) : n.outline ∈ d.parts :=
  sublist_parts.subset
    (List.mem_cons_of_mem _ (List.mem_append_right _ (List.mem_map_of_mem hn)))

theorem base_mem_parts (hb : b ∈ d.baseList) : b.outline ∈ d.parts :=
  sublist_parts.subset
    (List.mem_cons_of_mem _ (List.mem_append_left _ (List.mem_map_of_mem hb)))

variable (h : (node d.span d.parts).Solid)

include h

theorem ordered : (leaf d.nameSpan :: (d.baseList.map TypeExpr.outline ++
    d.nested.map TypeDecl.outline)).Pairwise fun o p => o.span.stop ≤ p.span.start :=
  h.nested.2.ordered.sublist sublist_parts

theorem solid_nested (hn : n ∈ d.nested) : (node n.span n.parts).Solid :=
  n.outline_eq ▸ h.part (outline_mem_parts hn)

theorem contains_nested (hn : n ∈ d.nested) : d.span.contains n.span = true :=
  n.span_outline ▸ h.contains_part (outline_mem_parts hn)

theorem contains_base (hb : b ∈ d.baseList) : d.span.contains b.span = true :=
  b.span_outline ▸ h.contains_part (base_mem_parts hb)

theorem base_before_nested (hb : b ∈ d.baseList) (hn : n ∈ d.nested) :
    b.span.stop ≤ n.span.start := by
  have hcross := (List.pairwise_append.1 (ordered h).tail).2.2
  have hle := hcross _ (List.mem_map_of_mem hb) _ (List.mem_map_of_mem hn)
  rwa [b.span_outline, n.span_outline] at hle

/-- A declaration has a name in front of what is nested in it, so it is longer. -/
theorem size_nested_lt (hn : n ∈ d.nested) : n.span.size < d.span.size := by
  have hname : leaf d.nameSpan ∈ d.parts := sublist_parts.subset List.mem_cons_self
  have hbefore := List.rel_of_pairwise_cons (ordered h)
    (List.mem_append_right _ (List.mem_map_of_mem hn))
  have hlt := (h.part hname).span_lt
  have hcontains := contains_nested h hn
  have hinside := h.contains_part hname
  rw [n.span_outline] at hbefore
  rw [Span.contains_iff] at hcontains hinside
  rw [Span.size, Span.size]
  omega

theorem nested_beside : d.nested.Pairwise fun m n => Beside m.outline n.outline := by
  have hnested := (List.pairwise_append.1 (ordered h).tail).2.1
  exact (List.pairwise_map.1 hnested).imp .inl

end

theorem contains_withNested {d e : TypeDecl} (h : (node d.span d.parts).Solid)
    (he : e ∈ d.withNested) : d.span.contains e.span = true := by
  rw [withNested_eq] at he
  rcases List.mem_cons.1 he with rfl | he
  · exact e.span.contains_self
  · obtain ⟨n, hn, hen⟩ := List.mem_flatMap.1 he
    have hlt := sizeOf_lt_of_mem_nested hn
    exact Span.contains_trans (contains_nested h hn) (contains_withNested (solid_nested h hn) hen)
  termination_by sizeOf d

/-- Of a declaration and what is nested in it, only the declaration with a base type and those around
it hold what stands there. -/
theorem innermost_withNested {d : TypeDecl} (h : (node d.span d.parts).Solid) :
    Innermost d.withNested := by
  have hinner : Innermost (d.nested.flatMap withNested) :=
    Innermost.flatMap (nested_beside h)
      (fun n hn e he => n.span_outline ▸ contains_withNested (solid_nested h hn) he)
      fun n hn =>
        have hlt := sizeOf_lt_of_mem_nested hn
        innermost_withNested (solid_nested h hn)
  intro a ha e he b hb s hs has hbs hes
  rw [withNested_eq] at ha he
  rcases List.mem_cons.1 ha with rfl | ha <;> rcases List.mem_cons.1 he with rfl | he
  · exact .inl rfl
  · obtain ⟨n, hn, hen⟩ := List.mem_flatMap.1 he
    have hbefore := base_before_nested h hb hn
    have hns := Span.contains_trans (contains_withNested (solid_nested h hn) hen) hes
    rw [Span.contains_iff] at hbs hns
    omega
  · obtain ⟨n, hn, han⟩ := List.mem_flatMap.1 ha
    have hle := Span.size_le_of_contains (contains_withNested (solid_nested h hn) han)
    exact .inr (Nat.lt_of_le_of_lt hle (size_nested_lt h hn))
  · exact hinner a ha e he b hb s hs has hbs hes
  termination_by sizeOf d

theorem solid_withNested {d e : TypeDecl} (h : (node d.span d.parts).Solid)
    (he : e ∈ d.withNested) : (node e.span e.parts).Solid := by
  rw [withNested_eq] at he
  rcases List.mem_cons.1 he with rfl | he
  · exact h
  · obtain ⟨n, hn, hen⟩ := List.mem_flatMap.1 he
    have hlt := sizeOf_lt_of_mem_nested hn
    exact solid_withNested (solid_nested h hn) hen
  termination_by sizeOf d

end TypeDecl

/-- Members among using directives stand beside each other. -/
theorem members_beside {us : List Outline} {ms : List Member}
    (h : InRow (mix us (ms.map Member.outline))) :
    ms.Pairwise fun m n => Beside m.outline n.outline := by
  have hbeside : (mix us (ms.map Member.outline)).Pairwise Beside := h.ordered.imp .inl
  have hperm : (mix us (ms.map Member.outline)).Perm (us ++ ms.map Member.outline) :=
    List.merge_perm_append _
  rw [hperm.pairwise_iff .symm, List.pairwise_append] at hbeside
  exact List.pairwise_map.1 hbeside.2.1

theorem outline_mem_mix (us : List Outline) {ms : List Member} {m : Member} (hm : m ∈ ms) :
    m.outline ∈ mix us (ms.map Member.outline) :=
  List.mem_merge.2 (.inr (List.mem_map_of_mem hm))

namespace Member

/-- The declarations of a member lie in it, and each is laid out as the text is. -/
theorem solid_typeDecls {m : Member} (h : m.outline.Solid) {d : TypeDecl} (hd : d ∈ m.typeDecls) :
    (node d.span d.parts).Solid ∧ m.outline.span.contains d.span = true := by
  match m with
  | .type t =>
    rw [typeDecls_type] at hd
    rw [outline, t.outline_eq] at h ⊢
    exact ⟨TypeDecl.solid_withNested h hd, TypeDecl.contains_withNested h hd⟩
  | .space n =>
    rw [typeDecls_space] at hd
    rw [outline_space] at h ⊢
    obtain ⟨m, hm, hdm⟩ := List.mem_flatMap.1 hd
    have hpart := List.mem_cons_of_mem (leaf n.nameSpan)
      (outline_mem_mix (n.usings.map UsingDirective.outline) hm)
    have hlt : sizeOf m < 1 + sizeOf n :=
      Nat.lt_trans (List.sizeOf_lt_of_mem hm) (Nat.lt_add_left 1 n.sizeOf_members_lt)
    obtain ⟨hsolid, hcontains⟩ := solid_typeDecls (h.part hpart) hdm
    exact ⟨hsolid, Span.contains_trans (h.contains_part hpart) hcontains⟩
  termination_by sizeOf m
  decreasing_by simpa using hlt

/-- Of the declarations of a member, only the one with a base type and those around it hold what
stands there. -/
theorem innermost_typeDecls {m : Member} (h : m.outline.Solid) : Innermost m.typeDecls := by
  match m with
  | .type t =>
    rw [typeDecls_type]
    rw [outline, t.outline_eq] at h
    exact TypeDecl.innermost_withNested h
  | .space n =>
    rw [typeDecls_space]
    rw [outline_space] at h
    have hsolid : ∀ m ∈ n.members, m.outline.Solid := fun m hm =>
      h.part (List.mem_cons_of_mem _ (outline_mem_mix _ hm))
    exact Innermost.flatMap (members_beside h.nested.2.2.2)
      (fun m hm d hd => (solid_typeDecls (hsolid m hm) hd).2) fun m hm =>
        have hlt : sizeOf m < 1 + sizeOf n :=
          Nat.lt_trans (List.sizeOf_lt_of_mem hm) (Nat.lt_add_left 1 n.sizeOf_members_lt)
        innermost_typeDecls (hsolid m hm)
  termination_by sizeOf m
  decreasing_by simpa using hlt

end Member

namespace TypeExpr

/-- The arguments of a segment are parts of the name. -/
theorem typeArg_mem_spansAll {ss : List (NameSegment TypeExpr)} {s : NameSegment TypeExpr}
    (hs : s ∈ ss) {a : TypeExpr} (ha : a ∈ s.args) : a.span ∈ spansAll (segmentOutlines ss) := by
  have hargs : a.span ∈ spansAll (typeOutlines s.args) := by
    rw [typeOutlines_eq_map]
    exact a.span_outline ▸ span_mem_spansAll (List.mem_map_of_mem ha)
  induction ss with
  | nil => exact absurd hs List.not_mem_nil
  | cons s' ss ih =>
    obtain ⟨name, span, args, listSpan⟩ := s'
    rcases List.mem_cons.1 hs with rfl | htail
    · cases listSpan <;>
        simp [segmentOutlines, spansAll, spansAll_append, spans, hargs]
    · cases listSpan <;>
        simp [segmentOutlines, spansAll, spansAll_append, ih htail]

/-- An argument of a type lies in it and is not empty. -/
theorem contains_typeArg {b a : TypeExpr} (h : b.outline.Solid) (ha : a ∈ b.typeArgs) :
    b.span.contains a.span = true ∧ a.span.start < a.span.stop := by
  unfold typeArgs at ha
  split at ha
  · next s hs =>
    have hmem := List.mem_of_getLast? hs
    cases b with
    | path isGlobal segments span =>
      have hspan := typeArg_mem_spansAll hmem ha
      exact ⟨h.contains hspan, h.nonempty _ (List.mem_cons_of_mem _ hspan)⟩
    | _ => exact absurd hmem List.not_mem_nil
  · exact absurd ha List.not_mem_nil

/-- The arguments of a segment are parts of the name in order, or of one part of the name. -/
theorem args_sublist_or_mem {ss : List (NameSegment TypeExpr)} {s : NameSegment TypeExpr}
    (hs : s ∈ ss) : (s.args.map outline).Sublist (segmentOutlines ss) ∨
      ∃ span, node span (s.args.map outline) ∈ segmentOutlines ss := by
  induction ss with
  | nil => exact absurd hs List.not_mem_nil
  | cons s' ss ih =>
    obtain ⟨name, span, args, listSpan⟩ := s'
    rcases List.mem_cons.1 hs with rfl | htail
    · cases listSpan with
      | none =>
        rw [segmentOutlines, typeOutlines_eq_map]
        exact .inl ((List.sublist_append_left _ _).cons _)
      | some span =>
        rw [segmentOutlines, typeOutlines_eq_map]
        exact .inr ⟨span, List.mem_cons_of_mem _ List.mem_cons_self⟩
    · have hsub : (segmentOutlines ss).Sublist (segmentOutlines (⟨name, span, args, listSpan⟩ :: ss)) := by
        cases listSpan with
        | none => exact (List.sublist_append_right _ _).cons _
        | some span => exact (List.sublist_cons_self _ _).cons _
      exact (ih htail).imp (·.trans hsub) fun ⟨span, hspan⟩ => ⟨span, hsub.subset hspan⟩

/-- The arguments of a type stand beside each other. -/
theorem typeArgs_beside {b : TypeExpr} (h : b.outline.Solid) :
    b.typeArgs.Pairwise fun a a' => Beside a.outline a'.outline := by
  unfold typeArgs
  split
  · next s hs =>
    have hmem := List.mem_of_getLast? hs
    cases b with
    | path isGlobal segments span =>
      have hargs : (s.args.map outline).Pairwise Beside := by
        rcases args_sublist_or_mem hmem with hsub | ⟨listSpan, hpart⟩
        · exact (h.nested.2.ordered.sublist hsub).imp .inl
        · exact (h.part hpart).nested.2.ordered.imp .inl
      exact List.pairwise_map.1 hargs
    | _ => exact absurd hmem List.not_mem_nil
  · exact .nil

end TypeExpr

namespace TypeDecl

/-- The base types of a declaration stand beside each other. -/
theorem bases_beside {d : TypeDecl} (h : (node d.span d.parts).Solid) :
    d.baseList.Pairwise fun b c => Beside b.outline c.outline := by
  have hbases := (List.pairwise_append.1 (ordered h).tail).1
  exact (List.pairwise_map.1 hbases).imp .inl

/-- An argument of a base type is told by its place from all arguments of the base types. -/
theorem eq_of_typeArg_span {d : TypeDecl} (h : (node d.span d.parts).Solid) {b c : TypeExpr}
    (hb : b ∈ d.baseList) (hc : c ∈ d.baseList) {a e : TypeExpr} (ha : a ∈ b.typeArgs)
    (he : e ∈ c.typeArgs) (hspan : a.span = e.span) : a = e := by
  have hbase := h.part (base_mem_parts hb)
  obtain ⟨hba, hsome⟩ := TypeExpr.contains_typeArg hbase ha
  obtain ⟨hce, -⟩ := TypeExpr.contains_typeArg (h.part (base_mem_parts hc)) he
  rw [← hspan] at hce
  obtain rfl := eq_of_contains (bases_beside h) hb hc hsome (b.span_outline ▸ hba)
    (c.span_outline ▸ hce)
  have hself := a.span.contains_self
  exact eq_of_contains (TypeExpr.typeArgs_beside hbase) ha he hsome (a.span_outline ▸ hself)
    (by rw [e.span_outline, ← hspan]; exact hself)

end TypeDecl

namespace SyntaxTree

/-- Of declarations among which one is the shortest, this is found. -/
theorem shortest_eq_some {ds : List TypeDecl} {d : TypeDecl} (hd : d ∈ ds)
    (h : ∀ e ∈ ds, e = d ∨ d.span.size < e.span.size) : shortest ds = some d := by
  induction ds with
  | nil => exact absurd hd List.not_mem_nil
  | cons x xs ih =>
    rw [shortest]
    by_cases hmem : d ∈ xs
    · rw [ih hmem fun e he => h e (List.mem_cons_of_mem _ he)]
      rcases h x List.mem_cons_self with rfl | hlt
      · simp
      · simp [Nat.not_le.2 hlt]
    · obtain rfl : d = x := (List.mem_cons.1 hd).resolve_right hmem
      split
      · next e he =>
        rcases h e (List.mem_cons_of_mem _ (mem_of_shortest_eq_some he)) with rfl | hlt
        · simp
        · simp [Nat.le_of_lt hlt]
      · rfl

/-- The members of a tree that is laid out as a text is stand beside each other, and so on within. -/
theorem solid_members {t : SyntaxTree} (hrow : InRow t.outlines)
    (hspans : ∀ s ∈ t.spans, s.start < s.stop) :
    (t.members.Pairwise fun m n => Beside m.outline n.outline) ∧
      ∀ m ∈ t.members, m.outline.Solid := by
  rw [outlines, memberOutlines_eq_map] at hrow
  refine ⟨members_beside hrow, fun m hm => ?_⟩
  have hmem := outline_mem_mix (t.usings.map UsingDirective.outline) hm
  refine ⟨hrow.nested hmem, fun s hs => hspans s (List.mem_append_left _ ?_)⟩
  rw [outlines, memberOutlines_eq_map]
  exact spans_subset_spansAll hmem hs

/-- The shortest declaration around an argument of a base type is the one that has the type in its
base list. -/
theorem enclosingTypeDecl_typeArg {t : SyntaxTree} (hrow : InRow t.outlines)
    (hspans : ∀ s ∈ t.spans, s.start < s.stop) {d : TypeDecl} (hd : d ∈ t.typeDecls)
    {b : TypeExpr} (hb : b ∈ d.baseList) {a : TypeExpr} (ha : a ∈ b.typeArgs) :
    t.enclosingTypeDecl a.span = some d := by
  obtain ⟨hbeside, hsolid⟩ := solid_members hrow hspans
  have hinnermost : Innermost t.typeDecls :=
    Innermost.flatMap hbeside
      (fun m hm d hd => (Member.solid_typeDecls (hsolid m hm) hd).2)
      fun m hm => Member.innermost_typeDecls (hsolid m hm)
  obtain ⟨m, hm, hdm⟩ := List.mem_flatMap.1 hd
  have hdsolid := (Member.solid_typeDecls (hsolid m hm) hdm).1
  have hbase := hdsolid.part (TypeDecl.base_mem_parts hb)
  obtain ⟨hba, ha⟩ := TypeExpr.contains_typeArg hbase ha
  have hda := Span.contains_trans (TypeDecl.contains_base hdsolid hb) hba
  refine shortest_eq_some (List.mem_filter.2 ⟨hd, hda⟩) fun e he => ?_
  obtain ⟨he, hea⟩ := List.mem_filter.1 he
  exact hinnermost d hd e he b hb a.span ha hda hba hea

end SyntaxTree

end SelfTypeLint
