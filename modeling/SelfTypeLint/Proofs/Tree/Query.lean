import Mathlib.Data.List.Nodup
import Mathlib.Data.List.Pairwise
import SelfTypeLint.Tree.Query

/-!
# Declarations of a tree

What a search in a tree finds is a declaration of the tree, and so is all that is nested in one.
-/

namespace SelfTypeLint

/-- Where no two of some lists share anything, an element tells its list. -/
theorem eq_of_nodup_flatMap {α β : Type} {l : List α} {f : α → List β} (h : (l.flatMap f).Nodup)
    {a b : α} (ha : a ∈ l) (hb : b ∈ l) {x : β} (hxa : x ∈ f a) (hxb : x ∈ f b) : a = b := by
  have : Std.Symm (Function.onFun List.Disjoint f) := ⟨fun _ _ h _ hb ha => h ha hb⟩
  by_contra hne
  exact (List.nodup_flatMap.1 h).2.forall ha hb hne hxa hxb

/-- A type argument is smaller than the type that it is written in. -/
theorem TypeExpr.sizeOf_lt_of_mem_typeArgs {e a : TypeExpr} (ha : a ∈ e.typeArgs) :
    sizeOf a < sizeOf e := by
  cases e with
  | path isGlobal segments span =>
    rw [typeArgs, TypeExpr.segments] at ha
    split at ha
    · next last hlast =>
      have h1 := List.sizeOf_lt_of_mem ha
      have h2 := List.sizeOf_lt_of_mem (List.mem_of_getLast? hlast)
      cases last
      simp at h1 h2 ⊢
      omega
    · exact absurd ha List.not_mem_nil
  | predefined | array | nullable | tuple => exact absurd ha (by simp [typeArgs, TypeExpr.segments])

/-- A type with the arguments of its last segment and all that are reached from these, outer ones
first. -/
def TypeExpr.reached (e : TypeExpr) : List TypeExpr :=
  e :: e.typeArgs.attach.flatMap fun ⟨a, h⟩ =>
    have := sizeOf_lt_of_mem_typeArgs h
    a.reached
  termination_by sizeOf e

theorem TypeExpr.reached_eq (e : TypeExpr) : e.reached = e :: e.typeArgs.flatMap reached := by
  rw [reached]
  simp

namespace TypeDecl

theorem mem_withNested_self (d : TypeDecl) : d ∈ d.withNested := by
  rw [withNested_eq]
  exact List.mem_cons_self

theorem mem_withNested_of_nested {d n e : TypeDecl} (hn : n ∈ d.nested) (he : e ∈ n.withNested) :
    e ∈ d.withNested := by
  rw [withNested_eq]
  exact List.mem_cons_of_mem _ (List.mem_flatMap.2 ⟨n, hn, he⟩)

/-- A nested declaration comes with all that is nested in it, in one row. -/
theorem withNested_sublist {e : TypeDecl} (d : TypeDecl) (he : e ∈ d.withNested) :
    e.withNested.Sublist d.withNested := by
  rw [withNested_eq] at he
  rcases List.mem_cons.1 he with rfl | he
  · exact List.Sublist.refl _
  · obtain ⟨n, hn, hen⟩ := List.mem_flatMap.1 he
    have hlt := sizeOf_lt_of_mem_nested hn
    have hall : n.withNested.Sublist (d.nested.flatMap withNested) :=
      List.sublist_flatten_of_mem (List.mem_map_of_mem hn)
    rw [withNested_eq d]
    exact (withNested_sublist n hen).trans (hall.cons d)
  termination_by sizeOf d

/-- Where no declaration comes twice, of two that have something nested in common one is nested in the
other. -/
theorem nested_of_common {e f n : TypeDecl} (d : TypeDecl) (hnodup : d.withNested.Nodup)
    (he : e ∈ d.withNested) (hf : f ∈ d.withNested) (hen : n ∈ e.withNested)
    (hfn : n ∈ f.withNested) : e ∈ f.withNested ∨ f ∈ e.withNested := by
  have hnodup' := hnodup
  rw [withNested_eq, List.nodup_cons] at hnodup'
  have he' := he
  have hf' := hf
  rw [withNested_eq] at he' hf'
  rcases List.mem_cons.1 he' with rfl | he'
  · exact .inr hf
  rcases List.mem_cons.1 hf' with rfl | hf'
  · exact .inl he
  obtain ⟨a, ha, hae⟩ := List.mem_flatMap.1 he'
  obtain ⟨b, hb, hbf⟩ := List.mem_flatMap.1 hf'
  obtain rfl : a = b := eq_of_nodup_flatMap hnodup'.2 ha hb
    ((withNested_sublist a hae).subset hen) ((withNested_sublist b hbf).subset hfn)
  have hlt := sizeOf_lt_of_mem_nested ha
  exact nested_of_common a
    (hnodup.sublist (withNested_sublist d (mem_withNested_of_nested ha a.mem_withNested_self)))
    hae hbf hen hfn
  termination_by sizeOf d

/-- What is nested in a declaration, however deep, is nested in one of those in it. -/
theorem eq_or_nested_of_mem_withNested {e : TypeDecl} (d : TypeDecl) (h : e ∈ d.withNested) :
    e = d ∨ ∃ f ∈ d.withNested, e ∈ f.nested := by
  rw [withNested_eq] at h
  rcases List.mem_cons.1 h with rfl | h
  · exact .inl rfl
  · obtain ⟨n, hn, he⟩ := List.mem_flatMap.1 h
    have hlt := sizeOf_lt_of_mem_nested hn
    rcases eq_or_nested_of_mem_withNested n he with rfl | ⟨f, hf, hef⟩
    · exact .inr ⟨d, mem_withNested_self d, hn⟩
    · exact .inr ⟨f, mem_withNested_of_nested hn hf, hef⟩
  termination_by sizeOf d

end TypeDecl

/-- A declaration of a member comes with all that is nested in it, in one row. -/
theorem Member.withNested_sublist {d : TypeDecl} (m : Member) (hd : d ∈ m.typeDecls) :
    d.withNested.Sublist m.typeDecls := by
  match m with
  | .type t =>
    rw [typeDecls_type] at hd ⊢
    exact TypeDecl.withNested_sublist t hd
  | .space n =>
    rw [typeDecls_space] at hd ⊢
    obtain ⟨m, hm, hdm⟩ := List.mem_flatMap.1 hd
    have hlt : sizeOf m < 1 + sizeOf n :=
      Nat.lt_trans (List.sizeOf_lt_of_mem hm) (Nat.lt_add_left 1 n.sizeOf_members_lt)
    have hall : m.typeDecls.Sublist (n.members.flatMap typeDecls) :=
      List.sublist_flatten_of_mem (List.mem_map_of_mem hm)
    exact (m.withNested_sublist hdm).trans hall
  termination_by sizeOf m
  decreasing_by simpa using hlt

/-- Where no declaration of a member comes twice, of two that have something nested in common one is
nested in the other. -/
theorem Member.nested_of_common {e f n : TypeDecl} (m : Member) (hnodup : m.typeDecls.Nodup)
    (he : e ∈ m.typeDecls) (hf : f ∈ m.typeDecls) (hen : n ∈ e.withNested)
    (hfn : n ∈ f.withNested) : e ∈ f.withNested ∨ f ∈ e.withNested := by
  match m with
  | .type t =>
    rw [typeDecls_type] at hnodup he hf
    exact TypeDecl.nested_of_common t hnodup he hf hen hfn
  | .space s =>
    rw [typeDecls_space] at hnodup he hf
    obtain ⟨a, ha, hae⟩ := List.mem_flatMap.1 he
    obtain ⟨b, hb, hbf⟩ := List.mem_flatMap.1 hf
    obtain rfl : a = b := eq_of_nodup_flatMap hnodup ha hb
      ((a.withNested_sublist hae).subset hen) ((b.withNested_sublist hbf).subset hfn)
    have hlt : sizeOf a < 1 + sizeOf s :=
      Nat.lt_trans (List.sizeOf_lt_of_mem ha) (Nat.lt_add_left 1 s.sizeOf_members_lt)
    exact nested_of_common a ((List.nodup_flatMap.1 hnodup).1 a ha) hae hbf hen hfn
  termination_by sizeOf m
  decreasing_by simpa using hlt

/-- The using directives of a member and of all namespaces in it. -/
def Member.allUsings : Member → List UsingDirective
  | .type _ => []
  | .space n => n.usings ++ n.members.attach.flatMap fun ⟨m, h⟩ =>
    have : sizeOf m < 1 + sizeOf n :=
      Nat.lt_trans (List.sizeOf_lt_of_mem h) (Nat.lt_add_left 1 n.sizeOf_members_lt)
    m.allUsings
  termination_by m => sizeOf m
  decreasing_by simpa using this

theorem Member.allUsings_space (n : NamespaceDecl) :
    (Member.space n).allUsings = n.usings ++ n.members.flatMap Member.allUsings := by
  rw [allUsings]
  simp

theorem Member.allUsings_type (d : TypeDecl) : (Member.type d).allUsings = [] := by
  rw [allUsings]

/-- The directives of the namespaces around a place are among those of all members. -/
theorem Member.mem_allUsings_of_namespacesAround {span : Span} {ms : List Member}
    {n : NamespaceDecl} (hn : n ∈ namespacesAround span ms) {u : UsingDirective}
    (hu : u ∈ n.usings) : u ∈ ms.flatMap Member.allUsings := by
  induction ms using namespacesAround.induct span with
  | case1 => simp [namespacesAround] at hn
  | case2 d rest ih =>
    rw [namespacesAround] at hn
    rw [List.flatMap_cons, List.mem_append]
    exact .inr (ih hn)
  | case3 rest m hcontains ih =>
    rw [namespacesAround, if_pos hcontains] at hn
    rw [List.flatMap_cons, allUsings_space, List.mem_append, List.mem_append]
    rcases List.mem_cons.1 hn with rfl | hn
    · exact .inl (.inl hu)
    · exact .inl (.inr (ih hn))
  | case4 rest m hcontains ih =>
    rw [namespacesAround, if_neg hcontains] at hn
    rw [List.flatMap_cons, List.mem_append]
    exact .inr (ih hn)

namespace SyntaxTree

/-- A declaration of a tree comes with all that is nested in it, in one row. -/
theorem withNested_sublist (t : SyntaxTree) {d : TypeDecl} (hd : d ∈ t.typeDecls) :
    d.withNested.Sublist t.typeDecls := by
  obtain ⟨m, hm, hdm⟩ := List.mem_flatMap.1 hd
  have hall : m.typeDecls.Sublist t.typeDecls :=
    List.sublist_flatten_of_mem (List.mem_map_of_mem hm)
  exact (m.withNested_sublist hdm).trans hall

/-- What is nested in a declaration of a tree is one of the tree's. -/
theorem mem_typeDecls_of_withNested (t : SyntaxTree) {d e : TypeDecl} (hd : d ∈ t.typeDecls)
    (he : e ∈ d.withNested) : e ∈ t.typeDecls := (t.withNested_sublist hd).subset he

/-- Where no declaration comes twice, of two that have something nested in common one is nested in the
other. -/
theorem nested_of_common (t : SyntaxTree) (hnodup : t.typeDecls.Nodup) {e f n : TypeDecl}
    (he : e ∈ t.typeDecls) (hf : f ∈ t.typeDecls) (hen : n ∈ e.withNested)
    (hfn : n ∈ f.withNested) : e ∈ f.withNested ∨ f ∈ e.withNested := by
  obtain ⟨a, ha, hae⟩ := List.mem_flatMap.1 he
  obtain ⟨b, hb, hbf⟩ := List.mem_flatMap.1 hf
  obtain rfl : a = b := eq_of_nodup_flatMap hnodup ha hb
    ((a.withNested_sublist hae).subset hen) ((b.withNested_sublist hbf).subset hfn)
  exact a.nested_of_common ((List.nodup_flatMap.1 hnodup).1 a ha) hae hbf hen hfn

/-- A parameter that is found belongs to a declaration of the tree, and its name covers the span. -/
theorem findTypeParam_eq_some {t : SyntaxTree} {span : Span} {d : TypeDecl} {p : TypeParam}
    (h : t.findTypeParam span = some (d, p)) :
    d ∈ t.typeDecls ∧ p ∈ d.typeParams ∧ p.nameSpan = span := by
  rw [findTypeParam] at h
  obtain ⟨e, he, hfind⟩ := List.exists_of_findSome?_eq_some h
  obtain ⟨q, hq, hpair⟩ := Option.map_eq_some_iff.1 hfind
  obtain ⟨rfl, rfl⟩ := Prod.mk.inj hpair
  refine ⟨he, List.mem_of_find?_eq_some hq, ?_⟩
  simpa using List.find?_some hq

/-- Where a declaration of the tree has a parameter, one is found. -/
theorem exists_findTypeParam {t : SyntaxTree} {d : TypeDecl} (hd : d ∈ t.typeDecls) {p : TypeParam}
    (hp : p ∈ d.typeParams) : ∃ e q, t.findTypeParam p.nameSpan = some (e, q) := by
  cases h : t.findTypeParam p.nameSpan with
  | some found => exact ⟨found.1, found.2, rfl⟩
  | none =>
    have hnone := List.findSome?_eq_none_iff.1 h d hd
    rw [Option.map_eq_none_iff, List.find?_eq_none] at hnone
    exact absurd (decide_eq_true rfl) (hnone p hp)

theorem mem_of_shortest_eq_some {ds : List TypeDecl} {d : TypeDecl}
    (h : shortest ds = some d) : d ∈ ds := by
  induction ds with
  | nil => exact absurd h (by simp [shortest])
  | cons e es ih =>
    rw [shortest] at h
    split at h
    · next f hf =>
      split at h
      · rw [Option.some.inj h]
        exact List.mem_cons_self
      · exact List.mem_cons_of_mem _ (ih (hf.trans h))
    · rw [Option.some.inj h]
      exact List.mem_cons_self

/-- The declaration found around a span is one of the tree's and contains the span. -/
theorem enclosingTypeDecl_eq_some {t : SyntaxTree} {span : Span} {d : TypeDecl}
    (h : t.enclosingTypeDecl span = some d) : d ∈ t.typeDecls ∧ d.span.contains span = true :=
  List.mem_filter.1 (mem_of_shortest_eq_some h)

end SyntaxTree

end SelfTypeLint
