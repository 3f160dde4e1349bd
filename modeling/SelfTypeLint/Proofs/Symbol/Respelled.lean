import SelfTypeLint.Proofs.Grammar.RespellFiles
import SelfTypeLint.Proofs.Symbol.Counterparts

/-!
# Respelled declarations are parallel

Declarations and members that are respelled, but keep the names of types, are parallel to their old form.
-/

namespace SelfTypeLint

namespace Respelling

variable (m : Respelling)

theorem nested_typeDecl (d : TypeDecl) : (m.typeDecl d).nested = d.nested.map m.typeDecl := by
  cases d
  exact m.typeDeclList_eq_map _

theorem baseList_typeDecl (d : TypeDecl) :
    (m.typeDecl d).baseList = d.baseList.map m.typeExpr := by
  cases d
  exact m.typeExprList_eq_map _

theorem sameUsings_map (us : List UsingDirective) : SameUsings us (us.map m.usingDirective) := by
  rw [SameUsings, List.forall₂_map_right_iff]
  exact List.forall₂_same.2 fun u _ => ⟨rfl, rfl⟩

variable {m}

/-- A declaration that keeps its name matches its old form. -/
theorem matches_typeDecl {d : TypeDecl} (h : m.word d.nameSpan = none) : d.Matches (m.typeDecl d) := by
  cases d
  refine ⟨rfl, ?_, List.length_map ..⟩
  rw [typeDecl, text, h, Option.getD_none]

theorem parallel_typeDecl {R : TypeDecl → TypeDecl → Prop} (d : TypeDecl)
    (h : ∀ e ∈ d.withNested, R e (m.typeDecl e) ∧ m.word e.nameSpan = none) :
    d.Parallel R (m.typeDecl d) := by
  obtain ⟨hR, hword⟩ := h d d.mem_withNested_self
  refine .mk (matches_typeDecl hword) hR ?_
  rw [nested_typeDecl, List.forall₂_map_right_iff]
  refine List.forall₂_same.2 fun n hn => ?_
  have hlt := TypeDecl.sizeOf_lt_of_mem_nested hn
  exact parallel_typeDecl n fun e he => h e (TypeDecl.mem_withNested_of_nested hn he)
  termination_by sizeOf d

theorem parallel_member {R : TypeDecl → TypeDecl → Prop}
    {S : List UsingDirective → List UsingDirective → Prop} (a : Member)
    (hS : ∀ us, S us (us.map m.usingDirective))
    (h : ∀ e ∈ a.typeDecls, R e (m.typeDecl e) ∧ m.word e.nameSpan = none) :
    a.Parallel R S (m.member a) := by
  match a with
  | .type d =>
    rw [Member.typeDecls_type] at h
    exact .type (parallel_typeDecl d h)
  | .space n =>
    have hmember : m.member (.space n) = .space (m.space n) := by
      cases n
      rfl
    rw [hmember]
    refine .space rfl (hS n.usings) ?_
    rw [space, memberList_eq_map, List.forall₂_map_right_iff]
    refine List.forall₂_same.2 fun b hb => ?_
    have hlt : sizeOf b < 1 + sizeOf n :=
      Nat.lt_trans (List.sizeOf_lt_of_mem hb) (Nat.lt_add_left 1 n.sizeOf_members_lt)
    refine parallel_member b hS fun e he => h e ?_
    rw [Member.typeDecls_space]
    exact List.mem_flatMap.2 ⟨b, hb, he⟩
  termination_by sizeOf a
  decreasing_by simpa using hlt

end Respelling

end SelfTypeLint
