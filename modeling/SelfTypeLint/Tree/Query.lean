import SelfTypeLint.Tree.Basic

/-!
# Searching declaration trees

Lists the type declarations of a tree and finds declarations by place: the type parameter whose name
stands at a span, the smallest type declaration around a span, and the namespaces around a span.
-/

namespace SelfTypeLint

/-- A nested declaration is smaller than the one around it. -/
theorem TypeDecl.sizeOf_lt_of_mem_nested {d n : TypeDecl} (h : n ∈ d.nested) :
    sizeOf n < sizeOf d := by
  have := List.sizeOf_lt_of_mem h
  cases d
  simp only [mk.sizeOf_spec] at this ⊢
  omega

/-- A declaration and all that are nested in it, outer ones first. -/
def TypeDecl.withNested (d : TypeDecl) : List TypeDecl :=
  d :: d.nested.attach.flatMap fun ⟨n, h⟩ =>
    have := sizeOf_lt_of_mem_nested h
    n.withNested
  termination_by sizeOf d

theorem NamespaceOf.sizeOf_members_lt {M : Type} [SizeOf M] (n : NamespaceOf M) :
    sizeOf n.members < sizeOf n := by
  cases n
  simp
  omega

/-- The type declarations of a member, outer ones first. -/
def Member.typeDecls : Member → List TypeDecl
  | .type d => d.withNested
  | .space n => n.members.attach.flatMap fun ⟨m, h⟩ =>
    have : sizeOf m < 1 + sizeOf n :=
      Nat.lt_trans (List.sizeOf_lt_of_mem h) (Nat.lt_add_left 1 n.sizeOf_members_lt)
    m.typeDecls
  termination_by m => sizeOf m
  decreasing_by simpa using this

theorem TypeDecl.withNested_eq (d : TypeDecl) :
    d.withNested = d :: d.nested.flatMap TypeDecl.withNested := by
  rw [withNested]
  simp

theorem Member.typeDecls_type (d : TypeDecl) : (Member.type d).typeDecls = d.withNested := by
  rw [typeDecls]

theorem Member.typeDecls_space (n : NamespaceDecl) :
    (Member.space n).typeDecls = n.members.flatMap Member.typeDecls := by
  rw [typeDecls]
  simp

/-- The chain of namespaces around a span, outermost first: at each level the first member that is a
namespace and contains the span. -/
def Member.namespacesAround (span : Span) : List Member → List NamespaceDecl
  | [] => []
  | .type _ :: rest => namespacesAround span rest
  | .space n :: rest =>
    if n.span.contains span then n :: namespacesAround span n.members
    else namespacesAround span rest
  termination_by members => sizeOf members
  decreasing_by
    · simp only [List.cons.sizeOf_spec]
      omega
    · have := n.sizeOf_members_lt
      simp only [List.cons.sizeOf_spec, space.sizeOf_spec]
      omega
    · simp only [List.cons.sizeOf_spec]
      omega

namespace SyntaxTree

/-- All type declarations, outer ones first. -/
def typeDecls (t : SyntaxTree) : List TypeDecl := t.members.flatMap Member.typeDecls

/-- The first type parameter whose name covers exactly the span, with its declaration. -/
def findTypeParam (t : SyntaxTree) (span : Span) : Option (TypeDecl × TypeParam) :=
  t.typeDecls.findSome? fun d => (d.typeParams.find? (·.nameSpan = span)).map fun p => (d, p)

/-- The first of the shortest declarations in a list. -/
def shortest : List TypeDecl → Option TypeDecl
  | [] => none
  | d :: ds =>
    match shortest ds with
    | some e => if d.span.size ≤ e.span.size then some d else some e
    | none => some d

/-- The smallest type declaration that contains the span. -/
def enclosingTypeDecl (t : SyntaxTree) (span : Span) : Option TypeDecl :=
  shortest (t.typeDecls.filter (·.span.contains span))

/-- The namespaces around the span, outermost first. -/
def enclosingNamespaces (t : SyntaxTree) (span : Span) : List NamespaceDecl :=
  Member.namespacesAround span t.members

end SyntaxTree

end SelfTypeLint
