import SelfTypeLint.Tree.Query

/-!
# Outlines of trees

The outline of a tree keeps of every part only where it stands. The parts of a part are listed in the
order of the grammar: the attribute lists of a declaration, its name, its type parameters, its base
types and then its nested declarations. Using directives and members may be mixed in a file, so their
outlines are merged by where they begin.
-/

namespace SelfTypeLint

/-- The span of a part of a tree, with the outlines of its own parts. -/
inductive Outline
  | node (span : Span) (parts : List Outline)

namespace Outline

/-- The whole part. -/
def span : Outline → Span
  | node span _ => span

/-- A part without parts of its own. -/
def leaf (span : Span) : Outline := node span []

mutual

/-- The spans of a part and of all parts in it. -/
def spans : Outline → List Span
  | node span parts => span :: spansAll parts

/-- The spans of parts and of all parts in them. -/
def spansAll : List Outline → List Span
  | [] => []
  | o :: os => spans o ++ spansAll os

end

theorem span_mem_spans (o : Outline) : o.span ∈ o.spans := by
  cases o
  exact List.mem_cons_self

theorem spansAll_append (os ps : List Outline) :
    spansAll (os ++ ps) = spansAll os ++ spansAll ps := by
  induction os with
  | nil => rfl
  | cons o os ih => rw [List.cons_append, spansAll, spansAll, ih, List.append_assoc]

theorem spans_subset_spansAll {o : Outline} {os : List Outline} (ho : o ∈ os) :
    o.spans ⊆ spansAll os := by
  induction os with
  | nil => exact absurd ho List.not_mem_nil
  | cons p os ih =>
    rcases List.mem_cons.1 ho with rfl | ho
    · exact List.subset_append_left _ _
    · exact List.Subset.trans (ih ho) (List.subset_append_right _ _)

theorem span_mem_spansAll {o : Outline} {os : List Outline} (ho : o ∈ os) :
    o.span ∈ spansAll os := spans_subset_spansAll ho o.span_mem_spans

mutual

/-- Holds of a part that contains all parts in it, at every depth, where siblings stand one after
another. -/
def Nested : Outline → Prop
  | node span parts => (∀ s ∈ spansAll parts, span.contains s = true) ∧ InRow parts

/-- Holds of nested parts that stand one after another. -/
def InRow : List Outline → Prop
  | [] => True
  | o :: os => Nested o ∧ (∀ p ∈ os, o.span.stop ≤ p.span.start) ∧ InRow os

end

/-- Two lists of parts as one, by where the parts begin. -/
def mix (os ps : List Outline) : List Outline :=
  List.merge os ps fun o p => decide (o.span.start ≤ p.span.start)

end Outline

open Outline

mutual

/-- The outline of a type: its words with their arguments, its elements, or the type inside. -/
def TypeExpr.outline : TypeExpr → Outline
  | .path _ segments span => node span (segmentOutlines segments)
  | .predefined _ span => leaf span
  | .array element span => node span [element.outline]
  | .nullable inner span => node span [inner.outline]
  | .tuple elements span => node span (typeOutlines elements)

/-- The outlines of the words of a name; their arguments stand in the span of the argument list. -/
def segmentOutlines : List (NameSegment TypeExpr) → List Outline
  | [] => []
  | ⟨_, span, args, none⟩ :: rest => leaf span :: (typeOutlines args ++ segmentOutlines rest)
  | ⟨_, span, args, some listSpan⟩ :: rest =>
    leaf span :: node listSpan (typeOutlines args) :: segmentOutlines rest

/-- The outlines of types. -/
def typeOutlines : List TypeExpr → List Outline
  | [] => []
  | e :: es => e.outline :: typeOutlines es

end

theorem typeOutlines_eq_map (es : List TypeExpr) : typeOutlines es = es.map TypeExpr.outline := by
  induction es with
  | nil => rfl
  | cons e es ih => rw [typeOutlines, ih, List.map_cons]

theorem TypeExpr.span_outline (e : TypeExpr) : e.outline.span = e.span := by
  cases e <;> rfl

/-- The outline of an attribute. -/
def Attribute.outline (a : Attribute) : Outline := node a.span [a.name.outline]

/-- The outline of an attribute list. -/
def AttributeList.outline (l : AttributeList) : Outline :=
  node l.span (l.attributes.map Attribute.outline)

/-- The outline of a type parameter. -/
def TypeParam.outline (p : TypeParam) : Outline :=
  node p.span (p.attributes.map AttributeList.outline ++
    ((p.variance.map fun v => leaf v.2).toList ++ [leaf p.nameSpan]))

/-- The outlines of type parameters in the span of their list. -/
def paramOutlines (params : List TypeParam) : Option Span → List Outline
  | none => params.map TypeParam.outline
  | some listSpan => [node listSpan (params.map TypeParam.outline)]

mutual

/-- The outline of a type declaration. -/
def TypeDecl.outline : TypeDecl → Outline
  | ⟨_, attributes, _, _, nameSpan, typeParams, listSpan, baseList, nested, _, span⟩ =>
    node span (attributes.map AttributeList.outline ++
      (leaf nameSpan :: (paramOutlines typeParams listSpan ++
        (typeOutlines baseList ++ declOutlines nested))))

/-- The outlines of type declarations. -/
def declOutlines : List TypeDecl → List Outline
  | [] => []
  | d :: ds => d.outline :: declOutlines ds

end

theorem declOutlines_eq_map (ds : List TypeDecl) : declOutlines ds = ds.map TypeDecl.outline := by
  induction ds with
  | nil => rfl
  | cons d ds ih => rw [declOutlines, ih, List.map_cons]

theorem TypeDecl.span_outline (d : TypeDecl) : d.outline.span = d.span := by
  cases d
  rfl

/-- The parts of a type declaration in the order of the grammar. -/
def TypeDecl.parts (d : TypeDecl) : List Outline :=
  d.attributes.map AttributeList.outline ++
    (leaf d.nameSpan :: (paramOutlines d.typeParams d.typeParamListSpan ++
      (d.baseList.map TypeExpr.outline ++ d.nested.map TypeDecl.outline)))

theorem TypeDecl.outline_eq (d : TypeDecl) : d.outline = node d.span d.parts := by
  cases d
  rw [outline, typeOutlines_eq_map, declOutlines_eq_map, parts]

/-- The outline of a using directive. -/
def UsingDirective.outline (u : UsingDirective) : Outline := node u.span [leaf u.targetSpan]

mutual

/-- The outline of a member of a file or namespace. -/
def Member.outline : Member → Outline
  | .type d => d.outline
  | .space ⟨_, nameSpan, _, usings, members, span, _⟩ =>
    node span (leaf nameSpan :: mix (usings.map UsingDirective.outline) (memberOutlines members))

/-- The outlines of members. -/
def memberOutlines : List Member → List Outline
  | [] => []
  | m :: ms => m.outline :: memberOutlines ms

end

theorem memberOutlines_eq_map (ms : List Member) :
    memberOutlines ms = ms.map Member.outline := by
  induction ms with
  | nil => rfl
  | cons m ms ih => rw [memberOutlines, ih, List.map_cons]

theorem Member.outline_space (n : NamespaceDecl) :
    (Member.space n).outline = node n.span (leaf n.nameSpan ::
      mix (n.usings.map UsingDirective.outline) (n.members.map Member.outline)) := by
  cases n
  rw [outline, memberOutlines_eq_map]

/-- The outlines of the directives and members of a file. -/
def SyntaxTree.outlines (t : SyntaxTree) : List Outline :=
  mix (t.usings.map UsingDirective.outline) (memberOutlines t.members)

/-- All spans of a tree: those of its parts, and those of the identifiers that its type declarations keep. -/
def SyntaxTree.spans (t : SyntaxTree) : List Span :=
  spansAll t.outlines ++ t.typeDecls.flatMap fun d => d.idents.map (·.span)

/-! ## Names -/

/-- The names that a type declaration introduces: its own and those of its parameters. -/
def TypeDecl.declared (d : TypeDecl) : List Ident :=
  ⟨d.name, d.nameSpan⟩ :: d.typeParams.map fun p => ⟨p.name, p.nameSpan⟩

/-- The names of a member: a namespace gives its own, then those of its members. -/
def Member.names : Member → List Ident
  | .type d => d.withNested.flatMap TypeDecl.declared
  | .space n => ⟨n.name, n.nameSpan⟩ :: n.members.attach.flatMap fun ⟨m, h⟩ =>
    have : sizeOf m < 1 + sizeOf n :=
      Nat.lt_trans (List.sizeOf_lt_of_mem h) (Nat.lt_add_left 1 n.sizeOf_members_lt)
    m.names
  termination_by m => sizeOf m
  decreasing_by simpa using this

theorem Member.names_type (d : TypeDecl) :
    (Member.type d).names = d.withNested.flatMap TypeDecl.declared := by
  rw [names]

theorem Member.names_space (n : NamespaceDecl) :
    (Member.space n).names = ⟨n.name, n.nameSpan⟩ :: n.members.flatMap Member.names := by
  rw [names]
  simp

/-- The names of all namespaces, type declarations and type parameters of a tree. -/
def SyntaxTree.names (t : SyntaxTree) : List Ident := t.members.flatMap Member.names

end SelfTypeLint
