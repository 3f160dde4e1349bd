import SelfTypeLint.Proofs.Layout.Step
import SelfTypeLint.Proofs.Walk.Types

/-!
# The layout of types

What is skipped, and what is read as a type or an attribute list, is decided by the kinds and texts of
tokens.
-/

namespace SelfTypeLint.Read

open Cursor Respelling

variable {α : Type} {c d : Cursor} {e : α → α}

/-! ## Skips -/

theorem layoutFree_skipBalanced (c : Cursor) : LayoutFree id skipBalanced skipBalanced c := by
  refine LayoutFree.next (layoutFree_get.2 ?_)
  rw [kind_token, ahead_bare, List.length_map, Grammar.balancedLength?_map]
  cases balancedLength? [c.current.kind.closer] c.bump.ahead with
  | some n => exact layoutFree_set (advance_bare _ n) (leads_advance n _)
  | none =>
    apply LayoutFree.set (advance_bare _ _) (leads_advance _ _)
    exact layoutFree_throw rfl

theorem layoutFree_skipArguments (c : Cursor) : LayoutFree id skipArguments skipArguments c := by
  refine layoutFree_get.2 (LayoutFree.ite (by rw [kind_bare]) (fun _ => ?_) fun _ => ?_)
  · exact layoutFree_skipBalanced c
  · exact layoutFree_pure rfl

theorem layoutFree_skipEnum (c : Cursor) : LayoutFree id skipEnum skipEnum c := by
  apply LayoutFree.modify (bump_bare c) (leads_bump c)
  refine LayoutFree.modify (skipWhile_bare _ fun _ => rfl) (leads_skipWhile _ _) (layoutFree_get.2 ?_)
  have hclose : ∀ d, LayoutFree id (modify (·.eat .semi) : Read PUnit) (modify (·.eat .semi)) d :=
    fun d => layoutFree_set (eat_bare d .semi) (leads_eat .semi d)
  refine LayoutFree.ite (by rw [kind_bare]) (fun _ => ?_) fun _ => hclose _
  exact (layoutFree_skipBalanced _).bind fun _ d _ _ => hclose d

theorem layoutFree_skipConstraints (n : Nat) (c : Cursor) :
    LayoutFree id (skipConstraints n) (skipConstraints n) c := by
  induction n generalizing c with
  | zero => exact layoutFree_pure rfl
  | succ n ih =>
    rw [skipConstraints]
    apply layoutFree_get.2
    rw [kind_bare]
    generalize c.kind = k
    split
    · exact layoutFree_pure rfl
    · exact layoutFree_pure rfl
    · exact layoutFree_pure rfl
    · exact layoutFree_pure rfl
    · exact (layoutFree_skipBalanced c).bind fun _ d _ _ => ih d
    · refine LayoutFree.ite (by rw [atWord_bare]) (fun _ => layoutFree_pure rfl) fun _ => ?_
      exact LayoutFree.set (bump_bare c) (leads_bump c) (ih c.bump)

theorem layoutFree_skipConstraintClauses (n : Nat) (c : Cursor) :
    LayoutFree id (skipConstraintClauses n) (skipConstraintClauses n) c := by
  induction n generalizing c with
  | zero => exact layoutFree_pure rfl
  | succ n ih =>
    rw [skipConstraintClauses]
    apply layoutFree_get.2
    refine LayoutFree.ite (by rw [atWord_bare]) (fun _ => ?_) fun _ => layoutFree_pure rfl
    apply LayoutFree.set (bump_bare c) (leads_bump c)
    rw [length_ahead_bare]
    exact (layoutFree_skipConstraints _ _).bind fun _ d _ _ => ih d

/-! ## Types -/

theorem commas_bare (c : Cursor) : c.bare.skipWhile (·.kind = .comma) =
    (c.skipWhile (·.kind = .comma)).bare := skipWhile_bare c fun _ => rfl

theorem layoutFree_suffixes (start n : Nat) (e : TypeExpr) (c : Cursor) :
    LayoutFree bare.typeExpr (suffixes start n e) (suffixes 0 n (bare.typeExpr e)) c := by
  induction n generalizing e c with
  | zero => exact layoutFree_pure rfl
  | succ n ih =>
    rw [suffixes, suffixes]
    apply layoutFree_get.2
    rw [kind_bare]
    generalize c.kind = k
    split
    · refine LayoutFree.set (bump_bare c) (leads_bump c) (LayoutFree.spanFrom ?_)
      exact ih _ _
    · refine LayoutFree.ite (by rw [peek_bare]) (fun _ => ?_) fun _ => layoutFree_pure rfl
      apply LayoutFree.set (bump_bare c) (leads_bump c)
      apply LayoutFree.modify (commas_bare _) (leads_skipWhile _ _)
      refine (layoutFree_expect _ _).bind fun _ d _ _ => LayoutFree.spanFrom ?_
      exact ih _ d
    · refine LayoutFree.ite (by rw [current_bare]; rfl) (fun _ => ?_) fun _ => layoutFree_pure rfl
      exact LayoutFree.set (bump_bare c) (leads_bump c) (ih e _)
    · exact layoutFree_pure rfl

theorem layoutFree_qualifier (c : Cursor) :
    LayoutFree (Prod.map id (List.map bare.segment)) qualifier qualifier c := by
  apply layoutFree_get.2
  refine LayoutFree.ite (by rw [peek_bare]) (fun _ => ?_) fun _ => layoutFree_pure rfl
  refine LayoutFree.next (LayoutFree.modify (bump_bare _) (leads_bump _) ?_)
  refine layoutFree_pure ?_
  rw [apply_ite (Prod.map id (List.map bare.segment))]
  rfl

/-- Holds of a number for which the readers of types do not see the layout. -/
structure TypesLayoutFree (n : Nat) : Prop where
  typeExpr : ∀ c, LayoutFree bare.typeExpr (typeExprWith n) (typeExprWith n) c
  elements : ∀ c, LayoutFree (List.map bare.typeExpr) (elementsWith n) (elementsWith n) c
  segments : ∀ c, LayoutFree (List.map bare.segment) (segmentsWith n) (segmentsWith n) c
  arguments : ∀ c, LayoutFree (List.map bare.typeExpr) (argumentsWith n) (argumentsWith n) c
  argumentList : ∀ c, LayoutFree (List.map bare.typeExpr) (argumentListWith n) (argumentListWith n) c

variable {n : Nat}

theorem TypesLayoutFree.atom (h : TypesLayoutFree n) (c : Cursor) :
    LayoutFree bare.typeExpr (Walk.atomOf n c) (Walk.atomOf n c.bare) c := by
  unfold Walk.atomOf
  dsimp only
  rw [kind_bare, current_bare]
  generalize c.kind = k
  split
  · exact LayoutFree.next (layoutFree_pure rfl)
  · apply LayoutFree.modify (bump_bare c) (leads_bump c)
    refine (h.elements _).bind fun es d _ _ => (layoutFree_expect _ _).bind fun _ d' _ _ => ?_
    refine LayoutFree.spanFrom (layoutFree_pure ?_)
    rw [Respelling.typeExpr, typeExprList_eq_map]
    rfl
  · refine (layoutFree_qualifier c).bind ?_
    rintro ⟨isGlobal, first⟩ d - -
    refine (h.segments d).bind fun more d' _ _ => layoutFree_get.2 (layoutFree_pure ?_)
    rw [Respelling.typeExpr, segmentList_eq_map, List.map_append]
    rfl
  · exact layoutFree_fail .type

theorem TypesLayoutFree.typeExpr_succ (h : TypesLayoutFree n) (c : Cursor) :
    LayoutFree bare.typeExpr (typeExprWith (n + 1)) (typeExprWith (n + 1)) c := by
  rw [Walk.typeExprWith_succ]
  refine layoutFree_get.2 ((h.atom c).bind fun e d _ _ => layoutFree_get.2 ?_)
  rw [length_ahead_bare, current_bare]
  exact layoutFree_suffixes _ _ e d

theorem TypesLayoutFree.elements_succ (h : TypesLayoutFree n) (c : Cursor) :
    LayoutFree (List.map bare.typeExpr) (elementsWith (n + 1)) (elementsWith (n + 1)) c := by
  rw [elementsWith]
  refine (h.typeExpr c).bind fun e d _ _ => ?_
  exact LayoutFree.modify (eat_bare d .ident) (leads_eat .ident d) (layoutFree_more rfl h.elements)

theorem TypesLayoutFree.argumentList_succ (h : TypesLayoutFree n) (c : Cursor) :
    LayoutFree (List.map bare.typeExpr) (argumentListWith (n + 1)) (argumentListWith (n + 1)) c := by
  rw [argumentListWith]
  exact (h.typeExpr c).bind fun e d _ _ => layoutFree_more rfl h.argumentList

theorem TypesLayoutFree.arguments_succ (h : TypesLayoutFree n) (c : Cursor) :
    LayoutFree (List.map bare.typeExpr) (argumentsWith (n + 1)) (argumentsWith (n + 1)) c := by
  rw [argumentsWith]
  refine layoutFree_get.2 (LayoutFree.ite (by rw [kind_bare]) (fun _ => layoutFree_pure rfl) fun _ => ?_)
  exact h.argumentList c

theorem TypesLayoutFree.argumentsAfter (h : TypesLayoutFree n) (t : Token) (c : Cursor) :
    LayoutFree bare.segment (Walk.argumentsAfter n t) (Walk.argumentsAfter n (bare.token t)) c := by
  apply layoutFree_get.2
  refine LayoutFree.ite (by rw [kind_bare]) (fun _ => ?_) fun _ => layoutFree_pure rfl
  refine LayoutFree.set (bump_bare c) (leads_bump c) ((h.arguments _).bind fun args d _ _ => ?_)
  apply LayoutFree.modify (commas_bare d) (leads_skipWhile _ d)
  refine (layoutFree_expect _ _).bind fun close d' _ _ => layoutFree_pure ?_
  rw [Respelling.segment, typeExprList_eq_map, current_bare]
  rfl

theorem TypesLayoutFree.segments_succ (h : TypesLayoutFree n) (c : Cursor) :
    LayoutFree (List.map bare.segment) (segmentsWith (n + 1)) (segmentsWith (n + 1)) c := by
  rw [Walk.segmentsWith_succ]
  refine (layoutFree_expect _ _).bind fun t d _ _ => (h.argumentsAfter t d).bind fun s d' _ _ => ?_
  apply layoutFree_get.2
  refine LayoutFree.ite (by rw [kind_bare, peek_bare]) (fun _ => ?_) fun _ => layoutFree_pure rfl
  apply LayoutFree.set (bump_bare d') (leads_bump d')
  exact (h.segments _).bind fun ss _ _ _ => layoutFree_pure rfl

theorem typesLayoutFree (n : Nat) : TypesLayoutFree n := by
  induction n with
  | zero =>
    exact ⟨fun _ => layoutFree_fail _, fun _ => layoutFree_fail _, fun _ => layoutFree_fail _,
      fun _ => layoutFree_fail _, fun _ => layoutFree_fail _⟩
  | succ n ih =>
    exact ⟨ih.typeExpr_succ, ih.elements_succ, ih.segments_succ, ih.arguments_succ,
      ih.argumentList_succ⟩

theorem layoutFree_typeExpr (c : Cursor) : LayoutFree bare.typeExpr typeExpr typeExpr c := by
  apply layoutFree_get.2
  rw [length_ahead_bare]
  exact (typesLayoutFree _).typeExpr c

/-! ## Attribute lists -/

theorem layoutFree_attributes (n : Nat) (c : Cursor) :
    LayoutFree (List.map bare.attr) (attributes n) (attributes n) c := by
  induction n generalizing c with
  | zero => exact layoutFree_pure rfl
  | succ n ih =>
    rw [attributes]
    apply layoutFree_get.2
    refine LayoutFree.ite (by rw [kind_bare]) (fun _ => layoutFree_pure rfl) fun _ => ?_
    refine (layoutFree_typeExpr c).bind fun name d _ _ => ?_
    refine (layoutFree_skipArguments d).bind fun _ d' _ _ => ?_
    rw [span_typeExpr]
    exact LayoutFree.spanFrom (layoutFree_more rfl ih)

theorem layoutFree_attributeTarget (c : Cursor) :
    LayoutFree id attributeTarget attributeTarget c := by
  apply layoutFree_get.2
  refine LayoutFree.ite (by rw [kind_bare, peek_bare]) (fun _ => ?_) fun _ => layoutFree_pure rfl
  refine LayoutFree.set (advance_bare c 2) (leads_advance 2 c) (layoutFree_pure ?_)
  rw [current_bare]
  rfl

theorem layoutFree_attributeListsWith (n : Nat) (c : Cursor) :
    LayoutFree (List.map bare.attributeList) (attributeListsWith n) (attributeListsWith n) c := by
  induction n generalizing c with
  | zero => exact layoutFree_pure rfl
  | succ n ih =>
    rw [attributeListsWith]
    apply layoutFree_get.2
    refine LayoutFree.ite (by rw [kind_bare]) (fun _ => ?_) fun _ => layoutFree_pure rfl
    apply LayoutFree.set (bump_bare c) (leads_bump c)
    refine (layoutFree_attributeTarget _).bind fun target d _ _ => ?_
    rw [length_ahead_bare]
    refine (layoutFree_attributes _ d).bind fun entries d' _ _ => ?_
    refine (layoutFree_expect _ _).bind fun close d'' _ _ => ?_
    refine (ih d'').bind fun ls _ _ _ => layoutFree_pure ?_
    rw [List.map_cons, attributeList_bare, current_bare]
    rfl

theorem layoutFree_attributeLists (c : Cursor) :
    LayoutFree (List.map bare.attributeList) attributeLists attributeLists c := by
  apply layoutFree_get.2
  rw [length_ahead_bare]
  exact layoutFree_attributeListsWith _ c

end SelfTypeLint.Read
