import SelfTypeLint.Proofs.Layout.Types
import SelfTypeLint.Proofs.Walk.Declarations

/-!
# The layout of declarations

Heads and bodies of type declarations are read by the kinds and texts of tokens, and so is what is
reported and passed over between them.
-/

namespace SelfTypeLint.Read

open Cursor Respelling

variable {α : Type} {c d : Cursor} {e : α → α}

/-! ## Heads -/

theorem layoutFree_modifiers (c : Cursor) : LayoutFree id modifiers modifiers c := by
  apply layoutFree_get.2
  rw [ahead_bare, leadingModifiers_bare]
  exact LayoutFree.set (advance_bare c _) (leads_advance _ c) (layoutFree_pure rfl)

theorem atTypeDecl_bare (c : Cursor) : atTypeDecl c.bare = atTypeDecl c := by
  simp only [atTypeDecl, atRecord, kind_bare, atWord_bare, peek_bare]

theorem layoutFree_typeKind (c : Cursor) : LayoutFree id typeKind typeKind c := by
  apply LayoutFree.next
  rw [kind_token]
  generalize c.current.kind = k
  split
  · exact layoutFree_pure rfl
  · exact layoutFree_pure rfl
  · exact layoutFree_pure rfl
  · apply layoutFree_get.2
    refine LayoutFree.ite (by rw [kind_bare]) (fun _ => ?_) fun _ => ?_
    · exact LayoutFree.set (bump_bare _) (leads_bump _) (layoutFree_pure rfl)
    · refine LayoutFree.ite (by rw [kind_bare]) (fun _ => ?_) fun _ => layoutFree_pure rfl
      exact LayoutFree.set (bump_bare _) (leads_bump _) (layoutFree_pure rfl)

theorem layoutFree_variance (c : Cursor) :
    LayoutFree (Option.map fun (v, _) => (v, ⟨0, 0⟩)) variance variance c := by
  apply layoutFree_get.2
  rw [kind_bare, current_bare]
  generalize c.kind = k
  split
  · exact LayoutFree.set (bump_bare c) (leads_bump c) (layoutFree_pure rfl)
  · exact LayoutFree.set (bump_bare c) (leads_bump c) (layoutFree_pure rfl)
  · exact layoutFree_pure rfl

theorem layoutFree_typeParamList (n : Nat) (c : Cursor) :
    LayoutFree (List.map bare.typeParam) (typeParamList n) (typeParamList n) c := by
  induction n generalizing c with
  | zero => exact layoutFree_fail _
  | succ n ih =>
    rw [typeParamList]
    refine (layoutFree_attributeLists c).bind fun attributes d _ _ => layoutFree_get.2 ?_
    refine (layoutFree_variance d).bind fun variance d' _ _ => ?_
    refine (layoutFree_expect _ _).bind fun t d'' _ _ => layoutFree_more ?_ ih
    have hstart : ((attributes.map bare.attributeList).head?.map (·.span.start)).getD
        d.bare.current.span.start = 0 := by
      rw [current_bare]
      cases attributes <;> rfl
    rw [hstart]
    rfl

theorem layoutFree_typeParams (c : Cursor) :
    LayoutFree (Prod.map (List.map bare.typeParam) (Option.map bare.span)) typeParams typeParams c := by
  apply layoutFree_get.2
  refine LayoutFree.ite (by rw [kind_bare]) (fun _ => ?_) fun _ => layoutFree_pure rfl
  apply LayoutFree.set (bump_bare c) (leads_bump c)
  rw [length_ahead_bare]
  refine (layoutFree_typeParamList _ _).bind fun ps d _ _ => ?_
  refine (layoutFree_expect _ _).bind fun close d' _ _ => layoutFree_pure ?_
  rw [current_bare]
  rfl

theorem layoutFree_baseTypeList (n : Nat) (c : Cursor) :
    LayoutFree (List.map bare.typeExpr) (baseTypeList n) (baseTypeList n) c := by
  induction n generalizing c with
  | zero => exact layoutFree_fail _
  | succ n ih =>
    rw [baseTypeList]
    refine (layoutFree_typeExpr c).bind fun e d _ _ => ?_
    exact (layoutFree_skipArguments d).bind fun _ d' _ _ => layoutFree_more rfl ih

theorem layoutFree_baseTypes (c : Cursor) :
    LayoutFree (List.map bare.typeExpr) baseTypes baseTypes c := by
  refine (layoutFree_eat _).bind fun b d _ _ => ?_
  refine LayoutFree.ite Iff.rfl (fun _ => layoutFree_get.2 ?_) fun _ => layoutFree_pure rfl
  rw [length_ahead_bare]
  exact layoutFree_baseTypeList _ d

/-- A head is read without its layout if what follows it is. -/
theorem layoutFree_withHead
    {g g' : TypeKind → Token → List TypeParam → Option Span → List TypeExpr → Read α}
    (hg : ∀ kind t params span bases d, LayoutFree e (g kind t params span bases)
      (g' kind (bare.token t) (params.map bare.typeParam) (span.map bare.span)
        (bases.map bare.typeExpr)) d) (c : Cursor) : LayoutFree e (withHead g) (withHead g') c := by
  refine (layoutFree_typeKind c).bind fun kind d _ _ => ?_
  refine (layoutFree_expect _ _).bind fun t d _ _ => (layoutFree_typeParams d).bind ?_
  rintro ⟨params, span⟩ d - -
  refine (layoutFree_skipArguments d).bind fun _ d _ _ => ?_
  refine (layoutFree_baseTypes d).bind fun bases d _ _ => layoutFree_get.2 ?_
  rw [length_ahead_bare]
  exact (layoutFree_skipConstraintClauses _ d).bind fun _ d _ _ => hg kind t params span bases d

/-! ## Bodies -/

theorem layoutFree_closeBody (c : Cursor) : LayoutFree id closeBody closeBody c := by
  refine layoutFree_get.2 (LayoutFree.ite (by rw [kind_bare]) (fun _ => ?_) fun _ => ?_)
  · refine layoutFree_set ?_ ((leads_bump c).trans (leads_eat .semi _))
    rw [bump_bare, eat_bare]
  · refine layoutFree_set ?_ (leads_report c _)
    rw [unexpected_bare, report_bare]

theorem layoutFree_collecting {f g : Read α} (h : LayoutFree e f g { c with idents := [] }) :
    LayoutFree (Prod.map e (List.map bare.ident)) (collecting f) (collecting g) c := by
  obtain ⟨hrun, hleads⟩ := h
  have hbare : ({ c with idents := [] } : Cursor).bare = { c.bare with idents := [] } := rfl
  have hc : c.Leads { c with idents := [] } := leads_idents [] c
  rw [hbare] at hrun
  cases hf : f.run.run { c with idents := [] } with
  | mk r d =>
    rw [hf] at hrun hleads
    have hback := (hc.trans hleads).trans (leads_idents c.idents d)
    unfold LayoutFree LayoutFreeM
    -- The identifiers of before come back on both sides, also after a fault.
    cases r with
    | ok a =>
      rw [Walk.read_collecting_ok hf, Walk.read_collecting_ok hrun]
      refine ⟨?_, hback⟩
      simp only [Cursor.bare, ← List.map_reverse]
      rfl
    | error x =>
      rw [Walk.read_collecting_error hf, Walk.read_collecting_error hrun]
      exact ⟨rfl, hback⟩

/-- Holds of a number for which the readers of types and their bodies do not see the layout. -/
structure BodiesLayoutFree (n : Nat) : Prop where
  typeDecl : ∀ start attributes modifiers c,
    LayoutFree bare.typeDecl (typeDeclWith start attributes modifiers n)
      (typeDeclWith 0 (attributes.map bare.attributeList) modifiers n) c
  body : ∀ c, LayoutFreeM (List.map bare.typeDecl) (bodyWith n) (bodyWith n) c
  bodyMember : ∀ c,
    LayoutFree (Option.map bare.typeDecl) (bodyMemberWith n) (bodyMemberWith n) c

variable {n : Nat}

theorem BodiesLayoutFree.block (h : BodiesLayoutFree n) (c : Cursor) :
    LayoutFree (List.map bare.typeDecl) (withBlock n pure) (withBlock n pure) c := by
  apply layoutFree_get.2
  rw [kind_bare]
  generalize c.kind = k
  split
  · refine LayoutFree.set (bump_bare c) (leads_bump c) (LayoutFree.lift (h.body _) fun ds d _ => ?_)
    exact (layoutFree_closeBody d).bind fun _ d _ _ => layoutFree_pure rfl
  · exact LayoutFree.set (bump_bare c) (leads_bump c) (layoutFree_pure rfl)
  · exact (layoutFree_fail (e := List.map bare.typeDecl) _).bind fun ds d _ _ => layoutFree_pure rfl

/-- A block is read without its layout if what follows it is. -/
theorem BodiesLayoutFree.withNested (h : BodiesLayoutFree n) {g g' : List TypeDecl → Read α}
    (hg : ∀ nested d, LayoutFree e (g nested) (g' (nested.map bare.typeDecl)) d) (c : Cursor) :
    LayoutFree e (withBlock n g) (withBlock n g') c := by
  rw [Walk.withBlock_eq n g, Walk.withBlock_eq n g']
  exact (h.block c).bind fun nested d _ _ => hg nested d

theorem BodiesLayoutFree.typeDecl_succ (h : BodiesLayoutFree n) (start : Nat)
    (attributes : List AttributeList) (modifiers : List String) (c : Cursor) :
    LayoutFree bare.typeDecl (typeDeclWith start attributes modifiers (n + 1))
      (typeDeclWith 0 (attributes.map bare.attributeList) modifiers (n + 1)) c := by
  rw [typeDeclWith_succ, typeDeclWith_succ]
  have hdecl : LayoutFree bare.typeDecl
      (withHead fun kind t params span bases => withBlock n fun nested => do
        let header : Grammar.Header := ⟨kind, ⟨identName t.text, t.span⟩, params, span, bases⟩
        return header.declare attributes modifiers nested [] (← spanFrom start))
      (withHead fun kind t params span bases => withBlock n fun nested => do
        let header : Grammar.Header := ⟨kind, ⟨identName t.text, t.span⟩, params, span, bases⟩
        return header.declare (attributes.map bare.attributeList) modifiers nested []
          (← spanFrom 0)) { c with idents := [] } := by
    refine layoutFree_withHead (fun kind t params span bases d => ?_) _
    refine h.withNested (fun nested d => ?_) d
    refine LayoutFree.spanFrom (layoutFree_pure ?_)
    rw [typeDecl_declare, typeDeclList_eq_map, Respelling.header, typeExprList_eq_map]
    rfl
  refine (layoutFree_collecting hdecl).bind ?_
  rintro ⟨decl, idents⟩ d - -
  refine layoutFree_pure ?_
  cases decl
  rfl

theorem BodiesLayoutFree.bodyMember_succ (h : BodiesLayoutFree n) (c : Cursor) :
    LayoutFree (Option.map bare.typeDecl) (bodyMemberWith (n + 1)) (bodyMemberWith (n + 1)) c := by
  rw [bodyMemberWith]
  apply layoutFree_get.2
  rw [current_bare]
  refine (layoutFree_attributeLists c).bind fun attributes d _ _ => ?_
  refine (layoutFree_modifiers d).bind fun modifiers d _ _ => layoutFree_get.2 ?_
  refine LayoutFree.ite (by rw [atTypeDecl_bare]) (fun _ => ?_) fun _ => ?_
  · exact (h.typeDecl _ attributes modifiers d).bind fun decl d _ _ => layoutFree_pure rfl
  · rw [kind_bare]
    generalize d.kind = k
    split
    · exact (layoutFree_skipEnum d).bind fun _ d _ _ => layoutFree_pure rfl
    · exact LayoutFree.set (skipDelegate_bare d) (leads_skipDelegate d) (layoutFree_pure rfl)
    · exact LayoutFree.set (skipMember_bare d) (leads_skipMember d) (layoutFree_pure rfl)

theorem BodiesLayoutFree.entry (h : BodiesLayoutFree n) (c : Cursor) :
    LayoutFreeM (Option.map bare.typeDecl) (Walk.bodyEntryOf n) (Walk.bodyEntryOf n) c := by
  refine layoutFreeM_get.2 (LayoutFreeM.ite (by rw [kind_bare]) (fun _ => ?_) fun _ => ?_)
  · exact LayoutFreeM.set (bump_bare c) (leads_bump c) (layoutFreeM_pure rfl)
  · exact LayoutFreeM.bind_run (h.bodyMember c) (fun found d _ => layoutFreeM_pure rfl)
      fun x d _ => layoutFreeM_recover skipMember_bare leads_skipMember x rfl

theorem BodiesLayoutFree.body_succ (h : BodiesLayoutFree n) (c : Cursor) :
    LayoutFreeM (List.map bare.typeDecl) (bodyWith (n + 1)) (bodyWith (n + 1)) c := by
  rw [Walk.bodyWith_succ]
  apply layoutFreeM_get.2
  refine LayoutFreeM.ite (by rw [kind_bare]) (fun _ => layoutFreeM_pure rfl) fun _ => ?_
  refine (h.entry c).bind fun found d _ => (h.body d).bind fun ds d _ => layoutFreeM_pure ?_
  cases found <;> rfl

theorem bodiesLayoutFree (n : Nat) : BodiesLayoutFree n := by
  induction n with
  | zero =>
    exact ⟨fun _ _ _ _ => layoutFree_fail _, fun _ => layoutFreeM_pure rfl,
      fun _ => layoutFree_fail _⟩
  | succ n ih => exact ⟨ih.typeDecl_succ, ih.body_succ, ih.bodyMember_succ⟩

end SelfTypeLint.Read
