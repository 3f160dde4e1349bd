import SelfTypeLint.Proofs.Grammar.Files
import SelfTypeLint.Proofs.Token.Brackets

/-!
# Curly brackets in the grammar

What the grammar takes leaves no curly bracket open. Heads of declarations take one only inside of a
group, which ends with its own brackets. A member of a type that the tree does not keep may take too few
brackets where the brackets of a text are not well nested, so for members and what holds them the tokens
must go on to close all that is open.
-/

namespace SelfTypeLint.Grammar

open Token Read

/-! ## Types and attribute lists -/

theorem OptionalForm.shut {k : TokenKind} {ts rest : List Token} (h : OptionalForm k ts rest)
    (hk : k ≠ .lbrace) : Shut ts :=
  shut_of_forall fun t ht => by rwa [h.kind_eq t ht]

theorem Group.shut {o : Token} {ts : List Token} (ho : o.kind.isOpener = true)
    (h : Group o.kind.closer ts) : Shut (o :: ts) :=
  ((settles_of_balancedLength? h).cons (Int.le_of_eq (braceCount_opened ho []).symm)).shut

theorem GroupForm.shut {k : TokenKind} {ts rest : List Token} (h : GroupForm k ts rest)
    (hk : k.isOpener = true) : Shut ts := by
  cases h with
  | none _ => exact shut_nil
  | group opener group =>
    subst opener
    exact group.shut hk

theorem SuffixForm.shut {start : Nat} {e e' : TypeExpr} {ts rest : List Token}
    (h : SuffixForm start e ts rest e') : Shut ts := by
  induction h with
  | done _ => exact shut_nil
  | nullable question _ ih => exact ih.cons (by simp [question])
  | @array e e' o b cs ts rest opener commas closer _ ih =>
    have hcommas : Shut cs := shut_of_forall fun t ht => by simp [commas t ht]
    exact (hcommas.append (ih.cons (by simp [closer]))).cons (by simp [opener])
  | pointer op _ _ ih => exact ih.cons (by simp [op])

theorem QualifierForm.shut {ts rest : List Token} {isGlobal : Bool}
    {ss : List (NameSegment TypeExpr)} (h : QualifierForm ts rest isGlobal ss) : Shut ts := by
  cases h with
  | none _ => exact shut_nil
  | root word sign _ => exact shut_of_forall (by simp [word, sign])
  | word word sign _ => exact shut_of_forall (by simp [word, sign])

mutual

theorem AtomForm.shut {ts rest : List Token} {e : TypeExpr} : AtomForm ts rest e → Shut ts
  | .predefined word => shut_of_forall (by simp [word])
  | .tuple opener elements closer =>
    (elements.shut.append (shut_of_forall (by simp [closer]))).cons (by simp [opener])
  | .path qualifier segments => qualifier.shut.append segments.shut

theorem TypeForm.shut {ts rest : List Token} {e : TypeExpr} : TypeForm ts rest e → Shut ts
  | .mk atom suffixes => atom.shut.append suffixes.shut

theorem ElementsForm.shut {ts rest : List Token} {es : List TypeExpr} :
    ElementsForm ts rest es → Shut ts
  | .last type label _ => type.shut.append (label.shut (by simp))
  | .more type label comma tail =>
    type.shut.append ((label.shut (by simp)).append (tail.shut.cons (by simp [comma])))

theorem SegmentForm.shut {ts rest : List Token} {s : NameSegment TypeExpr} :
    SegmentForm ts rest s → Shut ts
  | .plain word _ => shut_of_forall (by simp [word])
  | @SegmentForm.generic _ _ c _ cs _ _ word opener arguments commas closer => by
    have hcommas : Shut cs := shut_of_forall fun t ht => by simp [commas t ht]
    have hcloser : Shut [c] := shut_of_forall (by simp [closer])
    exact ((arguments.shut.append (hcommas.append hcloser)).cons (by simp [opener])).cons
      (by simp [word])

theorem SegmentsForm.shut {ts rest : List Token} {ss : List (NameSegment TypeExpr)} :
    SegmentsForm ts rest ss → Shut ts
  | .last segment _ => segment.shut
  | .more segment dot tail => segment.shut.append (tail.shut.cons (by simp [dot]))

theorem ArgumentsForm.shut {ts rest : List Token} {es : List TypeExpr} :
    ArgumentsForm ts rest es → Shut ts
  | .none _ => shut_nil
  | .some list => list.shut

theorem TypeListForm.shut {ts rest : List Token} {es : List TypeExpr} :
    TypeListForm ts rest es → Shut ts
  | .last type _ => type.shut
  | .more type comma tail => type.shut.append (tail.shut.cons (by simp [comma]))

end

theorem AttributesForm.shut {ts rest : List Token} {as : List Attribute}
    (h : AttributesForm ts rest as) : Shut ts := by
  induction h with
  | none _ => exact shut_nil
  | last type call _ => exact type.shut.append (call.shut rfl)
  | more type call comma _ ih =>
    exact type.shut.append ((call.shut rfl).append (ih.cons (by simp [comma])))

theorem AttributeListsForm.shut {ts rest : List Token} {ls : List AttributeList}
    (h : AttributeListsForm ts rest ls) : Shut ts := by
  induction h with
  | none _ => exact shut_nil
  | @cons o c ts us vs rest target as ls opener head attributes closer _ ih =>
    have hhead : Shut ts := by
      cases head with
      | none _ => exact shut_nil
      | word word sign => exact shut_of_forall (by simp [word, sign])
    have htail : Shut (c :: vs) := ih.cons (by simp [closer])
    exact (hhead.append (attributes.shut.append htail)).cons (by simp [opener])

/-! ## Heads of declarations -/

theorem ModifiersForm.shut {ts rest : List Token} (h : ModifiersForm ts rest) : Shut ts := by
  refine shut_of_forall ?_
  induction ts with
  | nil => simp
  | cons t ts ih =>
    rw [ModifiersForm, List.cons_append, leadingModifiers] at h
    split at h
    · next hk =>
      refine List.forall_mem_cons.2 ⟨?_, ih (List.cons.inj h).2⟩
      intro ht
      simp [ht] at hk
    · exact absurd h (by simp)

theorem shut_of_wordAt {word : String} {t : Token} (h : wordAt word [t] = true) : Shut [t] :=
  shut_of_forall (by simp [kind_of_wordAt h])

theorem KindForm.shut {ts rest : List Token} {kind : TypeKind} (h : KindForm ts rest kind) :
    Shut ts := by
  cases h with
  | classType word => exact shut_of_forall (by simp [word])
  | structType word => exact shut_of_forall (by simp [word])
  | interfaceType word => exact shut_of_forall (by simp [word])
  | record word _ => exact shut_of_wordAt word
  | recordClass word second =>
    exact (shut_of_wordAt word).append (shut_of_forall (by simp [second]))
  | recordStruct word second =>
    exact (shut_of_wordAt word).append (shut_of_forall (by simp [second]))

theorem ListForm.shut {α : Type} {form : List Token → List Token → α → Prop}
    (hitem : ∀ ts rest a, form ts rest a → Shut ts) {ts rest : List Token} {as : List α}
    (h : ListForm form ts rest as) : Shut ts := by
  induction h with
  | last item _ => exact hitem _ _ _ item
  | more item comma _ ih => exact (hitem _ _ _ item).append (ih.cons (by simp [comma]))

theorem ParamForm.shut {ts rest : List Token} {p : TypeParam} (h : ParamForm ts rest p) : Shut ts := by
  cases h with
  | @mk as vs rest n attributes variance attributesForm varianceForm word =>
    have hvariance : Shut (vs ++ [n]) := by
      cases varianceForm with
      | none _ => exact shut_of_forall (by simp [word])
      | contravariant variance => exact shut_of_forall (by simp [variance, word])
      | covariant variance => exact shut_of_forall (by simp [variance, word])
    exact attributesForm.shut.append hvariance

theorem ParamsForm.shut {ts rest : List Token} {ps : List TypeParam} {span : Option Span}
    (h : ParamsForm ts rest ps span) : Shut ts := by
  cases h with
  | none _ => exact shut_nil
  | some opener list closer =>
    have hlist := list.shut fun _ _ _ h => ParamForm.shut h
    exact (hlist.append (shut_of_forall (by simp [closer]))).cons (by simp [opener])

theorem BaseForm.shut {ts rest : List Token} {e : TypeExpr} (h : BaseForm ts rest e) : Shut ts := by
  cases h with
  | mk type call => exact type.shut.append (call.shut rfl)

theorem BasesForm.shut {ts rest : List Token} {es : List TypeExpr} (h : BasesForm ts rest es) :
    Shut ts := by
  cases h with
  | none _ => exact shut_nil
  | some colon list => exact (list.shut fun _ _ _ h => BaseForm.shut h).cons (by simp [colon])

theorem ClauseForm.shut {ts rest : List Token} (h : ClauseForm ts rest) : Shut ts := by
  induction h with
  | done _ => exact shut_nil
  | @group o us ts rest opener group _ ih =>
    have hgroup : Group o.kind.closer us := by
      rw [opener]
      exact group
    exact (hgroup.shut (by rw [opener]; rfl)).append ih
  | token inside _ _ ih => exact ih.cons fun hk => inside (.inl hk)

theorem ConstraintsForm.shut {ts rest : List Token} (h : ConstraintsForm ts rest) : Shut ts := by
  induction h with
  | none _ => exact shut_nil
  | cons word clause _ ih => exact (shut_of_wordAt word).append (clause.shut.append ih)

theorem HeaderForm.shut {ts rest : List Token} {h : Header} (hh : HeaderForm ts rest h) : Shut ts := by
  cases hh with
  | mk kindForm word params call bases constraints =>
    have htail := params.shut.append ((call.shut rfl).append (bases.shut.append constraints.shut))
    exact kindForm.shut.append (htail.cons (by simp [word]))

/-! ## Members and bodies -/

theorem StatementForm.shut {ts rest : List Token} (h : StatementForm ts rest)
    (hc : Completes (ts ++ rest)) : Shut ts := by
  obtain ⟨stack, hc⟩ := hc
  exact (@settles_of_statementLength [] stack ts rest hc h).shut

theorem PlainForm.shut {ts rest : List Token} (h : PlainForm ts rest)
    (hc : Completes (ts ++ rest)) : Shut ts := by
  obtain ⟨stack, hc⟩ := hc
  exact (@settles_of_memberLength [] stack ts rest hc h).shut

theorem EnumForm.shut {ts rest : List Token} (h : EnumForm ts rest) : Shut ts := by
  cases h with
  | mk word head _ group semi =>
    have hhead := shut_of_forall fun t ht => (head t ht).1
    exact (hhead.append ((group.shut rfl).append (semi.shut (by simp)))).cons (by simp [word])

theorem OtherForm.shut {ts rest : List Token} {is : List Ident} (h : OtherForm ts rest is)
    (hc : Completes (ts ++ rest)) : Shut ts := by
  cases h with
  | enum form => exact form.shut
  | delegate _ form => exact form.shut hc
  | plain _ _ _ form => exact form.shut hc

mutual

/-- A type declaration leaves no curly bracket open. -/
theorem DeclForm.shut {start : Nat} {attributes : List AttributeList} {modifiers : List String}
    {ts rest : List Token} {d : TypeDecl} (hc : Completes (ts ++ rest)) :
    DeclForm start attributes modifiers ts rest d → Shut ts
  | .mk head block => by
    rw [List.append_assoc] at hc
    exact head.shut.append (block.shut hc.of_append)

theorem BlockForm.shut {ts rest : List Token} {nested : List TypeDecl} {is : List Ident}
    (hc : Completes (ts ++ rest)) : BlockForm ts rest nested is → Shut ts
  | .semi semi => shut_of_forall (by simp [semi])
  | .braces _ body closer semi => by
    rw [List.cons_append, List.append_assoc, List.cons_append] at hc
    exact (body.shut hc.of_cons).braces closer (semi.shut (by simp))

theorem BodyForm.shut {ts rest : List Token} {nested : List TypeDecl} {is : List Ident}
    (hc : Completes (ts ++ rest)) : BodyForm ts rest nested is → Shut ts
  | .done _ => shut_nil
  | .semi semi tail => (tail.shut hc.of_cons).cons (by simp [semi])
  | .type _ attributesForm modifiers decl tail => by
    simp only [List.append_assoc] at hc
    have hdecl := hc.of_append.of_append
    exact attributesForm.shut.append (modifiers.shut.append
      ((decl.shut hdecl).append (tail.shut hdecl.of_append)))
  | .other _ attributesForm modifiers member tail => by
    simp only [List.append_assoc] at hc
    have hmember := hc.of_append.of_append
    exact attributesForm.shut.append (modifiers.shut.append
      ((member.shut hmember).append (tail.shut hmember.of_append)))

end

/-! ## Files -/

theorem UsingForm.shut {slice : Span → String} {ts rest : List Token} {u : UsingDirective}
    (h : UsingForm slice ts rest u) : Shut ts := by
  cases h with
  | @mk gs ks ts rest w s _ _ _ e global word kindForm target semi =>
    have hglobal : Shut gs := by
      cases global with
      | none => exact shut_nil
      | word word => exact shut_of_wordAt word
    have hkind : Shut ks := by
      cases kindForm with
      | members word => exact shut_of_forall (by simp [word])
      | aliased word sign => exact shut_of_forall (by simp [word, sign])
      | space _ _ => exact shut_nil
    have hend := target.shut.append (shut_of_forall (by simp [semi]) : Shut [s])
    exact hglobal.append ((hkind.append hend).cons (by simp [word]))

theorem DottedForm.shut {name name' : String} {span span' : Span} {ts rest : List Token}
    (h : DottedForm name span ts rest name' span') : Shut ts := by
  induction h with
  | done _ => exact shut_nil
  | more dot word _ ih => exact (ih.cons (by simp [word])).cons (by simp [dot])

mutual

/-- The members of a file or namespace leave no curly bracket open. -/
theorem MembersForm.shut {slice : Span → String} {ts rest : List Token}
    {us : List UsingDirective} {ms : List Member} {is : List Ident} (hc : Completes (ts ++ rest)) :
    MembersForm slice ts rest us ms is → Shut ts
  | .done _ => shut_nil
  | .semi semi tail => (tail.shut hc.of_cons).cons (by simp [semi])
  | .using directive tail => by
    rw [List.append_assoc] at hc
    exact directive.shut.append (tail.shut hc.of_append)
  | .external _ form tail => by
    rw [List.append_assoc] at hc
    exact (form.shut hc).append (tail.shut hc.of_append)
  | .member _ member tail => by
    rw [List.append_assoc] at hc
    exact (member.shut hc).append (tail.shut hc.of_append)

theorem FileMemberForm.shut {slice : Span → String} {ts rest : List Token} {m : Option Member}
    {is : List Ident} (hc : Completes (ts ++ rest)) : FileMemberForm slice ts rest m is → Shut ts
  | .type attributesForm modifiers decl => by
    simp only [List.append_assoc] at hc
    exact attributesForm.shut.append (modifiers.shut.append (decl.shut hc.of_append.of_append))
  | .space attributesForm modifiers space => by
    simp only [List.append_assoc] at hc
    exact attributesForm.shut.append (modifiers.shut.append (space.shut hc.of_append.of_append))
  | .enum attributesForm modifiers enum =>
    attributesForm.shut.append (modifiers.shut.append enum.shut)
  | .delegate attributesForm modifiers _ form => by
    simp only [List.append_assoc] at hc
    exact attributesForm.shut.append (modifiers.shut.append (form.shut hc.of_append.of_append))
  | .attributes attributesForm _ _ _ _ => attributesForm.shut

theorem SpaceForm.shut {slice : Span → String} {start : Nat} {ts rest : List Token}
    {n : NamespaceDecl} {is : List Ident} (hc : Completes (ts ++ rest)) :
    SpaceForm slice start ts rest n is → Shut ts
  | .file word first dotted semi members => by
    simp only [List.cons_append, List.append_assoc] at hc
    have hmembers := members.shut hc.of_cons.of_cons.of_append.of_cons
    exact ((dotted.shut.append (hmembers.cons (by simp [semi]))).cons (by simp [first])).cons
      (by simp [word])
  | .braces word first dotted _ members closer semi => by
    simp only [List.cons_append, List.append_assoc] at hc
    have hmembers := members.shut hc.of_cons.of_cons.of_append.of_cons
    exact ((dotted.shut.append (hmembers.braces closer (semi.shut (by simp)))).cons
      (by simp [first])).cons (by simp [word])

end

end SelfTypeLint.Grammar
