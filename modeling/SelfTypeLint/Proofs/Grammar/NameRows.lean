import SelfTypeLint.Proofs.Grammar.Rows
import SelfTypeLint.Proofs.Token.NameText

/-!
# Names of declarations among tokens

Namespaces, type declarations and type parameters have their names at tokens of their own. A type or a
type parameter is named by one identifier, a namespace by identifiers with dots between them.
-/

namespace SelfTypeLint.Grammar

open Token Outline

/-- Holds of a name that tokens in a row spell, as words joined by dots. -/
def Words (ts : List Token) (i : Ident) : Prop :=
  ∃ us, us <:+: ts ∧ DottedWords us ∧ i.span = spanOf us ∧
    i.name = ".".intercalate ((idents us).map (·.name))

theorem Words.mono {ts us : List Token} {i : Ident} (h : Words ts i) (hs : ts <:+: us) :
    Words us i := by
  obtain ⟨vs, hvs, hrest⟩ := h
  exact ⟨vs, hvs.trans hs, hrest⟩

/-- An identifier is a name of one word. -/
theorem words_of_mem_idents {ts : List Token} {i : Ident} (h : i ∈ idents ts) : Words ts i := by
  obtain ⟨t, ht, hk, rfl⟩ := mem_idents_iff.1 h
  obtain ⟨as, bs, rfl⟩ := List.append_of_mem ht
  refine ⟨[t], ⟨as, bs, by simp⟩, .word hk, rfl, ?_⟩
  rw [idents_cons_of_ident hk, idents_nil]
  rfl

theorem DottedForm.name_eq {name name' : String} {span span' : Span} {ts rest : List Token}
    (h : DottedForm name span ts rest name' span') :
    name' = ".".intercalate (name :: (idents ts).map (·.name)) := by
  induction h with
  | done _ => rfl
  | @more name _ _ _ d t _ _ hd ht _ ih =>
    rw [idents_cons_of_ne (t := d) (by simp [hd]), idents_cons_of_ident ht, ih]
    rfl

theorem DottedForm.dottedWords {name name' : String} {span span' : Span} {ts rest : List Token}
    (h : DottedForm name span ts rest name' span') {t : Token} (ht : t.kind = .ident) :
    DottedWords (t :: ts) := by
  induction h generalizing t with
  | done _ => exact .word ht
  | more hd hu _ ih => exact .dot ht hd (ih hu)

/-- The leaves of names. -/
def nameLeaves (is : List Ident) : List Outline := is.map fun i => leaf i.span

theorem nameLeaves_append (is js : List Ident) :
    nameLeaves (is ++ js) = nameLeaves is ++ nameLeaves js := List.map_append

/-- The name of a head and those of its type parameters stand in a row. -/
theorem HeaderForm.nameRow {ts rest : List Token} {h : Header} (hh : HeaderForm ts rest h) :
    Row ts (nameLeaves (h.name :: h.typeParams.map fun p => ⟨p.name, p.nameSpan⟩)) := by
  cases hh with
  | @mk ks ps gs bs ws rest n kind typeParams listSpan baseList _ _ params _ _ _ =>
    have hparams : Row ps (nameLeaves (typeParams.map fun p => ⟨p.name, p.nameSpan⟩)) := by
      rw [nameLeaves, List.map_map]
      cases params with
      | none _ => exact .nil []
      | @some o c ts _ _ _ list _ =>
        have hlist : Row ts (typeParams.map fun p => leaf p.nameSpan) := by
          refine list.row fun ts rest p hp => ?_
          cases hp with
          | @mk as vs rest n _ _ _ _ _ => exact ((row_leaf n).skip vs).skip as
        exact hlist.mono (show ts <:+: o :: (ts ++ [c]) from ⟨[o], [c], rfl⟩)
    have hrow := ((row_leaf n).skip ks).append (hparams.append (.nil (gs ++ (bs ++ ws))))
    rw [List.append_nil, List.append_assoc] at hrow
    exact hrow

mutual

/-- The names that a declaration and all nested ones introduce stand in a row. -/
theorem LooseDecl.nameRow {start : Nat} {attributes : List AttributeList} {modifiers : List String}
    {ts : List Token} {d : TypeDecl} :
    LooseDecl start attributes modifiers ts d →
      Row ts (nameLeaves (d.withNested.flatMap TypeDecl.declared))
  | @LooseDecl.mk _ _ _ ks bs _ header nested is head _ body _ => by
    rw [TypeDecl.withNested_eq, List.flatMap_cons, nameLeaves_append]
    exact head.nameRow.append body.nameRow

theorem LooseBody.nameRow {ts : List Token} {nested : List TypeDecl} :
    LooseBody ts nested →
      Row ts (nameLeaves ((nested.flatMap TypeDecl.withNested).flatMap TypeDecl.declared))
  | .nil ts => .nil ts
  | .skip ts tail => tail.nameRow.skip ts
  | @LooseBody.type as ms ds ts _ _ d nested _ decl tail => by
    rw [List.flatMap_cons, List.flatMap_append, nameLeaves_append]
    exact ((decl.nameRow.append tail.nameRow).skip ms).skip as

end

mutual

/-- The names of members stand in a row. -/
theorem LooseMembers.nameRow {slice : Span → String} {ts : List Token} {us : List UsingDirective}
    {ms : List Member} : LooseMembers slice ts us ms → Row ts (nameLeaves (ms.flatMap Member.names))
  | .nil ts => .nil ts
  | .skip ts tail => tail.nameRow.skip ts
  | .using _ tail => tail.nameRow.skip _
  | .type decl tail => by
    rw [List.flatMap_cons, Member.names_type, nameLeaves_append]
    refine Row.append ?_ tail.nameRow
    simpa using decl.nameRow
  | @LooseMembers.space _ as ns vs n us ms decl tail => by
    rw [List.flatMap_cons, nameLeaves_append]
    exact (decl.nameRow.append tail.nameRow).skip as

theorem LooseSpace.nameRow {slice : Span → String} {start : Nat} {ts : List Token}
    {n : NamespaceDecl} : LooseSpace slice start ts n → Row ts (nameLeaves (Member.space n).names)
  | @LooseSpace.mk _ _ k t o ns ts _ _ whole _ us ms _ dotted members => by
    have hname : Row (t :: ns) [leaf whole] := by
      rw [dotted.span_eq, show (⟨t.span.start, stopOf t.span.stop ns⟩ : Span) = spanOf (t :: ns) by
        simp [spanOf]]
      exact Row.node (.nil _) (by simp)
    rw [Member.names_space]
    exact (hname.append (members.nameRow.skip [o])).skip [k]

end

mutual

/-- Tokens spell every name of the members. -/
theorem LooseMembers.words {slice : Span → String} {ts : List Token} {us : List UsingDirective}
    {ms : List Member} {i : Ident} (hi : i ∈ ms.flatMap Member.names) :
    LooseMembers slice ts us ms → Words ts i
  | .nil ts => absurd hi (by simp)
  | .skip ts tail => (tail.words hi).mono (List.suffix_append ts _).isInfix
  | @LooseMembers.using _ ts vs _ _ _ _ _ tail =>
    (tail.words hi).mono (List.suffix_append ts vs).isInfix
  | @LooseMembers.type _ ts vs d us ms decl tail => by
    rw [List.flatMap_cons, Member.names_type] at hi
    rcases List.mem_append.1 hi with hi | hi
    · obtain ⟨e, he, hie⟩ := List.mem_flatMap.1 hi
      have hspelled := decl.spelledIn (e := e) (by simpa using he)
      have hmem := hspelled.placedIn.idents i (hspelled.declared_subset hie)
      exact (words_of_mem_idents hmem).mono (List.prefix_append ts vs).isInfix
    · exact (tail.words hi).mono (List.suffix_append ts vs).isInfix
  | @LooseMembers.space _ as ns vs n us ms decl tail => by
    rw [List.flatMap_cons] at hi
    rcases List.mem_append.1 hi with hi | hi
    · exact (decl.words hi).mono ⟨as, vs, by simp⟩
    · exact (tail.words hi).mono ⟨as ++ ns, [], by simp⟩

theorem LooseSpace.words {slice : Span → String} {start : Nat} {ts : List Token}
    {n : NamespaceDecl} {i : Ident} (hi : i ∈ (Member.space n).names) :
    LooseSpace slice start ts n → Words ts i
  | @LooseSpace.mk _ _ k t o ns ts _ _ whole _ us ms first dotted members => by
    rw [Member.names_space] at hi
    rcases List.mem_cons.1 hi with rfl | hi
    · refine ⟨t :: ns, ⟨[k], o :: ts, by simp⟩, dotted.dottedWords first, ?_, ?_⟩
      · simp [dotted.span_eq, spanOf]
      · rw [idents_cons_of_ident first]
        exact dotted.name_eq
    · exact (members.words hi).mono ⟨k :: t :: (ns ++ [o]), [], by simp⟩

end

/-- Names in a row among tokens stand at different places. -/
theorem Row.nodup_spans {offset : Nat} {ts : List Token} {is : List Ident}
    (hp : Placed offset ts) (h : Row ts (nameLeaves is)) : (is.map (·.span)).Nodup := by
  have hspans := h.spanIn
  have hrow := h.inRow hp
  clear h
  induction is with
  | nil => exact List.nodup_nil
  | cons i is ih =>
    obtain ⟨-, hafter, hrest⟩ := hrow
    have hi := ((hspans i.span (span_mem_spansAll List.mem_cons_self)).within hp).2.1
    refine List.nodup_cons.2 ⟨?_, ih (fun s hs => hspans s (List.mem_append_right _ hs)) hrest⟩
    intro hmem
    obtain ⟨j, hj, he⟩ := List.mem_map.1 hmem
    have := hafter (leaf j.span) (List.mem_map_of_mem hj)
    simp only [leaf, Outline.span, he] at this
    omega

end SelfTypeLint.Grammar
