import SelfTypeLint.Proofs.Grammar.Owners
import SelfTypeLint.Proofs.Tree.Outline

/-!
# The grammar of files with faults

Where a text has faults, the reader passes over tokens until it finds something that it knows. What it
keeps is still spelled by tokens: `LooseMembers slice ts us ms` says that the tokens `ts` spell the
using directives `us` and the members `ms` in their order, with any other tokens in between. Only
bodies are loose; the head of a declaration is kept whole or not at all. No identifier is kept twice.
-/

namespace SelfTypeLint.Grammar

open Token

/-- Holds of identifiers met among tokens: they are kept in their order, and none of them stands in one
of the nested declarations. -/
structure Met (ts : List Token) (is : List Ident) (nested : List TypeDecl) : Prop where
  inOrder : is.Sublist (idents ts)
  apart : (is ++ identsOf nested).Subperm (idents ts)

theorem met_of_sublist {ts : List Token} {is : List Ident} (h : is.Sublist (idents ts)) :
    Met ts is [] :=
  ⟨h, by simpa using h.subperm⟩

theorem Met.append {ts us : List Token} {is js : List Ident} {nested nested' : List TypeDecl}
    (h : Met ts is nested) (h' : Met us js nested') :
    Met (ts ++ us) (is ++ js) (nested ++ nested') where
  inOrder := by
    rw [idents_append]
    exact h.inOrder.append h'.inOrder
  apart := by
    have hswap : (is ++ js ++ identsOf (nested ++ nested')).Perm
        (is ++ identsOf nested ++ (js ++ identsOf nested')) := by
      rw [identsOf_append, List.append_assoc, List.append_assoc, ← List.append_assoc js,
        ← List.append_assoc (identsOf nested)]
      exact (List.perm_append_comm.append_right _).append_left is
    rw [idents_append]
    exact hswap.subperm.trans (List.Subperm.append h.apart h'.apart)

mutual

/-- A type declaration from the word that says its kind, with a body that may hold any tokens. -/
inductive LooseDecl : Nat → List AttributeList → List String → List Token → TypeDecl → Prop
  | mk {start : Nat} {attributes : List AttributeList} {modifiers : List String}
      {hs bs rest : List Token} {header : Header} {nested : List TypeDecl} {is : List Ident}
      (head : HeaderForm hs rest header) (some : bs ≠ []) (body : LooseBody bs nested)
      (met : Met bs is nested) :
      LooseDecl start attributes modifiers (hs ++ bs)
        (header.declare attributes modifiers nested (idents hs ++ is) ⟨start, stopOf 0 bs⟩)

/-- Type declarations among other tokens. -/
inductive LooseBody : List Token → List TypeDecl → Prop
  | nil (ts : List Token) : LooseBody ts []
  | skip (ts : List Token) {us : List Token} {nested : List TypeDecl} (tail : LooseBody us nested) :
      LooseBody (ts ++ us) nested
  | type {as ms ds ts rest : List Token} {attributes : List AttributeList} {d : TypeDecl}
      {nested : List TypeDecl} (attributesForm : AttributeListsForm as rest attributes)
      (decl : LooseDecl (startOf (as ++ (ms ++ ds))) attributes (ms.map (·.text)) ds d)
      (tail : LooseBody ts nested) : LooseBody (as ++ (ms ++ (ds ++ ts))) (d :: nested)

end

mutual

/-- Using directives and members among other tokens. -/
inductive LooseMembers (slice : Span → String) : List Token → List UsingDirective → List Member →
    Prop
  | nil (ts : List Token) : LooseMembers slice ts [] []
  | skip (ts : List Token) {vs : List Token} {us : List UsingDirective} {ms : List Member}
      (tail : LooseMembers slice vs us ms) : LooseMembers slice (ts ++ vs) us ms
  | using {ts vs rest : List Token} {u : UsingDirective} {us : List UsingDirective}
      {ms : List Member} (directive : UsingForm slice ts rest u)
      (tail : LooseMembers slice vs us ms) : LooseMembers slice (ts ++ vs) (u :: us) ms
  | type {ts vs : List Token} {d : TypeDecl} {us : List UsingDirective} {ms : List Member}
      (decl : LooseBody ts [d]) (tail : LooseMembers slice vs us ms) :
      LooseMembers slice (ts ++ vs) us (.type d :: ms)
  | space {as ns vs : List Token} {n : NamespaceDecl} {us : List UsingDirective} {ms : List Member}
      (space : LooseSpace slice (startOf (as ++ ns)) ns n) (tail : LooseMembers slice vs us ms) :
      LooseMembers slice (as ++ (ns ++ vs)) us (.space n :: ms)

/-- A namespace from its keyword, with members among other tokens. -/
inductive LooseSpace (slice : Span → String) : Nat → List Token → NamespaceDecl → Prop
  | mk {start : Nat} (k : Token) {t : Token} (o : Token) {ns ts rest : List Token} {name : String}
      {span : Span} (fileScoped : Bool) {us : List UsingDirective} {ms : List Member}
      (first : t.kind = .ident) (dotted : DottedForm (identName t.text) t.span ns rest name span)
      (members : LooseMembers slice ts us ms) :
      LooseSpace slice start (k :: t :: (ns ++ o :: ts))
        { name, nameSpan := span, fileScoped, usings := us, members := ms
          span := ⟨start, stopOf o.span.stop ts⟩, bodyStart := o.span.stop }

end

theorem LooseDecl.ne_nil {start : Nat} {attributes : List AttributeList} {modifiers : List String}
    {ts : List Token} {d : TypeDecl} (h : LooseDecl start attributes modifiers ts d) : ts ≠ [] := by
  cases h with
  | mk head _ _ _ =>
    intro hnil
    have := head.two_le_length
    simp [(List.append_eq_nil_iff.1 hnil).1] at this

theorem LooseSpace.ne_nil {slice : Span → String} {start : Nat} {ts : List Token}
    {n : NamespaceDecl} (h : LooseSpace slice start ts n) : ts ≠ [] := by
  cases h
  simp

theorem LooseBody.append {ts us : List Token} {nested nested' : List TypeDecl} :
    LooseBody ts nested → LooseBody us nested' → LooseBody (ts ++ us) (nested ++ nested')
  | .nil ts, h => .skip ts h
  | .skip ts tail, h => by
    rw [List.append_assoc]
    exact .skip ts (tail.append h)
  | .type attributesForm decl tail, h => by
    simp only [List.append_assoc, List.cons_append]
    exact .type attributesForm decl (tail.append h)

theorem LooseMembers.append {slice : Span → String} {ts vs : List Token}
    {us us' : List UsingDirective} {ms ms' : List Member} :
    LooseMembers slice ts us ms → LooseMembers slice vs us' ms' →
      LooseMembers slice (ts ++ vs) (us ++ us') (ms ++ ms')
  | .nil ts, h => .skip ts h
  | .skip ts tail, h => by
    rw [List.append_assoc]
    exact .skip ts (tail.append h)
  | .using directive tail, h => by
    rw [List.append_assoc]
    exact .using directive (tail.append h)
  | .type decl tail, h => by
    rw [List.append_assoc]
    exact .type decl (tail.append h)
  | .space decl tail, h => by
    rw [List.append_assoc, List.append_assoc]
    exact .space decl (tail.append h)

/-! ## Identifiers kept -/

/-- A declaration keeps identifiers of its tokens in their order. -/
theorem LooseDecl.idents_sublist {start : Nat} {attributes : List AttributeList}
    {modifiers : List String} {ts : List Token} {d : TypeDecl}
    (h : LooseDecl start attributes modifiers ts d) : d.idents.Sublist (idents ts) := by
  cases h with
  | @mk _ _ _ hs bs _ header nested is head _ _ met =>
    rw [idents_append]
    exact (List.Sublist.refl _).append met.inOrder

/-- A declaration and those nested in it keep no identifier of its tokens twice. -/
theorem LooseDecl.subperm {start : Nat} {attributes : List AttributeList} {modifiers : List String}
    {ts : List Token} {d : TypeDecl} (h : LooseDecl start attributes modifiers ts d) :
    (d.idents ++ identsOf d.nested).Subperm (idents ts) := by
  cases h with
  | @mk _ _ _ hs bs _ header nested is head _ _ met =>
    show (idents hs ++ is ++ identsOf nested).Subperm (idents (hs ++ bs))
    rw [idents_append, List.append_assoc]
    exact List.Subperm.append (List.Subperm.refl _) met.apart

theorem subperm_idents_of_infix {is : List Ident} {ts us : List Token} (h : is.Subperm (idents ts))
    (hs : ts <:+: us) : is.Subperm (idents us) := by
  obtain ⟨as, bs, rfl⟩ := hs
  refine h.trans (List.Sublist.subperm ?_)
  rw [idents_append, idents_append]
  exact (List.sublist_append_right _ _).trans (List.sublist_append_left _ _)

theorem LooseBody.subperm {ts : List Token} {nested : List TypeDecl} :
    LooseBody ts nested → (identsOf nested).Subperm (idents ts)
  | .nil ts => List.nil_subperm
  | .skip ts tail => subperm_idents_of_infix tail.subperm ⟨ts, [], by simp⟩
  | @LooseBody.type as ms ds ts _ _ d nested _ decl tail => by
    rw [identsOf_cons]
    have hall := List.Subperm.append decl.subperm tail.subperm
    rw [← idents_append] at hall
    exact subperm_idents_of_infix hall ⟨as ++ ms, [], by simp⟩

mutual

/-- No identifier of a text is kept twice by the declarations of its members. -/
theorem LooseMembers.subperm {slice : Span → String} {ts : List Token} {us : List UsingDirective}
    {ms : List Member} : LooseMembers slice ts us ms → (memberIdents ms).Subperm (idents ts)
  | .nil ts => List.nil_subperm
  | .skip ts tail => subperm_idents_of_infix tail.subperm ⟨ts, [], by simp⟩
  | @LooseMembers.using _ ts _ _ _ _ _ _ tail =>
    subperm_idents_of_infix tail.subperm ⟨ts, [], by simp⟩
  | @LooseMembers.type _ ts vs d us ms decl tail => by
    rw [← List.singleton_append, memberIdents_append, memberIdents_type, idents_append]
    refine List.Subperm.append ?_ tail.subperm
    simpa [identsOf_cons] using decl.subperm
  | @LooseMembers.space _ as ns vs n us ms decl tail => by
    rw [← List.singleton_append, memberIdents_append, memberIdents_space, ← List.append_assoc]
    have hall := List.Subperm.append decl.subperm tail.subperm
    rw [← idents_append] at hall
    exact subperm_idents_of_infix hall ⟨as, [], by simp⟩

theorem LooseSpace.subperm {slice : Span → String} {start : Nat} {ts : List Token}
    {n : NamespaceDecl} :
    LooseSpace slice start ts n → (memberIdents n.members).Subperm (idents ts)
  | @LooseSpace.mk _ _ k t o ns ts _ _ _ _ _ _ _ _ members =>
    subperm_idents_of_infix members.subperm ⟨k :: t :: (ns ++ [o]), [], by simp⟩

end

/-! ## What is spelled -/

/-- Holds of a declaration that some of the tokens spell, with any tokens in its body and with those in
front where it begins. -/
def SpelledIn (ts : List Token) (d : TypeDecl) : Prop :=
  ∃ as us attributes modifiers, as ++ us <:+: ts ∧
    LooseDecl (startOf (as ++ us)) attributes modifiers us d

theorem SpelledIn.mono {ts us : List Token} {d : TypeDecl} (h : SpelledIn us d) (hs : us <:+: ts) :
    SpelledIn ts d := by
  obtain ⟨as, vs, attributes, modifiers, hvs, hdecl⟩ := h
  exact ⟨as, vs, attributes, modifiers, hvs.trans hs, hdecl⟩

mutual

/-- A declaration and those nested in it are spelled in its tokens. -/
theorem LooseDecl.spelledIn {start : Nat} {as : List Token} {attributes : List AttributeList}
    {modifiers : List String} {ts : List Token} {d e : TypeDecl} (he : e ∈ d.withNested)
    (hstart : start = startOf (as ++ ts)) :
    LooseDecl start attributes modifiers ts d → SpelledIn (as ++ ts) e
  | @LooseDecl.mk _ _ _ hs bs _ header nested is head hne body met => by
    rw [TypeDecl.withNested_eq] at he
    rcases List.mem_cons.1 he with rfl | he
    · subst hstart
      exact ⟨as, hs ++ bs, _, _, List.infix_rfl, .mk head hne body met⟩
    · exact (body.spelledIn he).mono ⟨as ++ hs, [], by simp⟩

theorem LooseBody.spelledIn {ts : List Token} {nested : List TypeDecl} {e : TypeDecl}
    (he : e ∈ nested.flatMap TypeDecl.withNested) : LooseBody ts nested → SpelledIn ts e
  | .nil ts => absurd he (by simp)
  | .skip ts tail => (tail.spelledIn he).mono (List.suffix_append ts _).isInfix
  | @LooseBody.type as ms ds ts _ _ d nested _ decl tail => by
    rw [List.flatMap_cons] at he
    rcases List.mem_append.1 he with he | he
    · exact (decl.spelledIn he (show _ = startOf (as ++ ms ++ ds) by simp)).mono ⟨[], ts, by simp⟩
    · exact (tail.spelledIn he).mono ⟨as ++ (ms ++ ds), [], by simp⟩

end

mutual

/-- The declarations of members are spelled in their tokens. -/
theorem LooseMembers.spelledIn {slice : Span → String} {ts : List Token} {us : List UsingDirective}
    {ms : List Member} {e : TypeDecl} (he : e ∈ ms.flatMap Member.typeDecls) :
    LooseMembers slice ts us ms → SpelledIn ts e
  | .nil ts => absurd he (by simp)
  | .skip ts tail => (tail.spelledIn he).mono (List.suffix_append ts _).isInfix
  | @LooseMembers.using _ ts _ _ _ _ _ _ tail =>
    (tail.spelledIn he).mono (List.suffix_append ts _).isInfix
  | @LooseMembers.type _ ts vs d us ms decl tail => by
    rw [List.flatMap_cons] at he
    rcases List.mem_append.1 he with he | he
    · have hd : e ∈ [d].flatMap TypeDecl.withNested := by
        simpa [Member.typeDecls_type] using he
      exact (decl.spelledIn hd).mono (List.prefix_append ts vs).isInfix
    · exact (tail.spelledIn he).mono (List.suffix_append ts vs).isInfix
  | @LooseMembers.space _ as ns vs n us ms decl tail => by
    rw [List.flatMap_cons] at he
    rcases List.mem_append.1 he with he | he
    · rw [Member.typeDecls_space] at he
      exact (decl.spelledIn he).mono ⟨as, vs, by simp⟩
    · exact (tail.spelledIn he).mono ⟨as ++ ns, [], by simp⟩

theorem LooseSpace.spelledIn {slice : Span → String} {start : Nat} {ts : List Token}
    {n : NamespaceDecl} {e : TypeDecl} (he : e ∈ n.members.flatMap Member.typeDecls) :
    LooseSpace slice start ts n → SpelledIn ts e
  | @LooseSpace.mk _ _ k t o ns ts _ _ _ _ _ _ _ _ members =>
    (members.spelledIn he).mono ⟨k :: t :: (ns ++ [o]), [], by simp⟩

end

theorem UsingForm.spanIn {slice : Span → String} {ts rest : List Token} {u : UsingDirective}
    (h : UsingForm slice ts rest u) : SpanIn ts u.span := by
  cases h
  exact ⟨_, List.infix_rfl, by simp, rfl⟩

mutual

/-- The using directives of members stand at their tokens. -/
theorem LooseMembers.spanIn_usings {slice : Span → String} {ts : List Token}
    {us : List UsingDirective} {ms : List Member} {u : UsingDirective}
    (hu : u ∈ us ++ ms.flatMap Member.allUsings) : LooseMembers slice ts us ms → SpanIn ts u.span
  | .nil ts => absurd hu (by simp)
  | .skip ts tail => (tail.spanIn_usings hu).mono (List.suffix_append ts _).isInfix
  | @LooseMembers.using _ ts vs _ v us ms directive tail => by
    rw [List.cons_append] at hu
    rcases List.mem_cons.1 hu with rfl | hu
    · exact directive.spanIn.mono (List.prefix_append ts vs).isInfix
    · exact (tail.spanIn_usings hu).mono (List.suffix_append ts vs).isInfix
  | @LooseMembers.type _ ts vs d us ms decl tail => by
    rw [List.flatMap_cons, Member.allUsings_type, List.nil_append] at hu
    exact (tail.spanIn_usings hu).mono (List.suffix_append ts vs).isInfix
  | @LooseMembers.space _ as ns vs n us ms decl tail => by
    rw [List.flatMap_cons, Member.allUsings_space] at hu
    by_cases hn : u ∈ n.usings ++ n.members.flatMap Member.allUsings
    · exact (decl.spanIn_usings hn).mono ⟨as, vs, by simp⟩
    · have htail : u ∈ us ++ ms.flatMap Member.allUsings := by
        simp only [List.mem_append] at hu ⊢
        rcases hu with hu | hu | hu
        · exact .inl hu
        · exact absurd (List.mem_append.2 hu) hn
        · exact .inr hu
      exact (tail.spanIn_usings htail).mono ⟨as ++ ns, [], by simp⟩

theorem LooseSpace.spanIn_usings {slice : Span → String} {start : Nat} {ts : List Token}
    {n : NamespaceDecl} {u : UsingDirective}
    (hu : u ∈ n.usings ++ n.members.flatMap Member.allUsings) :
    LooseSpace slice start ts n → SpanIn ts u.span
  | @LooseSpace.mk _ _ k t o ns ts _ _ _ _ _ _ _ _ members =>
    (members.spanIn_usings hu).mono ⟨k :: t :: (ns ++ [o]), [], by simp⟩

end

/-- A declaration reaches from the first of the tokens in front of it to its last. -/
theorem LooseDecl.span_eq {as us : List Token} {attributes : List AttributeList}
    {modifiers : List String} {d : TypeDecl}
    (h : LooseDecl (startOf (as ++ us)) attributes modifiers us d) : d.span = spanOf (as ++ us) := by
  cases h with
  | mk _ hne _ _ =>
    simp only [spanOf, stopOf_append, stopOf_of_ne_nil hne _ 0]
    rfl

/-- The parts of a declaration stand at its tokens. -/
theorem SpelledIn.placedIn {ts : List Token} {d : TypeDecl} (h : SpelledIn ts d) : PlacedIn ts d := by
  obtain ⟨as, us, attributes, modifiers, hus, hdecl⟩ := h
  have hinfix : us <:+: ts := .trans ⟨as, [], by simp⟩ hus
  have hsublist := hdecl.idents_sublist
  cases hdecl with
  | @mk _ _ _ hs bs _ header nested is head _ _ met =>
    refine (head.placedIn (List.prefix_append hs bs).isInfix ?_).mono hinfix
    exact fun i hi => hsublist.subset hi

/-- Holds of using directives and members whose parts stand at tokens of a list. -/
structure AllPlacedIn (ts : List Token) (us : List UsingDirective) (ms : List Member) : Prop where
  types : ∀ d ∈ ms.flatMap Member.typeDecls, PlacedIn ts d
  usings : ∀ u ∈ us ++ ms.flatMap Member.allUsings, SpanIn ts u.span

/-- The parts of what is kept of a file stand at its tokens. -/
theorem LooseMembers.allPlacedIn {slice : Span → String} {ts : List Token}
    {us : List UsingDirective} {ms : List Member} (h : LooseMembers slice ts us ms) :
    AllPlacedIn ts us ms where
  types := fun _ hd => (h.spelledIn hd).placedIn
  usings := fun _ hu => h.spanIn_usings hu

/-- The names that a declaration introduces are among its identifiers. -/
theorem SpelledIn.declared_subset {ts : List Token} {d : TypeDecl} (h : SpelledIn ts d) :
    d.declared ⊆ d.idents := by
  obtain ⟨as, us, attributes, modifiers, -, hdecl⟩ := h
  cases hdecl with
  | @mk _ _ _ hs bs _ header nested is head _ _ _ =>
    cases head with
    | @mk ks ps gs bs' ws _ n kind typeParams listSpan baseList _ word params _ _ _ =>
      intro i hi
      apply List.mem_append_left
      rcases List.mem_cons.1 hi with rfl | hi
      · exact mem_idents_iff.2 ⟨n, by simp, word, rfl⟩
      · obtain ⟨p, hp, rfl⟩ := List.mem_map.1 hi
        cases params with
        | none _ => exact absurd hp List.not_mem_nil
        | @some o c ts _ _ _ list _ =>
          obtain ⟨vs, rest', hvs, hform⟩ := list.exists_infix hp
          have hts : ts <:+: ks ++ n :: (o :: (ts ++ [c]) ++ (gs ++ (bs' ++ ws))) :=
            ⟨ks ++ [n, o], c :: (gs ++ (bs' ++ ws)), by simp⟩
          refine idents_subset (hvs.trans hts) ?_
          cases hform with
          | @mk as vs rest n _ _ _ _ word => exact mem_idents_iff.2 ⟨n, by simp, word, rfl⟩

end SelfTypeLint.Grammar
