import SelfTypeLint.Proofs.Grammar.Braces
import SelfTypeLint.Proofs.Grammar.Owners
import SelfTypeLint.Proofs.Tree.Members

/-!
# Blocks of members

A type or a namespace ends with its block. Since nothing leaves a curly bracket open, tokens that balance
them as a whole balance them in each part, down to the innermost block.
-/

namespace SelfTypeLint.Grammar

open Token Read

/-! ## Members at their tokens -/

/-- A type or namespace at tokens in front of it and its own, where others follow. -/
inductive MemberForm (slice : Span → String) (as us rest : List Token) : Member → Prop
  | type {attributes : List AttributeList} {modifiers : List String} {d : TypeDecl}
      (decl : DeclForm (startOf (as ++ us)) attributes modifiers us rest d) :
      MemberForm slice as us rest (.type d)
  | space {n : NamespaceDecl} {is : List Ident}
      (space : SpaceForm slice (startOf (as ++ us)) us rest n is) :
      MemberForm slice as us rest (.space n)

theorem MemberForm.ne_nil {slice : Span → String} {as us rest : List Token} {m : Member}
    (h : MemberForm slice as us rest m) : us ≠ [] := by
  cases h with
  | type decl => exact decl.ne_nil
  | space space => exact space.word.1

theorem SpaceForm.span_eq {slice : Span → String} {as us rest : List Token} {n : NamespaceDecl}
    {is : List Ident} (h : SpaceForm slice (startOf (as ++ us)) us rest n is) :
    n.span = spanOf (as ++ us) := by
  cases h <;> simp [spanOf]

theorem MemberForm.span_eq {slice : Span → String} {as us rest : List Token} {m : Member}
    (h : MemberForm slice as us rest m) : m.span = spanOf (as ++ us) := by
  cases h with
  | type decl => exact decl.span_eq
  | space space => exact space.span_eq

/-- Holds of a member that some of the tokens spell, with balanced curly brackets. -/
def MemberIn (slice : Span → String) (ts rest : List Token) (m : Member) : Prop :=
  ∃ xs as us ys, ts = xs ++ (as ++ (us ++ ys)) ∧ MemberForm slice as us (ys ++ rest) m ∧
    Shut as ∧ Balanced (as ++ us)

theorem MemberIn.skip {slice : Span → String} {ts rest : List Token} {m : Member} (ps : List Token)
    (h : MemberIn slice ts rest m) : MemberIn slice (ps ++ ts) rest m := by
  obtain ⟨xs, as, us, ys, rfl, hform, hshut, hb⟩ := h
  exact ⟨ps ++ xs, as, us, ys, by simp, hform, hshut, hb⟩

theorem MemberIn.before {slice : Span → String} {ts qs rest : List Token} {m : Member}
    (h : MemberIn slice ts (qs ++ rest) m) : MemberIn slice (ts ++ qs) rest m := by
  obtain ⟨xs, as, us, ys, rfl, hform, hshut, hb⟩ := h
  exact ⟨xs, as, us, ys ++ qs, by simp, by rwa [List.append_assoc], hshut, hb⟩

theorem MemberIn.spanIn {slice : Span → String} {ts rest : List Token} {m : Member}
    (h : MemberIn slice ts rest m) : SpanIn ts m.span := by
  obtain ⟨xs, as, us, ys, rfl, hform, -⟩ := h
  exact ⟨as ++ us, ⟨xs, ys, by simp⟩, by simp [hform.ne_nil], hform.span_eq⟩

/-! ## Members of a block -/

/-- The nested types of a body. -/
theorem BodyForm.memberIn (slice : Span → String) {ts rest : List Token} {nested : List TypeDecl}
    {is : List Ident} {d : TypeDecl} (hc : Completes (ts ++ rest)) (hb : Balanced ts)
    (hd : d ∈ nested) : BodyForm ts rest nested is → MemberIn slice ts rest (.type d)
  | .done _ => absurd hd List.not_mem_nil
  | @BodyForm.semi s ts _ _ _ hsemi tail =>
    (tail.memberIn slice hc.of_cons (hb.of_cons (by simp [hsemi])) hd).skip [s]
  | @BodyForm.type as ms ds ts _ _ _ _ _ _ attributesForm modifiers decl tail => by
    simp only [← List.append_assoc] at decl hb hc ⊢
    rw [List.append_assoc, List.append_assoc] at hc
    have hfront := attributesForm.shut.append modifiers.shut
    obtain ⟨hfirst, hlast⟩ := hb.split (hfront.append (decl.shut hc.of_append))
    rcases List.mem_cons.1 hd with rfl | hd
    · exact ⟨[], as ++ ms, ds, ts, by simp, .type decl, hfront, hfirst⟩
    · exact (tail.memberIn slice hc.of_append.of_append hlast hd).skip (as ++ ms ++ ds)
  | @BodyForm.other as ms us ts _ _ _ _ _ _ attributesForm modifiers member tail => by
    simp only [← List.append_assoc] at hb hc ⊢
    rw [List.append_assoc, List.append_assoc] at hc
    have hmember := member.shut hc.of_append
    have hlast := (hb.split ((attributesForm.shut.append modifiers.shut).append hmember)).2
    exact (tail.memberIn slice hc.of_append.of_append hlast hd).skip (as ++ ms ++ us)

theorem FileMemberForm.memberIn {slice : Span → String} {ts rest : List Token} {m : Member}
    {is : List Ident} (hb : Balanced ts) (h : FileMemberForm slice ts rest (some m) is) :
    MemberIn slice ts rest m := by
  cases h with
  | @type as ms ds _ _ d attributesForm modifiers decl =>
    rw [← List.append_assoc] at decl hb
    have hfront := attributesForm.shut.append modifiers.shut
    exact ⟨[], as ++ ms, ds, [], by simp, .type decl, hfront, hb⟩
  | @space as ms ns _ _ n _ attributesForm modifiers space =>
    rw [← List.append_assoc] at space hb
    have hfront := attributesForm.shut.append modifiers.shut
    exact ⟨[], as ++ ms, ns, [], by simp, .space space, hfront, hb⟩

/-- The members of a file or namespace. -/
theorem MembersForm.memberIn {slice : Span → String} {ts rest : List Token}
    {us : List UsingDirective} {ms : List Member} {is : List Ident} {m : Member}
    (hc : Completes (ts ++ rest)) (hb : Balanced ts) (hm : m ∈ ms) :
    MembersForm slice ts rest us ms is → MemberIn slice ts rest m
  | .done _ => absurd hm List.not_mem_nil
  | @MembersForm.semi _ s ts _ _ _ _ hsemi tail =>
    (tail.memberIn hc.of_cons (hb.of_cons (by simp [hsemi])) hm).skip [s]
  | @MembersForm.using _ ts vs _ _ _ _ _ directive tail => by
    rw [List.append_assoc] at hc
    exact (tail.memberIn hc.of_append (hb.split directive.shut).2 hm).skip ts
  | @MembersForm.external _ ts vs _ _ _ _ _ form tail => by
    rw [List.append_assoc] at hc
    exact (tail.memberIn hc.of_append (hb.split (form.shut hc)).2 hm).skip ts
  | @MembersForm.member _ ts vs _ mo _ _ _ _ _ hmember tail => by
    rw [List.append_assoc] at hc
    obtain ⟨hfirst, hlast⟩ := hb.split (hmember.shut hc)
    rcases List.mem_append.1 hm with hm | hm
    · obtain rfl : mo = some m := Option.mem_toList.1 hm
      exact (hmember.memberIn hfirst).before
    · exact (tail.memberIn hc.of_append hlast hm).skip ts

/-! ## Blocks -/

/-- What stands in front of the block of a member: the attributes, the modifiers and the head of a type,
or the keyword and the name of a namespace. -/
inductive FrontForm : List Token → List Token → Member → Prop
  | type {as hs rest : List Token} {header : Header} {attributes : List AttributeList}
      {modifiers : List String} {nested : List TypeDecl} {is : List Ident} {span : Span}
      (head : HeaderForm hs rest header) :
      FrontForm (as ++ hs) rest (.type (header.declare attributes modifiers nested is span))
  | space {as ns rest : List Token} {k t : Token} {n : NamespaceDecl} (word : k.kind = .kwNamespace)
      (first : t.kind = .ident)
      (dotted : DottedForm (identName t.text) t.span ns rest n.name n.nameSpan) :
      FrontForm (as ++ k :: t :: ns) rest (.space n)

/-- A member that ends with a semicolon in place of a block. -/
structure EndsInSemi (fs : List Token) (s : Token) (rest : List Token) (m : Member) : Prop where
  front : FrontForm fs (s :: rest) m
  outer : WellNested (fs.filter isBrace)
  semi : s.kind = .semi
  none : m.inner = []

/-- A member that ends with the curly bracket that closes its block, and at most a semicolon. -/
structure EndsInBlock (fs : List Token) (o : Token) (bs : List Token) (c : Token)
    (ss rest : List Token) (m : Member) : Prop where
  front : FrontForm fs (o :: (bs ++ c :: (ss ++ rest))) m
  outer : WellNested (fs.filter isBrace)
  opener : o.kind = .lbrace
  inside : WellNested (bs.filter isBrace)
  closer : c.kind = .rbrace
  semi : OptionalForm .semi ss rest

/-- A member ends with its block, unless it is a namespace without one. -/
theorem MemberForm.ends {slice : Span → String} {as us rest : List Token} {m : Member}
    (hc : Completes (us ++ rest)) (has : Shut as) (hb : Balanced (as ++ us))
    (hspace : ∀ n, m = .space n → n.fileScoped = false) (h : MemberForm slice as us rest m) :
    (∃ fs s, as ++ us = fs ++ [s] ∧ EndsInSemi fs s rest m) ∨
      ∃ fs o bs c ss, as ++ us = fs ++ o :: (bs ++ c :: ss) ∧ EndsInBlock fs o bs c ss rest m ∧
        ∀ n ∈ m.inner, MemberIn slice bs (c :: (ss ++ rest)) n := by
  cases h with
  | type decl =>
    cases decl with
    | @mk _ _ _ hs bs _ header nested is head block =>
      rw [List.append_assoc] at hc
      rw [← List.append_assoc] at hb ⊢
      obtain ⟨houter, hblock⟩ := hb.split (has.append head.shut)
      have houter := wellNested_braces_iff.2 houter
      cases block with
      | semi semi => exact .inl ⟨as ++ hs, _, rfl, .type head, houter, semi, rfl⟩
      | @braces o c ts ss _ _ _ opener body closer semi =>
        simp only [List.cons_append, List.append_assoc] at hc head
        have hbody := hc.of_append.of_cons
        obtain ⟨hinside, -⟩ := hblock.inside opener closer (body.shut hbody)
        refine .inr ⟨as ++ hs, o, ts, c, ss, rfl,
          ⟨.type head, houter, opener, wellNested_braces_iff.2 hinside, closer, semi⟩, ?_⟩
        intro n hn
        obtain ⟨d, hd, rfl⟩ := List.mem_map.1 hn
        exact body.memberIn slice hbody hinside hd
  | space space =>
    cases space with
    | file _ _ _ _ _ => exact absurd (hspace _ rfl) (by simp)
    | @braces _ k t o c ns ts ss _ name whole us ms is word first dotted opener members closer semi =>
      have hsplit : as ++ k :: t :: (ns ++ o :: (ts ++ c :: ss)) =
          as ++ k :: t :: ns ++ o :: (ts ++ c :: ss) := by simp
      rw [hsplit] at hb ⊢
      simp only [List.cons_append, List.append_assoc] at hc
      have hbody := hc.of_cons.of_cons.of_append.of_cons
      have hname : Shut (k :: t :: ns) := (dotted.shut.cons (by simp [first])).cons (by simp [word])
      obtain ⟨houter, hblock⟩ := hb.split (has.append hname)
      obtain ⟨hinside, -⟩ := hblock.inside opener closer (members.shut hbody)
      exact .inr ⟨as ++ k :: t :: ns, o, ts, c, ss, rfl,
        ⟨.space word first dotted, wellNested_braces_iff.2 houter, opener,
          wellNested_braces_iff.2 hinside, closer, semi⟩,
        fun n hn => members.memberIn hbody hinside hn⟩

/-- What stands in a member stands at its tokens, -/
theorem MemberForm.memberIn_inner {slice : Span → String} {as us rest : List Token} {m n : Member}
    (hc : Completes (us ++ rest)) (has : Shut as) (hb : Balanced (as ++ us)) (hn : n ∈ m.inner)
    (h : MemberForm slice as us rest m) : MemberIn slice (as ++ us) rest n := by
  by_cases hspace : ∀ s, m = .space s → s.fileScoped = false
  · rcases h.ends hc has hb hspace with ⟨_, _, -, hsemi⟩ | ⟨fs, o, bs, c, ss, hsplit, -, hmembers⟩
    · rw [hsemi.none] at hn
      exact absurd hn List.not_mem_nil
    · have hblock : MemberIn slice (bs ++ c :: ss) rest n := (hmembers n hn).before
      rw [hsplit]
      exact (hblock.skip [o]).skip fs
  · cases h with
    | type _ => exact absurd (fun s hs => by simp at hs) hspace
    | space space =>
      cases space with
      | @file _ k t s ns ts _ _ _ _ _ _ word first dotted semi members =>
        have hsplit : as ++ k :: t :: (ns ++ s :: ts) = as ++ k :: t :: (ns ++ [s]) ++ ts := by simp
        rw [hsplit] at hb ⊢
        simp only [List.cons_append, List.append_assoc] at hc
        have hname : Shut (k :: t :: (ns ++ [s])) :=
          ((dotted.shut.append (shut_of_forall (by simp [semi]))).cons (by simp [first])).cons
            (by simp [word])
        have hmembers := (hb.split (has.append hname)).2
        exact (members.memberIn hc.of_cons.of_cons.of_append.of_cons hmembers hn).skip _
      | braces _ _ _ _ _ _ _ =>
        refine absurd (fun s hs => ?_) hspace
        rw [← Member.space.inj hs]

/-- and so does what stands in that. -/
theorem MemberIn.of_mem_withInner {slice : Span → String} {ts rest : List Token} {m a : Member}
    (hc : Completes (ts ++ rest)) (h : MemberIn slice ts rest m) (ha : a ∈ m.withInner) :
    MemberIn slice ts rest a := by
  rw [Member.withInner_eq] at ha
  rcases List.mem_cons.1 ha with rfl | ha
  · exact h
  · obtain ⟨n, hn, han⟩ := List.mem_flatMap.1 ha
    have hlt := Member.sizeOf_lt_of_mem_inner hn
    refine MemberIn.of_mem_withInner hc ?_ han
    obtain ⟨xs, as, us, ys, rfl, hform, hshut, hb⟩ := h
    simp only [List.append_assoc] at hc
    have hinner := (hform.memberIn_inner hc.of_append.of_append hshut hb hn).before
    rw [← List.append_assoc as]
    exact hinner.skip xs
  termination_by sizeOf m

end SelfTypeLint.Grammar
