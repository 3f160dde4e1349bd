import Mathlib.Data.List.Perm.Subperm
import SelfTypeLint.Proofs.Grammar.Files
import SelfTypeLint.Proofs.Grammar.Places
import SelfTypeLint.Proofs.Tree.Query

/-!
# Owners of identifiers

Each identifier of a file without faults belongs to one declaration at most, or stands outside of all of
them. The names of type parameters belong to the declarations of the parameters, and none stands among
the attributes of another.
-/

namespace SelfTypeLint.Grammar

open Token

/-! ## Declarations among tokens -/

/-- Holds of a declaration that some of the tokens spell, with those in front where it begins. -/
def Spelled (ts : List Token) (d : TypeDecl) : Prop :=
  ∃ as us rest attributes modifiers, as ++ us <:+: ts ∧
    DeclForm (startOf (as ++ us)) attributes modifiers us rest d

theorem Spelled.mono {ts us : List Token} {d : TypeDecl} (h : Spelled us d) (hs : us <:+: ts) :
    Spelled ts d := by
  obtain ⟨as, vs, rest, attributes, modifiers, hvs, hform⟩ := h
  exact ⟨as, vs, rest, attributes, modifiers, hvs.trans hs, hform⟩

mutual

/-- A declaration and those nested in it are spelled by its tokens. -/
theorem DeclForm.spelled {start : Nat} {as : List Token} {attributes : List AttributeList}
    {modifiers : List String} {ts rest : List Token} {d e : TypeDecl} (he : e ∈ d.withNested)
    (hstart : start = startOf (as ++ ts)) :
    DeclForm start attributes modifiers ts rest d → Spelled (as ++ ts) e
  | @DeclForm.mk _ _ _ hs bs _ header nested is head block => by
    rw [TypeDecl.withNested_eq] at he
    rcases List.mem_cons.1 he with rfl | he
    · subst hstart
      exact ⟨as, hs ++ bs, _, _, _, List.infix_rfl, .mk head block⟩
    · exact (block.spelled he).mono ⟨as ++ hs, [], by simp⟩

theorem BlockForm.spelled {ts rest : List Token} {nested : List TypeDecl} {is : List Ident}
    {e : TypeDecl} (he : e ∈ nested.flatMap TypeDecl.withNested) :
    BlockForm ts rest nested is → Spelled ts e
  | .semi _ => absurd he (by simp)
  | @BlockForm.braces o c ts ss _ _ _ _ body _ _ =>
    (body.spelled he).mono ⟨[o], c :: ss, by simp⟩

theorem BodyForm.spelled {ts rest : List Token} {nested : List TypeDecl} {is : List Ident}
    {e : TypeDecl} (he : e ∈ nested.flatMap TypeDecl.withNested) :
    BodyForm ts rest nested is → Spelled ts e
  | .done _ => absurd he (by simp)
  | @BodyForm.semi s ts _ _ _ _ tail => (tail.spelled he).mono ⟨[s], [], by simp⟩
  | @BodyForm.type as ms ds ts _ attributes d nested is _ _ _ decl tail => by
    rw [List.flatMap_cons] at he
    rcases List.mem_append.1 he with he | he
    · exact (decl.spelled he (show _ = startOf (as ++ ms ++ ds) by simp)).mono ⟨[], ts, by simp⟩
    · exact (tail.spelled he).mono ⟨as ++ (ms ++ ds), [], by simp⟩
  | @BodyForm.other as ms us ts _ _ _ _ _ _ _ _ _ tail =>
    (tail.spelled he).mono ⟨as ++ (ms ++ us), [], by simp⟩

end

mutual

/-- The declarations of members are spelled by their tokens. -/
theorem MembersForm.spelled {slice : Span → String} {ts rest : List Token}
    {us : List UsingDirective} {ms : List Member} {is : List Ident} {e : TypeDecl}
    (he : e ∈ ms.flatMap Member.typeDecls) : MembersForm slice ts rest us ms is → Spelled ts e
  | .done _ => absurd he (by simp)
  | @MembersForm.semi _ s ts _ _ _ _ _ tail => (tail.spelled he).mono ⟨[s], [], by simp⟩
  | @MembersForm.using _ ts vs _ _ _ _ _ _ tail => (tail.spelled he).mono ⟨ts, [], by simp⟩
  | @MembersForm.external _ ts vs _ _ _ _ _ _ tail => (tail.spelled he).mono ⟨ts, [], by simp⟩
  | @MembersForm.member _ ts vs _ m _ _ _ _ _ member tail => by
    rw [List.flatMap_append] at he
    rcases List.mem_append.1 he with he | he
    · exact (member.spelled he).mono ⟨[], vs, by simp⟩
    · exact (tail.spelled he).mono ⟨ts, [], by simp⟩

theorem FileMemberForm.spelled {slice : Span → String} {ts rest : List Token} {m : Option Member}
    {is : List Ident} {e : TypeDecl} (he : e ∈ m.toList.flatMap Member.typeDecls) :
    FileMemberForm slice ts rest m is → Spelled ts e
  | @FileMemberForm.type _ as ms ds _ _ d _ _ decl => by
    have hd : e ∈ d.withNested := by
      simpa [Member.typeDecls_type] using he
    exact (decl.spelled hd (show _ = startOf (as ++ ms ++ ds) by simp)).mono ⟨[], [], by simp⟩
  | @FileMemberForm.space _ as ms ns _ _ n _ _ _ space => by
    have hn : e ∈ n.members.flatMap Member.typeDecls := by
      simpa [Member.typeDecls_space] using he
    exact (space.spelled hn).mono ⟨as ++ ms, [], by simp⟩
  | .enum _ _ _ => absurd he (by simp)
  | .delegate _ _ _ _ => absurd he (by simp)
  | .attributes _ _ _ _ _ => absurd he (by simp)

theorem SpaceForm.spelled {slice : Span → String} {start : Nat} {ts rest : List Token}
    {n : NamespaceDecl} {is : List Ident} {e : TypeDecl}
    (he : e ∈ n.members.flatMap Member.typeDecls) : SpaceForm slice start ts rest n is → Spelled ts e
  | @SpaceForm.file _ _ k t s ns ts _ _ _ _ _ _ _ _ _ _ members =>
    (members.spelled he).mono ⟨k :: t :: (ns ++ [s]), [], by simp⟩
  | @SpaceForm.braces _ _ k t o c ns ts ss _ _ _ _ _ _ _ _ _ _ members _ _ =>
    (members.spelled he).mono ⟨k :: t :: (ns ++ [o]), c :: ss, by simp⟩

end

/-- A declaration reaches from the first of the tokens in front of it to its last. -/
theorem DeclForm.span_eq {as us rest : List Token} {attributes : List AttributeList}
    {modifiers : List String} {d : TypeDecl}
    (h : DeclForm (startOf (as ++ us)) attributes modifiers us rest d) :
    d.span = spanOf (as ++ us) := by
  cases h with
  | mk _ block =>
    simp only [spanOf, stopOf_append, stopOf_of_ne_nil block.ne_nil _ 0]
    rfl

/-- The name in a head is one of its tokens. -/
theorem HeaderForm.exists_name {hs rest : List Token} {h : Header} (hh : HeaderForm hs rest h) :
    ∃ n ∈ hs, n.kind = .ident ∧ h.name.name = identName n.text := by
  cases hh with
  | mk _ word _ _ _ _ => exact ⟨_, by simp, word, rfl⟩

/-- The name of a declaration is one of its tokens. -/
theorem DeclForm.exists_name {start : Nat} {attributes : List AttributeList}
    {modifiers : List String} {ts rest : List Token} {d : TypeDecl}
    (h : DeclForm start attributes modifiers ts rest d) :
    ∃ n ∈ ts, n.kind = .ident ∧ d.name = identName n.text ∧ d.nameSpan = n.span := by
  cases h with
  | mk head _ =>
    cases head with
    | mk _ word _ _ _ _ => exact ⟨_, by simp, word, rfl, rfl⟩

/-! ## The share of the declarations -/

/-- Holds of identifiers that are among those of some tokens, each as often as it stands there, and are
all of them where no delegate is declared. -/
structure Shared (is : List Ident) (ts : List Token) : Prop where
  subperm : is.Subperm (idents ts)
  perm : (∀ t ∈ ts, t.kind ≠ .kwDelegate) → is.Perm (idents ts)

theorem shared_idents (ts : List Token) : Shared (idents ts) ts :=
  ⟨(List.Sublist.refl _).subperm, fun _ => .refl _⟩

theorem shared_of_idents_eq_nil {ts : List Token} (h : idents ts = []) : Shared [] ts :=
  h ▸ shared_idents ts

theorem Shared.append {is js : List Ident} {ts us : List Token} (h : Shared is ts)
    (h' : Shared js us) : Shared (is ++ js) (ts ++ us) where
  subperm := by
    rw [idents_append]
    exact List.Subperm.append h.subperm h'.subperm
  perm := fun hno => by
    rw [idents_append]
    exact (h.perm fun t ht => hno t (List.mem_append_left us ht)).append
      (h'.perm fun t ht => hno t (List.mem_append_right ts ht))

theorem Shared.congr {is js : List Ident} {ts : List Token} (h : Shared is ts) (hp : js.Perm is) :
    Shared js ts :=
  ⟨List.Subperm.trans hp.subperm h.subperm, fun hno => hp.trans (h.perm hno)⟩

/-- Two declarations that are read one after another, the second in the midst of what is written around
both. -/
theorem Shared.append_swap {is js ks ls : List Ident} {ts us : List Token} (h : Shared (is ++ js) ts)
    (h' : Shared (ks ++ ls) us) : Shared (is ++ ks ++ (js ++ ls)) (ts ++ us) := by
  refine (h.append h').congr ?_
  rw [List.append_assoc, List.append_assoc, ← List.append_assoc ks, ← List.append_assoc js]
  exact (List.perm_append_comm.append_right ls).append_left is

theorem Shared.between {is : List Ident} {o : Token} {bs ts : List Token} (ho : idents [o] = [])
    (hb : idents bs = []) (h : Shared is ts) : Shared is (o :: (ts ++ bs)) := by
  have hall := (shared_of_idents_eq_nil ho).append (h.append (shared_of_idents_eq_nil hb))
  simpa using hall

theorem sublist_spans_idents (ts : List Token) :
    ((idents ts).map (·.span)).Sublist (ts.map (·.span)) := by
  induction ts with
  | nil => exact List.Sublist.slnil
  | cons t ts ih =>
    by_cases hk : t.kind = .ident
    · rw [idents_cons_of_ident hk]
      exact ih.cons_cons _
    · rw [idents_cons_of_ne hk]
      exact ih.cons _

/-- Identifiers of tokens that stand one after another stand at different places. -/
theorem nodup_of_subperm_idents {is : List Ident} {ts : List Token} (h : is.Subperm (idents ts))
    {offset : Nat} (hp : Placed offset ts) : (is.map (·.span)).Nodup := by
  obtain ⟨js, hperm, hsub⟩ := h
  have hnodup := (hp.nodup_spans.sublist (sublist_spans_idents ts)).sublist (hsub.map (·.span))
  exact (hperm.map _).nodup_iff.1 hnodup

/-- The identifiers of some declarations and of those nested in them. -/
def identsOf (ds : List TypeDecl) : List Ident := (ds.flatMap TypeDecl.withNested).flatMap (·.idents)

@[simp] theorem identsOf_nil : identsOf [] = [] := rfl

theorem identsOf_cons (d : TypeDecl) (ds : List TypeDecl) :
    identsOf (d :: ds) = d.idents ++ identsOf d.nested ++ identsOf ds := by
  simp [identsOf, TypeDecl.withNested_eq d]

theorem identsOf_append (ds es : List TypeDecl) : identsOf (ds ++ es) = identsOf ds ++ identsOf es := by
  simp [identsOf]

/-- The identifiers of a delegate belong to no declaration. -/
theorem StatementForm.shared_nil {ts rest : List Token} (h : StatementForm ts rest)
    (word : kindAt (ts ++ rest) 0 = .kwDelegate) : Shared [] ts where
  subperm := List.nil_subperm
  perm := fun hno => by
    have hne := h.ne_nil ⟨by simp [word], by simp [word], by simp [word]⟩
    obtain ⟨t, ts, rfl⟩ := List.exists_cons_of_ne_nil hne
    exact absurd word (hno t List.mem_cons_self)

theorem OtherForm.shared {ts rest : List Token} {is : List Ident} (h : OtherForm ts rest is) :
    Shared is ts := by
  cases h with
  | enum _ => exact shared_idents ts
  | delegate word form => exact form.shared_nil word
  | plain _ _ _ _ => exact shared_idents ts

theorem idents_closing {c : Token} {ss rest : List Token} (closer : c.kind = .rbrace)
    (semi : OptionalForm .semi ss rest) : idents (c :: ss) = [] := by
  rw [idents_cons_of_ne (by simp [closer])]
  exact idents_eq_nil fun t ht => by simp [semi.kind_eq t ht]

mutual

/-- The tokens of a declaration are shared out to it and to those nested in it. -/
theorem DeclForm.shared {start : Nat} {attributes : List AttributeList} {modifiers : List String}
    {ts rest : List Token} {d : TypeDecl} :
    DeclForm start attributes modifiers ts rest d → Shared (d.idents ++ identsOf d.nested) ts
  | @DeclForm.mk _ _ _ hs bs _ header nested is head block => by
    show Shared (idents hs ++ is ++ identsOf nested) (hs ++ bs)
    rw [List.append_assoc]
    exact (shared_idents hs).append block.shared

theorem BlockForm.shared {ts rest : List Token} {nested : List TypeDecl} {is : List Ident} :
    BlockForm ts rest nested is → Shared (is ++ identsOf nested) ts
  | .semi semi => shared_of_idents_eq_nil (idents_eq_nil (by simp [semi]))
  | @BlockForm.braces o c ts ss _ _ _ opener body closer semi =>
    body.shared.between (idents_eq_nil (by simp [opener])) (idents_closing closer semi)

theorem BodyForm.shared {ts rest : List Token} {nested : List TypeDecl} {is : List Ident} :
    BodyForm ts rest nested is → Shared (is ++ identsOf nested) ts
  | .done _ => shared_idents []
  | @BodyForm.semi s ts _ _ _ semi tail => by
    have hs : Shared [] [s] := shared_of_idents_eq_nil (idents_eq_nil (by simp [semi]))
    exact hs.append tail.shared
  | @BodyForm.type as ms ds ts _ _ d nested is _ _ _ decl tail => by
    have hall := ((shared_idents (as ++ ms)).append decl.shared).append_swap tail.shared
    rw [identsOf_cons]
    simpa using hall
  | @BodyForm.other as ms us ts _ _ nested js is _ _ _ member tail => by
    have hall := (shared_idents (as ++ ms)).append (member.shared.append tail.shared)
    simpa using hall

end

/-- The identifiers of the declarations of some members. -/
def memberIdents (ms : List Member) : List Ident :=
  (ms.flatMap Member.typeDecls).flatMap (·.idents)

theorem memberIdents_append (as bs : List Member) :
    memberIdents (as ++ bs) = memberIdents as ++ memberIdents bs := by
  simp [memberIdents]

theorem memberIdents_type (d : TypeDecl) :
    memberIdents [.type d] = d.idents ++ identsOf d.nested := by
  simp [memberIdents, identsOf, Member.typeDecls_type, TypeDecl.withNested_eq d]

theorem memberIdents_space (n : NamespaceDecl) :
    memberIdents [.space n] = memberIdents n.members := by
  simp [memberIdents, Member.typeDecls_space]

mutual

/-- The tokens of a file are shared out to its declarations and to what stands outside of them. -/
theorem MembersForm.shared {slice : Span → String} {ts rest : List Token}
    {us : List UsingDirective} {ms : List Member} {is : List Ident} :
    MembersForm slice ts rest us ms is → Shared (is ++ memberIdents ms) ts
  | .done _ => shared_idents []
  | @MembersForm.semi _ s ts _ _ _ _ semi tail => by
    have hs : Shared [] [s] := shared_of_idents_eq_nil (idents_eq_nil (by simp [semi]))
    exact hs.append tail.shared
  | .using _ tail => by
    rw [List.append_assoc]
    exact (shared_idents _).append tail.shared
  | .external _ _ tail => by
    rw [List.append_assoc]
    exact (shared_idents _).append tail.shared
  | .member _ member tail => by
    rw [memberIdents_append]
    exact member.shared.append_swap tail.shared

theorem FileMemberForm.shared {slice : Span → String} {ts rest : List Token}
    {m : Option Member} {is : List Ident} :
    FileMemberForm slice ts rest m is → Shared (is ++ memberIdents m.toList) ts
  | @FileMemberForm.type _ as ms ds _ _ d _ _ decl => by
    rw [Option.toList_some, memberIdents_type, ← List.append_assoc as]
    exact (shared_idents (as ++ ms)).append decl.shared
  | @FileMemberForm.space _ as ms ns _ _ n is _ _ space => by
    rw [Option.toList_some, memberIdents_space, List.append_assoc, ← List.append_assoc as]
    exact (shared_idents (as ++ ms)).append space.shared
  | @FileMemberForm.enum _ as ms es _ _ _ _ _ => by
    simpa [memberIdents] using shared_idents (as ++ (ms ++ es))
  | @FileMemberForm.delegate _ as ms ds _ _ _ _ word form => by
    have hall := (shared_idents (as ++ ms)).append (form.shared_nil word)
    simpa [memberIdents] using hall
  | @FileMemberForm.attributes _ as _ _ _ _ _ _ _ => by
    simpa [memberIdents] using shared_idents as

theorem SpaceForm.shared {slice : Span → String} {start : Nat} {ts rest : List Token}
    {n : NamespaceDecl} {is : List Ident} :
    SpaceForm slice start ts rest n is → Shared (is ++ memberIdents n.members) ts
  | @SpaceForm.file _ _ k t s ns ts _ _ _ _ ms is word _ _ semi members => by
    have hk : Shared [] [k] := shared_of_idents_eq_nil (idents_eq_nil (by simp [word]))
    have hs : Shared [] [s] := shared_of_idents_eq_nil (idents_eq_nil (by simp [semi]))
    have hall := hk.append ((shared_idents (t :: ns)).append (hs.append members.shared))
    simpa using hall
  | @SpaceForm.braces _ _ k t o c ns ts ss _ _ _ _ ms is word _ _ opener members closer semi => by
    have hk : Shared [] [k] := shared_of_idents_eq_nil (idents_eq_nil (by simp [word]))
    have ho : idents [o] = [] := idents_eq_nil (by simp [opener])
    have hbody := members.shared.between ho (idents_closing closer semi)
    have hall := hk.append ((shared_idents (t :: ns)).append hbody)
    simpa using hall

end

/-! ## Names of type parameters -/

/-- Holds of a declaration to which the names of its parameters belong, each at a place of its own and
outside of the attribute lists. -/
structure OwnsParams (d : TypeDecl) : Prop where
  names : ∀ p ∈ d.typeParams, (⟨p.name, p.nameSpan⟩ : Ident) ∈ d.idents
  apart : d.typeParams.Pairwise fun p q => p.nameSpan ≠ q.nameSpan
  outside : ∀ p ∈ d.typeParams, ∀ q ∈ d.typeParams, ∀ l ∈ q.attributes,
    l.span.contains p.nameSpan = false

theorem AttributeListsForm.spanIn {ts rest : List Token} {ls : List AttributeList}
    (h : AttributeListsForm ts rest ls) : ∀ l ∈ ls, SpanIn ts l.span := by
  induction h with
  | none _ => simp
  | @cons o c ts us vs rest target as ls _ _ _ _ _ ih =>
    intro l hl
    rcases List.mem_cons.1 hl with rfl | hl
    · refine ⟨o :: (ts ++ (us ++ [c])), ⟨[], vs, by simp⟩, by simp, ?_⟩
      rw [spanOf, ← List.append_assoc, ← List.cons_append, stopOf_concat]
      rfl
    · exact (ih l hl).mono ⟨o :: (ts ++ (us ++ [c])), [], by simp⟩

/-- What stands at a token is not inside of a span at later tokens, -/
theorem not_contains_of_before {offset : Nat} {ts us : List Token} (h : Placed offset (ts ++ us))
    {s r : Span} (hs : s ∈ ts.map (·.span)) (hr : SpanIn us r) : r.contains s = false := by
  obtain ⟨t, ht, rfl⟩ := List.mem_map.1 hs
  obtain ⟨vs, ⟨as, bs, rfl⟩, hne, rfl⟩ := hr
  obtain ⟨v, vs, rfl⟩ := List.exists_cons_of_ne_nil hne
  have hpair := List.pairwise_append.1 h.pairwise
  have hlater := hpair.2.2 t ht v (by simp)
  have hpos := (h.start_le (List.mem_append_left _ ht)).2
  rw [← Bool.not_eq_true, Span.contains_iff]
  rintro ⟨hstart, -⟩
  rw [spanOf, startOf_cons] at hstart
  dsimp only at hstart
  omega

/-- nor inside of a span at earlier ones. -/
theorem not_contains_of_after {offset : Nat} {ts us : List Token} (h : Placed offset (ts ++ us))
    {s r : Span} (hs : s ∈ us.map (·.span)) (hr : SpanIn ts r) : r.contains s = false := by
  obtain ⟨t, ht, rfl⟩ := List.mem_map.1 hs
  obtain ⟨vs, ⟨as, bs, rfl⟩, hne, rfl⟩ := hr
  obtain ⟨vs, v, rfl⟩ : ∃ ws v, vs = ws ++ [v] := ⟨_, _, (List.dropLast_concat_getLast hne).symm⟩
  have hpair := List.pairwise_append.1 h.pairwise
  have hlater := hpair.2.2 v (by simp) t ht
  have hpos := (h.start_le (List.mem_append_right _ ht)).2
  rw [← Bool.not_eq_true, Span.contains_iff]
  rintro ⟨-, hstop⟩
  rw [spanOf, stopOf_concat] at hstop
  dsimp only at hstop
  omega

theorem ParamForm.mem {ts rest : List Token} {p : TypeParam} (h : ParamForm ts rest p) :
    (⟨p.name, p.nameSpan⟩ : Ident) ∈ idents ts ∧ p.nameSpan ∈ ts.map (·.span) ∧
      (∀ l ∈ p.attributes, SpanIn ts l.span) ∧
      ∀ offset, Placed offset ts → ∀ l ∈ p.attributes, l.span.contains p.nameSpan = false := by
  cases h with
  | @mk as vs rest n attributes variance attributesForm _ word =>
    refine ⟨?_, by simp, ?_, ?_⟩
    · rw [← List.append_assoc, idents_append, idents_cons_of_ident word]
      simp
    · intro l hl
      exact (attributesForm.spanIn l hl).mono ⟨[], vs ++ [n], by simp⟩
    · intro offset hplaced l hl
      exact not_contains_of_after hplaced (by simp) (attributesForm.spanIn l hl)

/-- What holds of the parameters of a list at its tokens. -/
structure ParamsAt (ts : List Token) (ps : List TypeParam) : Prop where
  names : ∀ p ∈ ps, (⟨p.name, p.nameSpan⟩ : Ident) ∈ idents ts ∧ p.nameSpan ∈ ts.map (·.span)
  lists : ∀ p ∈ ps, ∀ l ∈ p.attributes, SpanIn ts l.span
  apart : ps.Pairwise fun p q => p.nameSpan ≠ q.nameSpan
  outside : ∀ p ∈ ps, ∀ q ∈ ps, ∀ l ∈ q.attributes, l.span.contains p.nameSpan = false

theorem paramsAt_of_listForm {offset : Nat} {ts rest : List Token} {ps : List TypeParam}
    (h : ListForm ParamForm ts rest ps) (hplaced : Placed offset ts) : ParamsAt ts ps := by
  induction h generalizing offset with
  | last item _ =>
    obtain ⟨h1, h2, h3, h4⟩ := item.mem
    refine ⟨?_, by simpa using h3, List.pairwise_singleton _ _, by simpa using h4 offset hplaced⟩
    intro p hp
    obtain rfl := List.mem_singleton.1 hp
    exact ⟨h1, h2⟩
  | @more ts us rest c a as item _ tail ih =>
    obtain ⟨h1, h2, h3, h4⟩ := item.mem
    have hrest : us <:+: ts ++ c :: us := ⟨ts ++ [c], [], by simp⟩
    have hright := hplaced.append_right
    have htail := ih (Placed.append_right (show Placed _ ([c] ++ us) from hright))
    have hspans := List.nodup_append.1 (List.map_append ▸ hplaced.nodup_spans)
    constructor
    · intro p hp
      rcases List.mem_cons.1 hp with rfl | hp
      · exact ⟨by simp [h1], by simp [List.mem_map.1 h2]⟩
      · obtain ⟨hi, hs⟩ := htail.names p hp
        exact ⟨idents_subset hrest hi, (List.Sublist.map _ hrest.sublist).subset hs⟩
    · intro p hp l hl
      rcases List.mem_cons.1 hp with rfl | hp
      · exact (h3 l hl).mono ⟨[], c :: us, rfl⟩
      · exact (htail.lists p hp l hl).mono hrest
    · refine List.pairwise_cons.2 ⟨?_, htail.apart⟩
      intro q hq
      have hmem := (htail.names q hq).2
      exact hspans.2.2 _ h2 _ (List.mem_cons_of_mem _ hmem)
    · intro p hp q hq l hl
      rcases List.mem_cons.1 hp with rfl | hp
      · rcases List.mem_cons.1 hq with rfl | hq
        · exact h4 offset hplaced.append_left l hl
        · exact not_contains_of_before hplaced h2 ((htail.lists q hq l hl).mono ⟨[c], [], by simp⟩)
      · have hmem := (htail.names p hp).2
        rcases List.mem_cons.1 hq with rfl | hq
        · exact not_contains_of_after hplaced (List.mem_cons_of_mem _ hmem) (h3 l hl)
        · exact htail.outside p hp q hq l hl

/-- The names of the parameters belong to a declaration. -/
theorem DeclForm.ownsParams {offset start : Nat} {attributes : List AttributeList}
    {modifiers : List String} {ts rest : List Token} {d : TypeDecl} (hplaced : Placed offset ts)
    (h : DeclForm start attributes modifiers ts rest d) : OwnsParams d := by
  cases h with
  | @mk _ _ _ hs bs _ header nested is head _ =>
    cases head with
    | @mk ks ps gs bs' ws _ n kind typeParams listSpan baseList _ _ params _ _ _ =>
      cases params with
      | none _ => exact ⟨by simp [Header.declare], List.Pairwise.nil, by simp [Header.declare]⟩
      | @some o c ts _ _ _ list _ =>
        have hparams : ts <:+: ks ++ n :: (o :: (ts ++ [c]) ++ (gs ++ (bs' ++ ws))) :=
          ⟨ks ++ [n, o], c :: (gs ++ (bs' ++ ws)), by simp⟩
        obtain ⟨xs, ys, hsplit⟩ := hparams
        rw [← hsplit] at hplaced
        have hat := paramsAt_of_listForm list hplaced.append_left.append_left.append_right
        refine ⟨?_, hat.apart, hat.outside⟩
        intro p hp
        apply List.mem_append_left
        exact idents_subset ⟨xs, ys, hsplit⟩ (hat.names p hp).1

/-- The parameters of every declaration of a file belong to it. -/
theorem MembersForm.ownsParams {slice : Span → String} {ts rest : List Token}
    {us : List UsingDirective} {ms : List Member} {is : List Ident}
    (h : MembersForm slice ts rest us ms is) {offset : Nat} (hplaced : Placed offset ts)
    {d : TypeDecl} (hd : d ∈ ms.flatMap Member.typeDecls) : OwnsParams d := by
  obtain ⟨as, vs, _, _, _, ⟨xs, ys, rfl⟩, hform⟩ := h.spelled hd
  exact hform.ownsParams hplaced.append_left.append_right.append_right

/-! ## Words of base types -/

/-- Holds of a declaration to which the words of its base types belong, outside of the attribute lists of
its parameters. -/
structure OwnsBases (d : TypeDecl) : Prop where
  words : ∀ b ∈ d.baseList, ∀ e ∈ b.reached, ∀ x ∈ e.segments,
    (⟨x.name, x.span⟩ : Ident) ∈ d.idents
  outside : ∀ b ∈ d.baseList, ∀ e ∈ b.reached, ∀ x ∈ e.segments, ∀ q ∈ d.typeParams,
    ∀ l ∈ q.attributes, l.span.contains x.span = false

/-- The words of base types are identifiers of the tokens that spell the base list. -/
theorem BasesForm.mem_idents {ts rest : List Token} {es : List TypeExpr} (h : BasesForm ts rest es)
    {b e : TypeExpr} (hb : b ∈ es) (he : e ∈ b.reached) {x : NameSegment TypeExpr}
    (hx : x ∈ e.segments) : (⟨x.name, x.span⟩ : Ident) ∈ idents ts := by
  cases h with
  | none _ => exact absurd hb List.not_mem_nil
  | @some k ts rest es _ list =>
    obtain ⟨us, rest', hus, hform⟩ := list.exists_infix hb
    cases hform with
    | @mk vs ws rest e' type _ =>
      have hvs : vs <:+: k :: ts :=
        ((List.prefix_append vs ws).isInfix.trans hus).trans ⟨[k], [], by simp⟩
      exact idents_subset hvs (type.mem_idents_of_reached he hx)

/-- The words of the base types belong to a declaration. -/
theorem DeclForm.ownsBases {offset start : Nat} {attributes : List AttributeList}
    {modifiers : List String} {ts rest : List Token} {d : TypeDecl} (hplaced : Placed offset ts)
    (h : DeclForm start attributes modifiers ts rest d) : OwnsBases d := by
  cases h with
  | @mk _ _ _ hs blk _ header nested is head _ =>
    cases head with
    | @mk ks ps gs bs ws _ n kind typeParams listSpan baseList _ _ params _ bases _ =>
      have hbs : bs <:+: ks ++ n :: (ps ++ (gs ++ (bs ++ ws))) := ⟨ks ++ n :: (ps ++ gs), ws, by simp⟩
      constructor
      case words =>
        intro b hb e he x hx
        exact List.mem_append_left _ (idents_subset hbs (bases.mem_idents hb he hx))
      case outside =>
        intro b hb e he x hx q hq l hl
        -- The base list is behind the parameter list, so its words are behind the attribute lists.
        have hat : SpanIn ps l.span := by
          cases params with
          | none _ => exact absurd hq List.not_mem_nil
          | @some o c ts _ _ _ list _ =>
            obtain ⟨us, rest', hus, hform⟩ := list.exists_infix hq
            exact (hform.mem.2.2.1 l hl).mono (hus.trans ⟨[o], [c], rfl⟩)
        have hsplit : ks ++ n :: (ps ++ (gs ++ (bs ++ ws))) ++ blk =
            (ks ++ [n]) ++ (ps ++ (gs ++ (bs ++ ws) ++ blk)) := by simp
        rw [hsplit] at hplaced
        obtain ⟨t, ht, -, heq⟩ := mem_idents_iff.1 (bases.mem_idents hb he hx)
        rw [(Ident.mk.inj heq).2]
        exact not_contains_of_after hplaced.append_right
          (List.mem_map_of_mem (by simp [ht])) hat

/-- The words of the base types of every declaration of a file belong to it. -/
theorem MembersForm.ownsBases {slice : Span → String} {ts rest : List Token}
    {us : List UsingDirective} {ms : List Member} {is : List Ident}
    (h : MembersForm slice ts rest us ms is) {offset : Nat} (hplaced : Placed offset ts)
    {d : TypeDecl} (hd : d ∈ ms.flatMap Member.typeDecls) : OwnsBases d := by
  obtain ⟨as, vs, _, _, _, ⟨xs, ys, rfl⟩, hform⟩ := h.spelled hd
  exact hform.ownsBases hplaced.append_left.append_right.append_right

end SelfTypeLint.Grammar
