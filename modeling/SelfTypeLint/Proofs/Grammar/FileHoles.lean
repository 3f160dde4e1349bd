import SelfTypeLint.Proofs.Grammar.Holes

/-!
# Holes of files

A hole in a type declaration or behind a using directive is one of the file: whatever fills it, the
members that the new tokens spell are parallel to the old ones (`MembersForm.hole`). The head of each
declaration is such a hole, and so is the semicolon of each using directive, behind which another one can
be put.
-/

namespace SelfTypeLint.Grammar

open Token Respelling

variable {α : Type} {slice : Span → String} {inDecl : TypeDecl → Prop}
  {inUsing : UsingDirective → Prop}

/-- Holds of directives and members of a file or namespace with a certain type declaration or directive
among them, or in a namespace among them. -/
inductive Lies (inDecl : TypeDecl → Prop) (inUsing : UsingDirective → Prop) :
    List UsingDirective → List Member → Prop
  | directive {u : UsingDirective} {us : List UsingDirective} {ms : List Member} (mem : u ∈ us)
      (here : inUsing u) : Lies inDecl inUsing us ms
  | type {d : TypeDecl} {us : List UsingDirective} {ms : List Member} (mem : .type d ∈ ms)
      (here : inDecl d) : Lies inDecl inUsing us ms
  | space {n : NamespaceDecl} {us : List UsingDirective} {ms : List Member} (mem : .space n ∈ ms)
      (inner : Lies inDecl inUsing n.usings n.members) : Lies inDecl inUsing us ms

theorem not_lies_nil : ¬ Lies inDecl inUsing [] [] := by
  intro h
  cases h with
  | directive mem here => exact List.not_mem_nil mem
  | type mem here => exact List.not_mem_nil mem
  | space mem inner => exact List.not_mem_nil mem

theorem Lies.of_cons {u : UsingDirective} {us : List UsingDirective} {ms : List Member}
    (h : Lies inDecl inUsing (u :: us) ms) : inUsing u ∨ Lies inDecl inUsing us ms := by
  cases h with
  | directive mem here =>
    rcases List.mem_cons.1 mem with rfl | mem
    · exact .inl here
    · exact .inr (.directive mem here)
  | type mem here => exact .inr (.type mem here)
  | space mem inner => exact .inr (.space mem inner)

theorem Lies.of_append {us : List UsingDirective} {as ms : List Member}
    (h : Lies inDecl inUsing us (as ++ ms)) :
    Lies inDecl inUsing [] as ∨ Lies inDecl inUsing us ms := by
  cases h with
  | directive mem here => exact .inr (.directive mem here)
  | type mem here => exact (List.mem_append.1 mem).imp (.type · here) (.type · here)
  | space mem inner => exact (List.mem_append.1 mem).imp (.space · inner) (.space · inner)

theorem Lies.of_type {d : TypeDecl} (h : Lies inDecl inUsing [] [Member.type d]) : inDecl d := by
  cases h with
  | directive mem here => exact absurd mem List.not_mem_nil
  | type mem here =>
    obtain rfl := Member.type.inj (List.mem_singleton.1 mem)
    exact here
  | space mem inner => exact absurd (List.mem_singleton.1 mem) (by simp)

theorem Lies.of_space {n : NamespaceDecl} (h : Lies inDecl inUsing [] [.space n]) :
    Lies inDecl inUsing n.usings n.members := by
  cases h with
  | directive mem here => exact absurd mem List.not_mem_nil
  | type mem here => exact absurd (List.mem_singleton.1 mem) (by simp)
  | space mem inner =>
    obtain rfl := Member.space.inj (List.mem_singleton.1 mem)
    exact inner

theorem not_lies_of_not {us : List UsingDirective} {ms : List Member} (h : ¬ Lies inDecl inUsing us ms) :
    (∀ u ∈ us, ¬ inUsing u) ∧ ∀ x ∈ ms, ¬ Lies inDecl inUsing [] [x] := by
  refine ⟨fun u hu hin => h (.directive hu hin), fun x hx hin => h ?_⟩
  cases x with
  | type d => exact .type hx hin.of_type
  | space n => exact .space hx hin.of_space

/-- What fills a hole keeps declarations related in one way and directives in another: it does so in the
type declarations and behind the directives that have the hole, and where they have it not, moving does.
A token that ends at a certain offset tells the ones from the others. -/
structure Filling (H : Hole α) (slice : Span → String) (key : Nat) (inDecl : TypeDecl → Prop)
    (inUsing : UsingDirective → Prop) (R : Respelling → α → TypeDecl → TypeDecl → Prop)
    (S : Respelling → α → List UsingDirective → List UsingDirective → Prop) : Prop where
  key_decl : ∀ {ts : List Token} {d : TypeDecl}, inDecl d → Spelled ts d → key ∈ ts.map (·.span.stop)
  key_directive : ∀ {ts rest : List Token} {u : UsingDirective}, inUsing u → UsingForm slice ts rest u →
    key ∈ ts.map (·.span.stop)
  moved_decl : ∀ {m : Respelling} {a : α} {d : TypeDecl}, m.Moves → ¬ inDecl d →
    d.Parallel (R m a) (m.typeDecl d)
  moved_usings : ∀ {m : Respelling} {a : α} {us : List UsingDirective}, m.Moves →
    (∀ u ∈ us, ¬ inUsing u) → S m a us (us.map m.usingDirective)
  cons_usings : ∀ {m : Respelling} {a : α} {u u' : UsingDirective} {us us' : List UsingDirective},
    ¬ inUsing u → u.SaysSame u' → S m a us us' → S m a (u :: us) (u' :: us')
  decl : ∀ {start : Nat} {attributes : List AttributeList} {modifiers : List String}
    {ts rest : List Token} {d : TypeDecl}, Apart ts → inDecl d →
      DeclForm start attributes modifiers ts rest d →
        H.In slice ts rest fun _ m a ts' rest' => ∀ start attributes modifiers, ∃ d',
          DeclForm start attributes modifiers ts' rest' d' ∧ d.Parallel (R m a) d'
  directive : ∀ {ts rest : List Token} {u : UsingDirective}, inUsing u → UsingForm slice ts rest u →
    H.In slice ts rest fun slice' m a ts' rest' => ∃ vs ws u' v, ts' = vs ++ ws ∧
      UsingForm slice' vs (ws ++ rest') u' ∧ UsingForm slice' ws rest' v ∧
        ∀ us, (∀ u ∈ us, ¬ inUsing u) → S m a (u :: us) (u' :: v :: us.map m.usingDirective)

variable {H : Hole α} {key : Nat} {R : Respelling → α → TypeDecl → TypeDecl → Prop}
  {S : Respelling → α → List UsingDirective → List UsingDirective → Prop}

namespace Filling

variable (F : Filling H slice key inDecl inUsing R S) {m : Respelling} {a : α}

include F

/-- Members without the hole that move are parallel. -/
theorem parallel_moved (hm : m.Moves) (x : Member) (hx : ¬ Lies inDecl inUsing [] [x]) :
    x.Parallel (R m a) (S m a) (m.member x) := by
  match x with
  | .type d => exact .type (F.moved_decl hm fun hd => hx (.type (List.mem_singleton_self _) hd))
  | .space n =>
    have hmember : m.member (.space n) = .space (m.space n) := by
      cases n
      rfl
    have hn : ¬ Lies inDecl inUsing n.usings n.members := fun h =>
      hx (.space (List.mem_singleton_self _) h)
    obtain ⟨husings, hmembers⟩ := not_lies_of_not hn
    rw [hmember]
    refine .space rfl (F.moved_usings hm husings) ?_
    rw [Respelling.space, memberList_eq_map, List.forall₂_map_right_iff]
    refine List.forall₂_same.2 fun y hy => ?_
    have hlt : sizeOf y < 1 + sizeOf n :=
      Nat.lt_trans (List.sizeOf_lt_of_mem hy) (Nat.lt_add_left 1 n.sizeOf_members_lt)
    exact parallel_moved hm y (hmembers y hy)
  termination_by sizeOf x
  decreasing_by simpa using hlt

theorem forall₂_moved (hm : m.Moves) {ms : List Member}
    (hms : ∀ x ∈ ms, ¬ Lies inDecl inUsing [] [x]) :
    List.Forall₂ (Member.Parallel (R m a) (S m a)) ms (m.memberList ms) := by
  rw [memberList_eq_map, List.forall₂_map_right_iff]
  exact List.forall₂_same.2 fun x hx => F.parallel_moved hm x (hms x hx)

theorem members_moved {slice' : Span → String} {ts rest rest' : List Token} {us : List UsingDirective}
    {ms : List Member} {is : List Ident} (h : MembersForm slice ts rest us ms is)
    (hno : ¬ Lies inDecl inUsing us ms) (hm : m.Moves) (hs : SliceKept m slice slice' ts)
    (hrest : Agree rest rest') :
    ∃ us' ms' is', MembersForm slice' (ts.map m.token) rest' us' ms' is' ∧ S m a us us' ∧
      List.Forall₂ (Member.Parallel (R m a) (S m a)) ms ms' := by
  obtain ⟨husings, hmembers⟩ := not_lies_of_not hno
  exact ⟨_, _, _, h.respell (hm.suited ts) hs (hm.identsKept is) hrest, F.moved_usings hm husings,
    F.forall₂_moved hm hmembers⟩

theorem member_moved {slice' : Span → String} {ts rest rest' : List Token} {x : Option Member}
    {is : List Ident} (h : FileMemberForm slice ts rest x is) (hno : ¬ Lies inDecl inUsing [] x.toList)
    (hm : m.Moves) (hs : SliceKept m slice slice' ts) (hrest : Agree rest rest') :
    ∃ x' is', FileMemberForm slice' (ts.map m.token) rest' x' is' ∧
      List.Forall₂ (Member.Parallel (R m a) (S m a)) x.toList x'.toList := by
  refine ⟨_, _, h.respell (hm.suited ts) hs (hm.identsKept is) hrest, ?_⟩
  cases x with
  | none => exact .nil
  | some x => exact .cons (F.parallel_moved hm x hno) .nil

end Filling

mutual

/-- Where members have the hole, the token that tells so is among theirs. -/
theorem MembersForm.key_mem (F : Filling H slice key inDecl inUsing R S) {ts rest : List Token}
    {us : List UsingDirective} {ms : List Member} {is : List Ident} (h : Lies inDecl inUsing us ms) :
    MembersForm slice ts rest us ms is → key ∈ ts.map (·.span.stop)
  | .done _ => absurd h not_lies_nil
  | .semi _ tail => List.mem_cons_of_mem _ (tail.key_mem F h)
  | .using directive tail => by
    rw [List.map_append]
    rcases h.of_cons with here | h
    · exact List.mem_append_left _ (F.key_directive here directive)
    · exact List.mem_append_right _ (tail.key_mem F h)
  | .external _ _ tail => by
    rw [List.map_append]
    exact List.mem_append_right _ (tail.key_mem F h)
  | .member _ member tail => by
    rw [List.map_append]
    rcases h.of_append with here | h
    · exact List.mem_append_left _ (member.key_mem F here)
    · exact List.mem_append_right _ (tail.key_mem F h)

theorem FileMemberForm.key_mem (F : Filling H slice key inDecl inUsing R S) {ts rest : List Token}
    {x : Option Member} {is : List Ident} (h : Lies inDecl inUsing [] x.toList) :
    FileMemberForm slice ts rest x is → key ∈ ts.map (·.span.stop)
  | @FileMemberForm.type _ as ms ds _ _ d _ _ decl => by
    rw [← List.append_assoc] at decl ⊢
    exact F.key_decl h.of_type (decl.spelled d.mem_withNested_self rfl)
  | .space _ _ space => by
    rw [List.map_append, List.map_append]
    exact List.mem_append_right _ (List.mem_append_right _ (space.key_mem F h.of_space))
  | .enum _ _ _ => absurd h not_lies_nil
  | .delegate _ _ _ _ => absurd h not_lies_nil
  | .attributes _ _ _ _ _ => absurd h not_lies_nil

theorem SpaceForm.key_mem (F : Filling H slice key inDecl inUsing R S) {start : Nat}
    {ts rest : List Token} {n : NamespaceDecl} {is : List Ident}
    (h : Lies inDecl inUsing n.usings n.members) :
    SpaceForm slice start ts rest n is → key ∈ ts.map (·.span.stop)
  | .file _ _ _ _ members => by simp [members.key_mem F h]
  | .braces _ _ _ _ members _ _ => by simp [members.key_mem F h]

end

mutual

/-- A hole of a declaration or directive is one of the members of a file. -/
theorem MembersForm.hole (F : Filling H slice key inDecl inUsing R S) {ts rest : List Token}
    {us : List UsingDirective} {ms : List Member} {is : List Ident} (hts : Apart ts)
    (h : Lies inDecl inUsing us ms) :
    MembersForm slice ts rest us ms is → H.In slice ts rest fun slice' m a ts' rest' =>
      ∃ us' ms' is', MembersForm slice' ts' rest' us' ms' is' ∧ S m a us us' ∧
        List.Forall₂ (Member.Parallel (R m a) (S m a)) ms ms'
  | .done _ => absurd h not_lies_nil
  | @MembersForm.semi _ s ts _ us ms is semi tail => by
    refine (tail.hole F (hts.mono (List.sublist_cons_self s ts)) h).behind [s] ?_
    rintro slice' m a ts' rest' hm - hrest - ⟨us', ms', is', htail, hus, hms⟩
    exact ⟨us', ms', is', .semi (s := m.token s) semi htail, hus, hms⟩
  | @MembersForm.using _ ts vs _ u us ms is directive tail => by
    rcases h.of_cons with here | h
    · have hno : ¬ Lies inDecl inUsing us ms := fun h =>
        hts.not_mem (F.key_directive here directive) (tail.key_mem F h)
      obtain ⟨husings, hmembers⟩ := not_lies_of_not hno
      rw [← List.nil_append (ts ++ vs)]
      refine (F.directive here directive).within [] vs ?_
      rintro slice' m a ts' rest' hm - hvs hrest hwhole ⟨fs, ws, u', v, rfl, hu, hv, hS⟩
      have htail := tail.respell (hm.suited vs) hvs (hm.identsKept is) hrest
      have hform := MembersForm.using (by rwa [List.append_assoc]) (MembersForm.using hv htail)
      rw [List.map_nil, List.nil_append, List.append_assoc]
      exact ⟨_, _, _, hform, hS us husings, F.forall₂_moved hm hmembers⟩
    · have hno : ¬ inUsing u := fun here =>
        hts.not_mem (F.key_directive here directive) (tail.key_mem F h)
      refine (tail.hole F (hts.mono (List.sublist_append_right ts vs)) h).behind _ ?_
      rintro slice' m a ts' rest' hm hs hrest hwhole ⟨us', ms', is', htail, hus, hms⟩
      have hu := directive.respell (fun t _ => hm.suits t) (hm.kept ts) hs hwhole.toAgree
      exact ⟨_, _, _, .using hu htail, F.cons_usings hno ⟨rfl, rfl⟩ hus, hms⟩
  | @MembersForm.external _ ts vs _ us ms is start form tail => by
    refine (tail.hole F (hts.mono (List.sublist_append_right ts vs)) h).behind _ ?_
    rintro slice' m a ts' rest' hm - hrest hwhole ⟨us', ms', is', htail, hus, hms⟩
    have hstart := (ExternAt.agree_iff (hwhole.moves hm ts)).2 start
    have hform : StatementForm (ts.map m.token) (ts' ++ rest') := by
      rw [StatementForm, List.length_map]
      exact statementLength_agree form hwhole.toAgree
    exact ⟨_, _, _, .external hstart hform htail, hus, hms⟩
  | @MembersForm.member _ ts vs _ x us ms js is start member tail => by
    rcases h.of_append with here | h
    · have hno : ¬ Lies inDecl inUsing us ms := fun h =>
        hts.not_mem (member.key_mem F here) (tail.key_mem F h)
      rw [← List.nil_append (ts ++ vs)]
      refine (member.hole F (hts.mono (List.sublist_append_left ts vs)) here).within [] vs ?_
      rintro slice' m a ts' rest' hm - hvs hrest hwhole ⟨x', is', hmember, hx⟩
      obtain ⟨us', ms', js', htail, hus, hms⟩ := F.members_moved (a := a) tail hno hm hvs hrest
      have hform := MembersForm.member (start.agree hwhole) hmember htail
      rw [List.map_nil, List.nil_append]
      exact ⟨us', _, _, hform, hus, List.rel_append hx hms⟩
    · have hno : ¬ Lies inDecl inUsing [] x.toList := fun here =>
        hts.not_mem (member.key_mem F here) (tail.key_mem F h)
      refine (tail.hole F (hts.mono (List.sublist_append_right ts vs)) h).behind _ ?_
      rintro slice' m a ts' rest' hm hs hrest hwhole ⟨us', ms', is', htail, hus, hms⟩
      obtain ⟨x', js', hmember, hx⟩ := F.member_moved (a := a) member hno hm hs hwhole.toAgree
      exact ⟨us', _, _, .member (start.agree (hwhole.moves hm ts)) hmember htail, hus,
        List.rel_append hx hms⟩

theorem FileMemberForm.hole (F : Filling H slice key inDecl inUsing R S) {ts rest : List Token}
    {x : Option Member} {is : List Ident} (hts : Apart ts) (h : Lies inDecl inUsing [] x.toList) :
    FileMemberForm slice ts rest x is → H.In slice ts rest fun slice' m a ts' rest' =>
      ∃ x' is', FileMemberForm slice' ts' rest' x' is' ∧
        List.Forall₂ (Member.Parallel (R m a) (S m a)) x.toList x'.toList
  | @FileMemberForm.type _ as ms ds _ attributes d attributesForm modifiers decl => by
    rw [← List.append_assoc] at hts ⊢
    refine (F.decl (hts.mono (List.sublist_append_right _ ds)) (Lies.of_type h) decl).behind _ ?_
    rintro - m a ds' rest' hm - hrest hwhole hP
    obtain ⟨hattributes, hmodifiers⟩ := front_moved hm hwhole.toAgree attributesForm modifiers
    obtain ⟨d', hdecl, hparallel⟩ := hP _ _ _
    rw [List.map_append, List.append_assoc]
    exact ⟨_, _, .type hattributes hmodifiers hdecl, .cons (.type hparallel) .nil⟩
  | @FileMemberForm.space _ as ms ns _ attributes n is attributesForm modifiers space => by
    rw [← List.append_assoc] at hts ⊢
    refine (space.hole F (hts.mono (List.sublist_append_right _ ns)) (Lies.of_space h)).behind _ ?_
    rintro slice' m a ns' rest' hm - hrest hwhole hP
    obtain ⟨hattributes, hmodifiers⟩ := front_moved hm hwhole.toAgree attributesForm modifiers
    obtain ⟨n', is', hspace, hparallel⟩ := hP _
    rw [List.map_append, List.append_assoc]
    exact ⟨_, _, .space hattributes hmodifiers hspace, .cons hparallel .nil⟩
  | .enum _ _ _ => absurd h not_lies_nil
  | .delegate _ _ _ _ => absurd h not_lies_nil
  | .attributes _ _ _ _ _ => absurd h not_lies_nil

theorem SpaceForm.hole (F : Filling H slice key inDecl inUsing R S) {start : Nat} {ts rest : List Token}
    {n : NamespaceDecl} {is : List Ident} (hts : Apart ts) (h : Lies inDecl inUsing n.usings n.members) :
    SpaceForm slice start ts rest n is →
      H.In slice ts rest fun slice' m a ts' rest' => ∀ start, ∃ n' is',
        SpaceForm slice' start ts' rest' n' is' ∧
          Member.Parallel (R m a) (S m a) (.space n) (.space n')
  | @SpaceForm.file _ _ k t s ns ts _ name nameSpan us ms is hword first dotted semi members => by
    have hassoc : k :: t :: (ns ++ s :: ts) = k :: t :: (ns ++ [s]) ++ ts := by simp
    rw [hassoc] at hts ⊢
    refine (members.hole F (hts.mono (List.sublist_append_right _ ts)) h).behind _ ?_
    rintro slice' m a ts' rest' hm - hrest hwhole ⟨us', ms', is', hmembers, hus, hms⟩ start
    have hdotted := dotted.respell (hm.kept ns) (hwhole.moves hm [s]).toAgree
    have hname : (m.token t).text = t.text := hm.text_eq _ _
    rw [← hname] at hdotted
    have hform : SpaceForm slice' start _ rest' _ _ := .file (k := m.token k) (t := m.token t)
      (s := m.token s) hword first hdotted semi hmembers
    simp only [List.map_cons, List.map_append, List.map_nil, List.cons_append, List.append_assoc,
      List.nil_append]
    exact ⟨_, _, hform, .space rfl hus hms⟩
  | @SpaceForm.braces _ _ k t o c ns ts ss _ name nameSpan us ms is hword first dotted opener
      members closer semi => by
    have hassoc : k :: t :: (ns ++ o :: (ts ++ c :: ss)) = k :: t :: (ns ++ [o]) ++ (ts ++ c :: ss) := by
      simp
    rw [hassoc] at hts ⊢
    have hbody := hts.mono ((List.sublist_append_left ts (c :: ss)).trans (List.sublist_append_right _ _))
    refine (members.hole F hbody h).within _ _ ?_
    rintro slice' m a ts' rest' hm - - hrest hwhole ⟨us', ms', is', hmembers, hus, hms⟩ start
    have hdotted := dotted.respell (hm.kept ns) (hwhole.moves hm [o]).toAgree
    have hname : (m.token t).text = t.text := hm.text_eq _ _
    rw [← hname] at hdotted
    have hform : SpaceForm slice' start _ rest' _ _ := .braces (k := m.token k) (t := m.token t)
      (o := m.token o) (c := m.token c) hword first hdotted opener hmembers closer
      (semi.respell hrest)
    simp only [List.map_cons, List.map_append, List.map_nil, List.cons_append, List.append_assoc,
      List.nil_append]
    exact ⟨_, _, hform, .space rfl hus hms⟩

end

end SelfTypeLint.Grammar
