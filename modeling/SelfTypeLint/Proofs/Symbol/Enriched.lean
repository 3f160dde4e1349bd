import SelfTypeLint.Proofs.Symbol.Counterparts

/-!
# Trees with more directives

Being parallel goes from tree to tree (`SyntaxTree.Parallel.trans`). `Enriches` relates directives to the
same ones with others for namespaces among them.
-/

namespace SelfTypeLint

variable {R R' R'' : TypeDecl → TypeDecl → Prop} {S S' S'' : List UsingDirective → List UsingDirective → Prop}

/-- Lists that are related to one list are related to each other where their elements are. -/
theorem forall₂_trans {α : Type} {r r' r'' : α → α → Prop} {as bs cs : List α} (h : List.Forall₂ r as bs)
    (h' : List.Forall₂ r' bs cs) (hr : ∀ a ∈ as, ∀ b c, r a b → r' b c → r'' a c) : List.Forall₂ r'' as cs := by
  induction h generalizing cs with
  | nil =>
    cases h'
    exact .nil
  | @cons a b as bs hab _ ih =>
    cases h' with
    | cons hbc htail =>
      obtain ⟨ha, has⟩ := List.forall_mem_cons.1 hr
      exact .cons (ha b _ hab hbc) (ih htail has)

/-- Of related lists each element of the first is related to one of the second. -/
theorem exists_of_forall₂ {α β : Type} {r : α → β → Prop} {as : List α} {bs : List β} (h : List.Forall₂ r as bs)
    {a : α} (ha : a ∈ as) : ∃ b ∈ bs, r a b := by
  induction h with
  | nil => exact absurd ha List.not_mem_nil
  | cons hfirst _ ih =>
    rcases List.mem_cons.1 ha with rfl | ha
    · exact ⟨_, List.mem_cons_self, hfirst⟩
    · obtain ⟨b, hb, hab⟩ := ih ha
      exact ⟨b, List.mem_cons_of_mem _ hb, hab⟩

theorem TypeDecl.Parallel.trans {d d' d'' : TypeDecl} (h : d.Parallel R d') (h' : d'.Parallel R' d'')
    (hR : ∀ a b c, R a b → R' b c → R'' a c) : d.Parallel R'' d'' := by
  cases h with
  | mk head own nested =>
    cases h' with
    | mk head' own' nested' =>
      have hmatches : d.Matches d'' :=
        ⟨head'.kind.trans head.kind, head'.name.trans head.name, head'.arity.trans head.arity⟩
      refine .mk hmatches (hR d d' d'' own own') (forall₂_trans nested nested' fun a ha b c hab hbc => ?_)
      have hlt := TypeDecl.sizeOf_lt_of_mem_nested ha
      exact hab.trans hbc hR
  termination_by sizeOf d

theorem Member.Parallel.trans {a b c : Member} (h : a.Parallel R S b) (h' : b.Parallel R' S' c)
    (hR : ∀ a b c, R a b → R' b c → R'' a c) (hS : ∀ a b c, S a b → S' b c → S'' a c) :
    a.Parallel R'' S'' c := by
  match a with
  | .type d =>
    cases h with
    | type decl =>
      cases h' with
      | type decl' => exact .type (decl.trans decl' hR)
  | .space n =>
    cases h with
    | space name usings members =>
      cases h' with
      | space name' usings' members' =>
        refine .space (name'.trans name) (hS _ _ _ usings usings')
          (forall₂_trans members members' fun x hx y z hxy hyz => ?_)
        have hlt : sizeOf x < 1 + sizeOf n :=
          Nat.lt_trans (List.sizeOf_lt_of_mem hx) (Nat.lt_add_left 1 n.sizeOf_members_lt)
        exact hxy.trans hyz hR hS
  termination_by sizeOf a
  decreasing_by simpa using hlt

theorem TypeDecl.Parallel.refl (d : TypeDecl) (hR : ∀ e ∈ d.withNested, R e e) : d.Parallel R d := by
  refine .mk ⟨rfl, rfl, rfl⟩ (hR d d.mem_withNested_self) (List.forall₂_same.2 fun n hn => ?_)
  have hlt := TypeDecl.sizeOf_lt_of_mem_nested hn
  exact refl n fun e he => hR e (TypeDecl.mem_withNested_of_nested hn he)
  termination_by sizeOf d

theorem Member.Parallel.refl (a : Member) (hR : ∀ e ∈ a.typeDecls, R e e) (hS : ∀ us, S us us) :
    a.Parallel R S a := by
  match a with
  | .type d =>
    rw [Member.typeDecls_type] at hR
    exact .type (.refl d hR)
  | .space n =>
    rw [Member.typeDecls_space] at hR
    refine .space rfl (hS n.usings) (List.forall₂_same.2 fun x hx => ?_)
    have hlt : sizeOf x < 1 + sizeOf n :=
      Nat.lt_trans (List.sizeOf_lt_of_mem hx) (Nat.lt_add_left 1 n.sizeOf_members_lt)
    exact refl x (fun e he => hR e (List.mem_flatMap.2 ⟨x, hx, he⟩)) hS
  termination_by sizeOf a
  decreasing_by simpa using hlt

namespace SyntaxTree.Parallel

variable {R R' R'' : FileId → TypeDecl → TypeDecl → Prop} {t t' t'' : SyntaxTree}

theorem trans (h : t.Parallel R S t') (h' : t'.Parallel R' S' t'')
    (hR : ∀ a b c, R t.file a b → R' t.file b c → R'' t.file a c) (hS : ∀ a b c, S a b → S' b c → S'' a c) :
    t.Parallel R'' S'' t'' where
  file := h'.file.trans h.file
  usings := hS _ _ _ h.usings h'.usings
  members := by
    have hmembers := h'.members
    rw [h.file] at hmembers
    exact forall₂_trans h.members hmembers fun a _ b c hab hbc => hab.trans hbc hR hS

theorem refl (t : SyntaxTree) (hR : ∀ d ∈ t.typeDecls, R t.file d d) (hS : ∀ us, S us us) :
    t.Parallel R S t where
  file := rfl
  usings := hS t.usings
  members := List.forall₂_same.2 fun a ha =>
    .refl a (fun e he => hR e (List.mem_flatMap.2 ⟨a, ha, he⟩)) hS

/-- Each declaration has a counterpart. -/
theorem exists_counterpart (h : t.Parallel R S t') {d : TypeDecl} (hd : d ∈ t.typeDecls) :
    ∃ d' ∈ t'.typeDecls, t.Counterparts R S t' d d' :=
  exists_of_forall₂ h.counterparts hd

/-- Trees that are parallel in one way are so in every weaker one. -/
theorem imp (h : t.Parallel R S t') (hR : ∀ a b, R t.file a b → R' t.file a b) (hS : ∀ a b, S a b → S' a b) :
    t.Parallel R' S' t' := by
  have hself : t'.Parallel (fun _ => Eq) Eq t' := .refl t' (fun _ _ => rfl) fun _ => rfl
  refine h.trans hself (fun a b c hab hbc => ?_) fun a b c hab hbc => ?_
  · rw [← hbc]
    exact hR a b hab
  · rw [← hbc]
    exact hS a b hab

end SyntaxTree.Parallel

/-- Holds of directives of which the second say what the first do and, apart from that, only bring in
namespaces. -/
structure Enriches (us us' : List UsingDirective) : Prop where
  kept : ∀ u ∈ us, ∃ u' ∈ us', u.SaysSame u'
  new : ∀ u' ∈ us', u'.kind = .ofNamespace ∨ ∃ u ∈ us, u.SaysSame u'

theorem UsingDirective.SaysSame.trans {u u' u'' : UsingDirective} (h : u.SaysSame u') (h' : u'.SaysSame u'') :
    u.SaysSame u'' :=
  ⟨h'.meaning.trans h.meaning, h'.isGlobal.trans h.isGlobal⟩

theorem UsingDirective.SaysSame.kind_eq {u u' : UsingDirective} (h : u.SaysSame u') : u'.kind = u.kind :=
  congrArg Prod.fst h.meaning

theorem UsingDirective.SaysSame.target_eq {u u' : UsingDirective} (h : u.SaysSame u') :
    u'.target = u.target :=
  congrArg (·.2.2) h.meaning

namespace Enriches

variable {us us' us'' : List UsingDirective}

theorem refl (us : List UsingDirective) : Enriches us us :=
  ⟨fun u hu => ⟨u, hu, rfl, rfl⟩, fun u hu => .inr ⟨u, hu, rfl, rfl⟩⟩

theorem trans (h : Enriches us us') (h' : Enriches us' us'') : Enriches us us'' where
  kept u hu := by
    obtain ⟨u', hu', hsame⟩ := h.kept u hu
    obtain ⟨u'', hu'', hsame'⟩ := h'.kept u' hu'
    exact ⟨u'', hu'', hsame.trans hsame'⟩
  new u'' hu'' := by
    rcases h'.new u'' hu'' with hkind | ⟨u', hu', hsame'⟩
    · exact .inl hkind
    · rcases h.new u' hu' with hkind | ⟨u, hu, hsame⟩
      · exact .inl (hsame'.kind_eq.trans hkind)
      · exact .inr ⟨u, hu, hsame.trans hsame'⟩

theorem cons (h : Enriches us us') {u u' : UsingDirective} (hu : u.SaysSame u') :
    Enriches (u :: us) (u' :: us') where
  kept v hv := by
    rcases List.mem_cons.1 hv with rfl | hv
    · exact ⟨u', List.mem_cons_self, hu⟩
    · obtain ⟨v', hv', hsame⟩ := h.kept v hv
      exact ⟨v', List.mem_cons_of_mem u' hv', hsame⟩
  new v' hv' := by
    rcases List.mem_cons.1 hv' with rfl | hv'
    · exact .inr ⟨u, List.mem_cons_self, hu⟩
    · exact (h.new v' hv').imp_right fun ⟨v, hv, hsame⟩ => ⟨v, List.mem_cons_of_mem u hv, hsame⟩

/-- A directive for a namespace more. -/
theorem add (h : Enriches us us') {u' : UsingDirective} (hu' : u'.kind = .ofNamespace) :
    Enriches us (u' :: us') where
  kept u hu := by
    obtain ⟨v', hv', hsame⟩ := h.kept u hu
    exact ⟨v', List.mem_cons_of_mem u' hv', hsame⟩
  new v' hv' := by
    rcases List.mem_cons.1 hv' with rfl | hv'
    · exact .inl hu'
    · exact h.new v' hv'

theorem append {vs vs' : List UsingDirective} (h : Enriches us us') (h' : Enriches vs vs') :
    Enriches (us ++ vs) (us' ++ vs') where
  kept u hu := by
    rcases List.mem_append.1 hu with hu | hu
    · exact (h.kept u hu).imp fun u' hu' => hu'.imp_left (List.mem_append_left _)
    · exact (h'.kept u hu).imp fun u' hu' => hu'.imp_left (List.mem_append_right _)
  new u' hu' := by
    rcases List.mem_append.1 hu' with hu' | hu'
    · exact (h.new u' hu').imp_right fun ⟨u, hu, hsame⟩ => ⟨u, List.mem_append_left _ hu, hsame⟩
    · exact (h'.new u' hu').imp_right fun ⟨u, hu, hsame⟩ => ⟨u, List.mem_append_right _ hu, hsame⟩

end Enriches

theorem SameUsings.enriches {us us' : List UsingDirective} (h : SameUsings us us') : Enriches us us' := by
  induction h with
  | nil => exact .refl []
  | cons hu _ ih => exact ih.cons hu

theorem SyntaxTree.Counterparts.imp {R : FileId → TypeDecl → TypeDecl → Prop}
    {S S' : List UsingDirective → List UsingDirective → Prop} {t t' : SyntaxTree} {d d' : TypeDecl}
    (h : t.Counterparts R S t' d d') (hS : ∀ a b, S a b → S' a b) : t.Counterparts R S' t' d d' where
  own := h.own
  matching := h.matching
  located := h.located
  within := by
    obtain ⟨ns, ns', hns, hns', hall⟩ := h.within
    exact ⟨ns, ns', hns, hns', hall.imp fun n n' hn => ⟨hn.name, hS _ _ hn.usings⟩⟩

end SelfTypeLint
