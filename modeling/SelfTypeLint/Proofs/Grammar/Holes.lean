import SelfTypeLint.Proofs.Grammar.Moved
import SelfTypeLint.Proofs.Grammar.Owners
import SelfTypeLint.Proofs.Symbol.Respelled

/-!
# Holes

Some tokens of a file are exchanged for others while the tokens around them move. `Hole.In` says that the
tokens of a form have a hole and that, whatever fills it, they spell a form again; `Hole.In.within` takes
a hole from a part of a form to the whole. The head of each declaration of a file is such a hole
(`MembersForm.head`): the tree of the new tokens is parallel to that of the old ones.
-/

namespace SelfTypeLint

open Token Grammar

namespace Grammar

/-- What may stand in a hole, and what may be put there: both see the tokens that follow. The tokens that
are put spell something, and in front the grammar sees the same of them as of the old ones. -/
structure Hole (α : Type) where
  /-- Holds of the tokens in the hole in front of others. -/
  old : List Token → List Token → Prop
  /-- Holds of tokens that may be put in front of others for those in the hole. -/
  new : Respelling → List Token → List Token → List Token → α → Prop
  agree : ∀ {m : Respelling} {hs hs' rest rest' : List Token} {a : α}, m.Moves →
    new m hs hs' rest' a → AgreeText (hs ++ rest) (hs' ++ rest')

variable {α : Type} {slice : Span → String}

/-- Holds of tokens with a hole. Where the tokens around it move, in another text, what fills it makes
tokens of which `P` holds. -/
def Hole.In (H : Hole α) (slice : Span → String) (ts rest : List Token)
    (P : (Span → String) → Respelling → α → List Token → List Token → Prop) : Prop :=
  ∃ xs hs ys, ts = xs ++ (hs ++ ys) ∧ H.old hs (ys ++ rest) ∧
    ∀ (slice' : Span → String) (m : Respelling) (hs' rest' : List Token) (a : α), m.Moves →
      SliceKept m slice slice' xs → SliceKept m slice slice' ys → Agree rest rest' →
        H.new m hs hs' (ys.map m.token ++ rest') a →
          P slice' m a (xs.map m.token ++ (hs' ++ ys.map m.token)) rest'

/-- A hole of a part is one of the whole. -/
theorem Hole.In.within {H : Hole α} {ts rest : List Token}
    {P Q : (Span → String) → Respelling → α → List Token → List Token → Prop} (fs us : List Token)
    (h : H.In slice ts (us ++ rest) P)
    (hPQ : ∀ (slice' : Span → String) (m : Respelling) (a : α) (ts' rest' : List Token), m.Moves →
      SliceKept m slice slice' fs → SliceKept m slice slice' us → Agree rest rest' →
      AgreeText (ts ++ (us ++ rest)) (ts' ++ (us.map m.token ++ rest')) →
      P slice' m a ts' (us.map m.token ++ rest') →
      Q slice' m a (fs.map m.token ++ (ts' ++ us.map m.token)) rest') :
    H.In slice (fs ++ (ts ++ us)) rest Q := by
  obtain ⟨xs, hs, ys, rfl, hold, hnew⟩ := h
  refine ⟨fs ++ xs, hs, ys ++ us, by simp, by rwa [List.append_assoc], ?_⟩
  intro slice' m hs' rest' a hm hxs hys hrest hfill
  rw [List.map_append, List.append_assoc] at hfill
  have hus := hrest.moves hm us
  have hP := hnew slice' m hs' _ a hm (hxs.mono ⟨fs, [], by simp⟩) (hys.mono ⟨[], us, rfl⟩) hus hfill
  have hhole : AgreeText (hs ++ (ys ++ (us ++ rest))) _ := H.agree hm hfill
  have hwhole := hhole.moves hm xs
  have hQ := hPQ slice' m a _ rest' hm (hxs.mono ⟨[], xs, rfl⟩) (hys.mono ⟨ys, [], by simp⟩) hrest
    (by simpa using hwhole) hP
  simpa using hQ

theorem Hole.In.behind {H : Hole α} {ts rest : List Token}
    {P Q : (Span → String) → Respelling → α → List Token → List Token → Prop} (fs : List Token)
    (h : H.In slice ts rest P)
    (hPQ : ∀ (slice' : Span → String) (m : Respelling) (a : α) (ts' rest' : List Token), m.Moves →
      SliceKept m slice slice' fs → Agree rest rest' → AgreeText (ts ++ rest) (ts' ++ rest') →
      P slice' m a ts' rest' → Q slice' m a (fs.map m.token ++ ts') rest') :
    H.In slice (fs ++ ts) rest Q := by
  rw [← List.append_nil ts]
  refine Hole.In.within fs [] (P := P) h fun slice' m a ts' rest' hm hfs _ hrest hwhole hP => ?_
  rw [List.map_nil, List.append_nil]
  exact hPQ slice' m a ts' rest' hm hfs hrest hwhole hP

/-- What stands in front of a declaration moves. -/
theorem front_moved {m : Respelling} (hm : m.Moves) {as ms rest rest' : List Token}
    {attributes : List AttributeList} (hrest : Agree rest rest')
    (attributesForm : AttributeListsForm as (ms ++ rest) attributes)
    (modifiers : ModifiersForm ms rest) :
    AttributeListsForm (as.map m.token) (ms.map m.token ++ rest') (attributes.map m.attributeList) ∧
      ModifiersForm (ms.map m.token) rest' :=
  ⟨attributesForm.respell (hm.suited as) (hrest.moves hm ms),
    (modifiers.respell (fun t _ => hm.suits t) hrest).1⟩

end Grammar

/-! ## Heads -/

/-- The head of a declaration. -/
def TypeDecl.header (d : TypeDecl) : Header where
  kind := d.kind
  name := ⟨d.name, d.nameSpan⟩
  typeParams := d.typeParams
  typeParamListSpan := d.typeParamListSpan
  baseList := d.baseList

/-- Holds of declarations of which the second has the head of the first at its new places, but another one
if the first is a certain declaration. -/
structure TypeDecl.Patched (m : Respelling) (target : TypeDecl) (h : Header) (d d' : TypeDecl) : Prop where
  exchanged : d = target → d'.header = h
  other : d ≠ target → d'.header = m.header d.header

theorem Respelling.header_typeDecl (m : Respelling) (d : TypeDecl) :
    (m.typeDecl d).header = m.header d.header := by
  cases d
  rfl

/-- Holds of the tokens of another head for a declaration: the first two stay, and with them the name, and
there are as many type parameters. -/
structure NewHead (target : TypeDecl) (m : Respelling) (hs hs' rest : List Token) (h : Header) :
    Prop where
  form : HeaderForm hs' rest h
  front : ∃ t u vs vs', hs = t :: u :: vs ∧ hs' = m.token t :: m.token u :: vs'
  kind : h.kind = target.kind
  name : h.name.name = target.name
  arity : h.typeParams.length = target.arity

/-- The head of a declaration as a hole. -/
def headHole (target : TypeDecl) : Hole Header where
  old hs rest := HeaderForm hs rest target.header
  new := NewHead target
  agree := by
    rintro m hs hs' rest rest' h hm ⟨-, ⟨t, u, vs, vs', rfl, rfl⟩, -, -, -⟩
    exact agreeText_of_two hm t u _ _

variable {m : Respelling} {target : TypeDecl} {h' : Header}

theorem TypeDecl.patched_of_ne {d d' : TypeDecl} (hd : d ≠ target) (h : d'.header = m.header d.header) :
    TypeDecl.Patched m target h' d d' :=
  ⟨fun heq => absurd heq hd, fun _ => h⟩

/-- Other declarations that move are parallel. -/
theorem parallel_moved (hm : m.Moves) {d : TypeDecl} (hd : target ∉ d.withNested) :
    d.Parallel (TypeDecl.Patched m target h') (m.typeDecl d) := by
  refine Respelling.parallel_typeDecl d fun e he => ⟨?_, hm.word _⟩
  exact TypeDecl.patched_of_ne (fun heq => hd (heq ▸ he)) (m.header_typeDecl e)

theorem forall₂_parallel_moved (hm : m.Moves) {ds : List TypeDecl}
    (hds : target ∉ ds.flatMap TypeDecl.withNested) :
    List.Forall₂ (TypeDecl.Parallel (TypeDecl.Patched m target h')) ds (m.typeDeclList ds) := by
  rw [Respelling.typeDeclList_eq_map, List.forall₂_map_right_iff]
  exact List.forall₂_same.2 fun d hd => parallel_moved hm fun hmem =>
    hds (List.mem_flatMap.2 ⟨d, hd, hmem⟩)

namespace Grammar

variable {slice : Span → String}

/-- Holds of tokens of which no two end at the same offset. -/
def Apart (ts : List Token) : Prop := (ts.map (·.span.stop)).Nodup

theorem Apart.mono {ts us : List Token} (h : Apart ts) (hus : us.Sublist ts) : Apart us :=
  List.Nodup.sublist (hus.map _) h

theorem Apart.not_mem {ts us : List Token} (h : Apart (ts ++ us)) {n : Nat}
    (hn : n ∈ ts.map (·.span.stop)) : n ∉ us.map (·.span.stop) := by
  rw [Apart, List.map_append] at h
  exact fun hus => (List.nodup_append.1 h).2.2 n hn n hus rfl

theorem apart_of_placed {offset : Nat} {ts : List Token} (h : Placed offset ts) : Apart ts := by
  rw [Apart, List.Nodup, List.pairwise_map]
  refine h.pairwise.imp_of_mem fun {t u} _ hu hle => ?_
  have hlt := (h.start_le hu).2
  omega

theorem HeaderForm.name_mem {hs rest : List Token} {h : Header} (hh : HeaderForm hs rest h) :
    h.name.span.stop ∈ hs.map (·.span.stop) := by
  cases hh
  simp

/-- The name of a declaration that some tokens spell is one of them. -/
theorem Spelled.name_mem {ts : List Token} {d : TypeDecl} (h : Spelled ts d) :
    d.nameSpan.stop ∈ ts.map (·.span.stop) := by
  obtain ⟨as, us, rest, attributes, modifiers, hsub, hform⟩ := h
  obtain ⟨n, hn, -, -, hspan⟩ := hform.exists_name
  exact List.mem_map.2 ⟨n, hsub.subset (List.mem_append_right as hn), by rw [hspan]⟩

/-- Another declaration that moves stays one, whatever stands in front of it. -/
theorem DeclForm.moved {start : Nat} {attributes : List AttributeList} {modifiers : List String}
    {ts rest rest' : List Token} {d : TypeDecl} (h : DeclForm start attributes modifiers ts rest d)
    (hd : target ∉ d.withNested) (h' : Header) (hm : m.Moves) (hrest : Agree rest rest') (start' : Nat)
    (attributes' : List AttributeList) (modifiers' : List String) :
    ∃ d', DeclForm start' attributes' modifiers' (ts.map m.token) rest' d' ∧
      d.Parallel (TypeDecl.Patched m target h') d' := by
  rw [TypeDecl.withNested_eq, List.mem_cons, not_or] at hd
  cases h with
  | @mk _ _ _ hs bs _ header nested is head block =>
    have hhead := head.respell (hm.suited hs) (hrest.moves hm bs)
    have hblock := block.respell (hm.suited bs) hrest
    rw [List.map_append]
    refine ⟨_, .mk hhead hblock, .mk ?_ ?_ (forall₂_parallel_moved hm hd.2)⟩
    · exact ⟨rfl, hm.text_eq _ _, List.length_map ..⟩
    · exact TypeDecl.patched_of_ne (fun heq => hd.1 heq.symm) rfl

theorem BodyForm.moved {ts rest rest' : List Token} {nested : List TypeDecl} {is : List Ident}
    (h : BodyForm ts rest nested is) (hnested : target ∉ nested.flatMap TypeDecl.withNested)
    (hm : m.Moves) (hrest : Agree rest rest') : ∃ nested' is', BodyForm (ts.map m.token) rest' nested' is' ∧
      List.Forall₂ (TypeDecl.Parallel (TypeDecl.Patched m target h')) nested nested' :=
  ⟨_, _, h.respell (hm.suited ts) hrest, forall₂_parallel_moved hm hnested⟩

mutual

/-- The head of a declaration, or of one nested in it, can be exchanged. -/
theorem DeclForm.head {start : Nat} {attributes : List AttributeList} {modifiers : List String}
    {ts rest : List Token} {d : TypeDecl} (hts : Apart ts) (hd : target ∈ d.withNested) :
    DeclForm start attributes modifiers ts rest d →
      (headHole target).In slice ts rest fun _ m h' ts' rest' =>
        ∀ start attributes modifiers, ∃ d', DeclForm start attributes modifiers ts' rest' d' ∧
          d.Parallel (TypeDecl.Patched m target h') d'
  | @DeclForm.mk _ _ _ hs bs _ header nested is head block => by
    have hname := hts.not_mem head.name_mem
    rw [TypeDecl.withNested_eq] at hd
    rcases List.mem_cons.1 hd with rfl | hd
    · refine ⟨[], hs, bs, rfl, head, ?_⟩
      intro _ m hs' rest' h' hm _ _ hrest hnew start attributes modifiers
      have hform : DeclForm start attributes modifiers (hs' ++ bs.map m.token) rest' _ :=
        .mk hnew.form (block.respell (hm.suited bs) hrest)
      refine ⟨_, hform, .mk ⟨hnew.kind, hnew.name, hnew.arity⟩ ⟨fun _ => rfl, fun h => absurd rfl h⟩ ?_⟩
      exact forall₂_parallel_moved hm fun hmem => hname (block.spelled hmem).name_mem
    · refine (block.head (hts.mono (List.sublist_append_right hs bs)) hd).behind _ ?_
      rintro - m h' bs' rest' hm - - hwhole ⟨nested', is', hblock, hnested⟩ start attributes modifiers
      refine ⟨_, .mk (head.respell (hm.suited hs) hwhole.toAgree) hblock, .mk ?_ ?_ hnested⟩
      · exact ⟨rfl, hm.text_eq _ _, List.length_map ..⟩
      · refine TypeDecl.patched_of_ne (fun heq => hname ?_) rfl
        have hspelled := (block.spelled hd).name_mem
        rwa [← heq] at hspelled

theorem BlockForm.head {ts rest : List Token} {nested : List TypeDecl} {is : List Ident}
    (hts : Apart ts) (hd : target ∈ nested.flatMap TypeDecl.withNested) : BlockForm ts rest nested is →
      (headHole target).In slice ts rest fun _ m h' ts' rest' =>
        ∃ nested' is', BlockForm ts' rest' nested' is' ∧
          List.Forall₂ (TypeDecl.Parallel (TypeDecl.Patched m target h')) nested nested'
  | .semi _ => absurd hd (by simp)
  | @BlockForm.braces o c ts ss _ nested is opener body closer semi => by
    have hbody := hts.mono ((List.sublist_append_left ts (c :: ss)).trans (List.sublist_cons_self o _))
    refine (body.head hbody hd).within [o] (c :: ss) ?_
    rintro - m h' ts' rest' hm - - hrest - ⟨nested', is', hbody, hnested⟩
    exact ⟨nested', is', .braces (o := m.token o) (c := m.token c) opener hbody closer
      (semi.respell hrest), hnested⟩

theorem BodyForm.head {ts rest : List Token} {nested : List TypeDecl} {is : List Ident}
    (hts : Apart ts) (hd : target ∈ nested.flatMap TypeDecl.withNested) : BodyForm ts rest nested is →
      (headHole target).In slice ts rest fun _ m h' ts' rest' =>
        ∃ nested' is', BodyForm ts' rest' nested' is' ∧
          List.Forall₂ (TypeDecl.Parallel (TypeDecl.Patched m target h')) nested nested'
  | .done _ => absurd hd (by simp)
  | @BodyForm.semi s ts _ nested is semi tail => by
    refine (tail.head (hts.mono (List.sublist_cons_self s ts)) hd).behind [s] ?_
    rintro - m h' ts' rest' hm - hrest - ⟨nested', is', hbody, hnested⟩
    exact ⟨nested', is', .semi (s := m.token s) semi hbody, hnested⟩
  | @BodyForm.type as ms ds ts _ attributes d nested is start attributesForm modifiers decl tail => by
    have hassoc : as ++ (ms ++ (ds ++ ts)) = as ++ ms ++ ds ++ ts := by simp
    rw [hassoc] at hts ⊢
    have hdecl : ∀ {e}, e ∈ d.withNested → Spelled (as ++ ms ++ ds) e :=
      fun he => decl.spelled he (show _ = startOf (as ++ ms ++ ds) by simp)
    rw [List.flatMap_cons] at hd
    rcases List.mem_append.1 hd with hd | hd
    · have hno : target ∉ nested.flatMap TypeDecl.withNested := fun hmem =>
        hts.not_mem (hdecl hd).name_mem (tail.spelled hmem).name_mem
      have hds := hts.mono ((List.sublist_append_right (as ++ ms) ds).trans (List.sublist_append_left _ ts))
      rw [List.append_assoc]
      refine (decl.head hds hd).within _ _ ?_
      rintro - m h' ds' rest' hm - - hrest hwhole hP
      obtain ⟨hattributes, hmodifiers⟩ := front_moved hm hwhole.toAgree attributesForm modifiers
      obtain ⟨d', hdecl, hparallel⟩ := hP _ _ _
      obtain ⟨nested', is', htail, hnested⟩ := tail.moved hno hm hrest
      have hstart := (MemberAt.agree_iff ((hwhole.moves hm ms).moves hm as).toAgree).2 start
      have hbody := BodyForm.type hstart hattributes hmodifiers hdecl htail
      rw [List.map_append, List.append_assoc]
      exact ⟨_, _, hbody, .cons hparallel hnested⟩
    · have hno : target ∉ d.withNested := fun hmem =>
        hts.not_mem (hdecl hmem).name_mem (tail.spelled hd).name_mem
      refine (tail.head (hts.mono (List.sublist_append_right _ ts)) hd).behind _ ?_
      rintro - m h' ts' rest' hm - hrest hwhole ⟨nested', is', htail, hnested⟩
      have hfront := hwhole.moves hm ds
      obtain ⟨hattributes, hmodifiers⟩ := front_moved hm hfront.toAgree attributesForm modifiers
      obtain ⟨d', hdecl, hparallel⟩ := decl.moved hno h' hm hwhole.toAgree
        (startOf (as.map m.token ++ (ms.map m.token ++ ds.map m.token)))
        (attributes.map m.attributeList) ((ms.map m.token).map (·.text))
      have hstart := (MemberAt.agree_iff ((hfront.moves hm ms).moves hm as).toAgree).2 start
      have hbody := BodyForm.type hstart hattributes hmodifiers hdecl htail
      rw [List.map_append, List.map_append, List.append_assoc, List.append_assoc]
      exact ⟨_, _, hbody, .cons hparallel hnested⟩
  | @BodyForm.other as ms us ts _ attributes nested js is start attributesForm modifiers member
      tail => by
    have hassoc : as ++ (ms ++ (us ++ ts)) = as ++ (ms ++ us) ++ ts := by simp
    rw [hassoc] at hts ⊢
    refine (tail.head (hts.mono (List.sublist_append_right _ ts)) hd).behind _ ?_
    rintro - m h' ts' rest' hm - hrest hwhole ⟨nested', is', htail, hnested⟩
    have hfront := hwhole.moves hm us
    obtain ⟨hattributes, hmodifiers⟩ := front_moved hm hfront.toAgree attributesForm modifiers
    have hmember := member.respell (fun t _ => hm.suits t) hwhole.toAgree
    have hstart := (MemberAt.agree_iff ((hfront.moves hm ms).moves hm as).toAgree).2 start
    have hbody := BodyForm.other hstart hattributes hmodifiers hmember htail
    rw [List.map_append, List.map_append, List.append_assoc, List.append_assoc]
    exact ⟨_, _, hbody, hnested⟩

end

end Grammar

end SelfTypeLint
