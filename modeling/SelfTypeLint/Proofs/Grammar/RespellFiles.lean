import SelfTypeLint.Proofs.Grammar.Files
import SelfTypeLint.Proofs.Grammar.RespellDeclarations

/-!
# Respelling files

Identifiers outside of type declarations keep their words, and so do the targets of using directives,
which are texts of the file. Everything else of a file is respelled.
-/

namespace SelfTypeLint

namespace Respelling

variable (m : Respelling)

/-- A using directive with its new places. -/
def usingDirective (u : UsingDirective) : UsingDirective :=
  { u with targetSpan := m.span u.targetSpan, span := m.span u.span }

mutual

/-- A member of a file with its new places and words. -/
def member : Member → Member
  | .type d => .type (m.typeDecl d)
  | .space ⟨name, nameSpan, fileScoped, usings, members, span, bodyStart⟩ =>
    .space ⟨name, m.span nameSpan, fileScoped, usings.map m.usingDirective, memberList members,
      m.span span, m.place bodyStart⟩

/-- Members of a file with their new places and words. -/
def memberList : List Member → List Member
  | [] => []
  | a :: as => member a :: memberList as

end

theorem memberList_eq_map (as : List Member) : m.memberList as = as.map m.member := by
  induction as with
  | nil => rfl
  | cons a as ih => rw [memberList, ih, List.map_cons]

/-- A namespace with its new places and words. -/
def space (n : NamespaceDecl) : NamespaceDecl where
  name := n.name
  nameSpan := m.span n.nameSpan
  fileScoped := n.fileScoped
  usings := n.usings.map m.usingDirective
  members := m.memberList n.members
  span := m.span n.span
  bodyStart := m.place n.bodyStart

end Respelling

namespace Grammar

open Token Respelling Read

variable {m : Respelling} {slice slice' : Span → String}

/-- Holds of tokens that keep their words. -/
def Kept (m : Respelling) (ts : List Token) : Prop := ∀ t ∈ ts, m.word t.span = none

/-- Tokens that suit keep their words if their identifiers do. -/
theorem kept_of_idents {ts : List Token} (hts : ∀ t ∈ ts, m.Suits t)
    (h : ∀ i ∈ idents ts, m.word i.span = none) : Kept m ts := by
  intro t ht
  cases hw : m.word t.span with
  | none => rfl
  | some w =>
    have hk := (hts t ht w hw).1
    have hi : (⟨identName t.text, t.span⟩ : Ident) ∈ idents ts :=
      List.mem_filterMap.2 ⟨t, ht, if_pos hk⟩
    exact absurd (h _ hi) (by simp [hw])

theorem Kept.mono {ts us : List Token} (h : Kept m ts) (hus : us <:+: ts) : Kept m us :=
  fun t ht => h t (hus.subset ht)

theorem Kept.text_eq {ts : List Token} (h : Kept m ts) {t : Token} (ht : t ∈ ts) (old : String) :
    m.text t.span old = old := by
  rw [Respelling.text, h t ht, Option.getD_none]

/-! ## Names that keep their words -/

/-- A name whose words are kept has the same dotted form. -/
theorem TypeForm.dottedName?_eq {ts rest : List Token} {e : TypeExpr} (h : TypeForm ts rest e)
    (hk : Kept m ts) : (m.typeExpr e).dottedName? = e.dottedName? := by
  have hnames : ∀ s ∈ e.segments, m.text s.span s.name = s.name := by
    intro s hs
    obtain ⟨t, ht, -, heq⟩ := mem_idents_iff.1 (h.mem_idents hs)
    rw [(Ident.mk.inj heq).2]
    exact hk.text_eq ht s.name
  cases e with
  | path isGlobal segments span =>
    rw [Respelling.typeExpr, TypeExpr.dottedName?, TypeExpr.dottedName?, segmentList_eq_map, List.map_map]
    refine congrArg (fun names => some (".".intercalate names)) (List.map_congr_left ?_)
    exact hnames
  | predefined _ _ => rfl
  | array _ _ => rfl
  | nullable _ _ => rfl
  | tuple _ _ => rfl

/-! ## Using directives -/

/-- Holds of texts that agree at the spans of tokens that keep their words. -/
def SliceKept (m : Respelling) (slice slice' : Span → String) (ts : List Token) : Prop :=
  ∀ us, us <:+: ts → us ≠ [] → Kept m us → slice' (m.span (spanOf us)) = slice (spanOf us)

theorem SliceKept.mono {ts us : List Token} (h : SliceKept m slice slice' ts) (hus : us <:+: ts) :
    SliceKept m slice slice' us := fun vs hvs => h vs (hvs.trans hus)

theorem UsingAt.agree_iff {rest rest' : List Token} (ha : Agree rest rest') :
    UsingAt rest' ↔ UsingAt rest := by
  unfold UsingAt
  rw [ha.kind, ha.word "global" (by decide)]
  by_cases hg : wordAt "global" rest = true
  · have hk : kindAt rest 0 = .ident := by
      cases rest with
      | nil => simp [wordAt] at hg
      | cons t rest => exact kind_of_wordAt (wordAt_singleton.trans hg)
    rw [ha.second_of hk (by simp)]
  · simp [hg]

theorem ExternAt.respell_iff {ts rest rest' : List Token} (hne : ts ≠ [])
    (hts : ∀ t ∈ ts, m.Suits t) (ha : Agree rest rest') :
    ExternAt (ts.map m.token ++ rest') ↔ ExternAt (ts ++ rest) := by
  have hall := ha.append hts
  cases ts with
  | nil => exact absurd rfl hne
  | cons t ts =>
    by_cases hk : t.kind = .modifier
    · have htext := (hts t List.mem_cons_self).text_eq (by simp [hk])
      have hsecond := hall.second_of hk (by simp)
      rw [ExternAt, ExternAt, hsecond]
      simp [token, htext]
    · simp [ExternAt, token, hk]

theorem GlobalForm.respell {ts : List Token} {isGlobal : Bool} (h : GlobalForm ts isGlobal)
    (hts : ∀ t ∈ ts, m.Suits t) : GlobalForm (ts.map m.token) isGlobal := by
  cases h with
  | none => exact .none
  | @word g word =>
    exact .word ((wordAt_token (hts g List.mem_cons_self) (by decide)).trans word)

theorem UsingKindForm.respell {ts rest rest' : List Token} {kind : UsingKind}
    {newName : Option String} (h : UsingKindForm ts rest kind newName) (hk : Kept m ts) (ha : Agree rest rest') :
    UsingKindForm (ts.map m.token) rest' kind newName := by
  cases h with
  | members word => exact .members word
  | @aliased t e _ word sign =>
    have ht : identName (m.token t).text = identName t.text :=
      congrArg identName (hk.text_eq List.mem_cons_self t.text)
    rw [← ht]
    exact .aliased (t := m.token t) word sign
  | space noMembers noAlias =>
    refine .space (by rwa [ha.kind]) ?_
    rintro ⟨h1, h2⟩
    rw [ha.kind] at h1
    rw [ha.second_of h1 (by simp)] at h2
    exact noAlias ⟨h1, h2⟩

theorem UsingForm.respell {ts rest rest' : List Token} {u : UsingDirective}
    (h : UsingForm slice ts rest u) (hts : ∀ t ∈ ts, m.Suits t) (hk : Kept m ts)
    (hs : SliceKept m slice slice' ts) (ha : Agree rest rest') :
    UsingForm slice' (ts.map m.token) rest' (m.usingDirective u) := by
  cases h with
  | @mk gs ks ts rest w s isGlobal kind newName e global word kindForm target semi =>
    have hgs : ∀ t ∈ gs, m.Suits t := fun t ht => hts t (by simp [ht])
    have hes : ∀ t ∈ ts, m.Suits t := fun t ht => hts t (by simp [ht])
    have hkk : Kept m ks := hk.mono ⟨gs ++ [w], ts ++ [s], by simp⟩
    have hke : Kept m ts := hk.mono ⟨gs ++ w :: ks, [s], by simp⟩
    have hrest := ha.cons (hts s (by simp))
    have hslice : slice' (m.typeExpr e).span = slice e.span := by
      obtain ⟨us, vs, rfl, hus, he, -⟩ := target.covers
      rw [span_typeExpr, he]
      exact hs us ⟨gs ++ w :: ks, vs ++ [s], by simp⟩ hus (hke.mono ⟨[], vs, rfl⟩)
    have hform : UsingForm slice' _ _ _ := .mk (global.respell hgs) (w := m.token w) word
      (kindForm.respell hkk (hrest.append hes)) (target.respell hes hrest) (s := m.token s) semi
    have hspan : spanOf ((gs ++ w :: (ks ++ (ts ++ [s]))).map m.token) = m.span (spanOf (gs ++ w :: (ks ++ (ts ++ [s])))) := spanOf_map (by simp)
    simp only [List.map_append, List.map_cons, List.map_nil] at hspan hform ⊢
    rw [hspan, target.dottedName?_eq hke, hslice, span_typeExpr] at hform
    exact hform

/-! ## Namespaces -/

theorem stopOf_map_place (n : Nat) (ts : List Token) :
    stopOf (m.place n) (ts.map m.token) = m.place (stopOf n ts) := by
  by_cases hne : ts = []
  · rw [hne]
    rfl
  · rw [stopOf_map hne, stopOf_of_ne_nil hne n 0]

theorem DottedForm.respell {name name' : String} {span span' : Span} {ts rest rest' : List Token}
    (h : DottedForm name span ts rest name' span') (hk : Kept m ts) (ha : Agree rest rest') :
    DottedForm name (m.span span) (ts.map m.token) rest' name' (m.span span') := by
  induction h with
  | done stop => exact .done (by rwa [DotAt.agree_iff ha])
  | @more name name' span span' d t ts rest dot word _ ih =>
    have ht : identName (m.token t).text = identName t.text :=
      congrArg identName (hk.text_eq (by simp) t.text)
    have htail := ih (hk.mono ⟨[d, t], [], by simp⟩) ha
    rw [← ht] at htail
    exact .more (d := m.token d) (t := m.token t) dot word htail

theorem NoDeclaration.agree {rest rest' : List Token} (h : NoDeclaration rest)
    (ha : Agree rest rest') : NoDeclaration rest' where
  noType := by
    rw [TypeAt.agree_iff ha]
    exact h.noType
  noSpace := by
    rw [ha.kind]
    exact h.noSpace
  noEnum := by
    rw [ha.kind]
    exact h.noEnum
  noDelegate := by
    rw [ha.kind]
    exact h.noDelegate

theorem DeclarationAt.respell {ts rest rest' : List Token} (h : DeclarationAt (ts ++ rest))
    (hne : ts ≠ []) (hts : ∀ t ∈ ts, m.Suits t) (ha : Agree rest rest') :
    DeclarationAt (ts.map m.token ++ rest') where
  member := (MemberAt.agree_iff (ha.append hts)).2 h.member
  noUsing := by
    rw [UsingAt.agree_iff (ha.append hts)]
    exact h.noUsing
  noExtern := by
    rw [ExternAt.respell_iff hne hts ha]
    exact h.noExtern

/-- Holds of identifiers that keep their words. -/
def IdentsKept (m : Respelling) (is : List Ident) : Prop := ∀ i ∈ is, m.word i.span = none

theorem IdentsKept.of_append {is js : List Ident} (h : IdentsKept m (is ++ js)) :
    IdentsKept m is ∧ IdentsKept m js :=
  ⟨fun i hi => h i (List.mem_append_left _ hi), fun i hi => h i (List.mem_append_right _ hi)⟩

mutual

theorem MembersForm.respell {ts rest rest' : List Token} {us : List UsingDirective}
    {ms : List Member} {is : List Ident} (hts : Suited m ts) (hs : SliceKept m slice slice' ts)
    (hk : IdentsKept m is) (ha : Agree rest rest') :
    MembersForm slice ts rest us ms is → MembersForm slice' (ts.map m.token) rest'
      (us.map m.usingDirective) (m.memberList ms) (is.map m.ident)
  | .done stop => .done (by rwa [ha.kind])
  | @MembersForm.semi _ s ts _ us ms is semi tail => by
    have hsuffix : ts <:+: s :: ts := ⟨[s], [], by simp⟩
    exact .semi (s := m.token s) semi (tail.respell (hts.mono hsuffix) (hs.mono hsuffix) hk ha)
  | @MembersForm.using _ ts vs _ u us ms is directive tail => by
    have hprefix : ts <:+: ts ++ vs := ⟨[], vs, rfl⟩
    have hsuffix : vs <:+: ts ++ vs := ⟨ts, [], by simp⟩
    have hus := hts.mono hprefix
    have hvs := hts.mono hsuffix
    obtain ⟨hki, hkj⟩ := hk.of_append
    have hform := MembersForm.using
      (directive.respell hus.suits (kept_of_idents hus.suits hki) (hs.mono hprefix)
        (ha.append hvs.suits))
      (tail.respell hvs (hs.mono hsuffix) hkj ha)
    rw [idents_map hus.suits, ← List.map_append, ← List.map_append] at hform
    exact hform
  | @MembersForm.external _ ts vs _ us ms is start form tail => by
    have hprefix : ts <:+: ts ++ vs := ⟨[], vs, rfl⟩
    have hsuffix : vs <:+: ts ++ vs := ⟨ts, [], by simp⟩
    have hus := hts.mono hprefix
    have hvs := hts.mono hsuffix
    have hva := ha.append hvs.suits
    have hmember : MemberAt (ts ++ (vs ++ rest)) := by
      obtain ⟨⟨t, ht, hkind, -⟩, -⟩ := start
      obtain ⟨rest'', hcons⟩ := List.head?_eq_some_iff.1 ht
      simp [MemberAt, hcons, hkind]
    have hform := MembersForm.external ((ExternAt.respell_iff (form.ne_nil hmember) hus.suits hva).2
      start) (by rw [StatementForm, List.length_map]; exact statementLength_agree form hva)
      (tail.respell hvs (hs.mono hsuffix) hk.of_append.2 ha)
    rw [idents_map hus.suits, ← List.map_append, ← List.map_append] at hform
    exact hform
  | @MembersForm.member _ ts vs _ a us ms js is start member tail => by
    have hprefix : ts <:+: ts ++ vs := ⟨[], vs, rfl⟩
    have hsuffix : vs <:+: ts ++ vs := ⟨ts, [], by simp⟩
    have hus := hts.mono hprefix
    have hvs := hts.mono hsuffix
    have hva := ha.append hvs.suits
    have hform := MembersForm.member (start.respell member.ne_nil hus.suits hva)
      (member.respell hus (hs.mono hprefix) hk.of_append.1 hva)
      (tail.respell hvs (hs.mono hsuffix) hk.of_append.2 ha)
    rw [← List.map_append, ← List.map_append] at hform
    cases a with
    | none => exact hform
    | some a => exact hform

theorem FileMemberForm.respell {ts rest rest' : List Token} {a : Option Member} {is : List Ident}
    (hts : Suited m ts) (hs : SliceKept m slice slice' ts) (hk : IdentsKept m is)
    (ha : Agree rest rest') :
    FileMemberForm slice ts rest a is →
      FileMemberForm slice' (ts.map m.token) rest' (a.map m.member) (is.map m.ident)
  | @FileMemberForm.type _ as ms ds _ attributes d attributesForm modifiers decl => by
    have has : Suited m as := hts.mono ⟨[], ms ++ ds, by simp⟩
    have hms : Suited m ms := hts.mono ⟨as, ds, by simp⟩
    have hds : Suited m ds := hts.mono ⟨as ++ ms, [], by simp⟩
    have hfront : Suited m (as ++ ms) := hts.mono ⟨[], ds, by simp⟩
    have hda := ha.append hds.suits
    obtain ⟨hmodifiers, htexts⟩ := modifiers.respell hms.suits hda
    have hstart : startOf ((as ++ (ms ++ ds)).map m.token) = m.place (startOf (as ++ (ms ++ ds))) :=
      startOf_map (by simp [decl.ne_nil])
    have hdecl := decl.respell hds ha
    rw [← hstart, ← htexts, List.map_append, List.map_append] at hdecl
    have hform : FileMemberForm slice' _ _ _ _ := .type
      (attributesForm.respell has (hda.append hms.suits)) hmodifiers hdecl
    have hidents := idents_map hfront.suits
    rw [List.map_append] at hidents
    rw [hidents] at hform
    rw [List.map_append, List.map_append]
    exact hform
  | @FileMemberForm.space _ as ms ns _ attributes n is attributesForm modifiers space => by
    have hspaces : ns <:+: as ++ (ms ++ ns) := ⟨as ++ ms, [], by simp⟩
    have has : Suited m as := hts.mono ⟨[], ms ++ ns, by simp⟩
    have hms : Suited m ms := hts.mono ⟨as, ns, by simp⟩
    have hns := hts.mono hspaces
    have hfront : Suited m (as ++ ms) := hts.mono ⟨[], ns, by simp⟩
    have hna := ha.append hns.suits
    obtain ⟨hmodifiers, -⟩ := modifiers.respell hms.suits hna
    have hstart : startOf ((as ++ (ms ++ ns)).map m.token) = m.place (startOf (as ++ (ms ++ ns))) :=
      startOf_map (by simp [space.word.1])
    have hspace := space.respell hns (hs.mono hspaces) hk.of_append.2 ha
    rw [← hstart, List.map_append, List.map_append] at hspace
    have hform := FileMemberForm.space (attributesForm.respell has (hna.append hms.suits))
      hmodifiers hspace
    have hidents := idents_map hfront.suits
    rw [List.map_append] at hidents
    rw [hidents] at hform
    rw [List.map_append, List.map_append, List.map_append]
    exact hform
  | @FileMemberForm.enum _ as ms es _ attributes attributesForm modifiers enum => by
    have has : Suited m as := hts.mono ⟨[], ms ++ es, by simp⟩
    have hms : Suited m ms := hts.mono ⟨as, es, by simp⟩
    have hes : Suited m es := hts.mono ⟨as ++ ms, [], by simp⟩
    have hea := ha.append hes.suits
    obtain ⟨hmodifiers, -⟩ := modifiers.respell hms.suits hea
    have hform : FileMemberForm slice' _ _ _ _ := .enum
      (attributesForm.respell has (hea.append hms.suits)) hmodifiers (enum.respell hes.suits ha)
    rw [← idents_map hts.suits]
    rw [← List.map_append, ← List.map_append] at hform
    exact hform
  | @FileMemberForm.delegate _ as ms ds _ attributes attributesForm modifiers hword form => by
    have has : Suited m as := hts.mono ⟨[], ms ++ ds, by simp⟩
    have hms : Suited m ms := hts.mono ⟨as, ds, by simp⟩
    have hds : Suited m ds := hts.mono ⟨as ++ ms, [], by simp⟩
    have hfront : Suited m (as ++ ms) := hts.mono ⟨[], ds, by simp⟩
    have hda := ha.append hds.suits
    obtain ⟨hmodifiers, -⟩ := modifiers.respell hms.suits hda
    have hform : FileMemberForm slice' _ _ _ _ := .delegate
      (attributesForm.respell has (hda.append hms.suits)) hmodifiers (by rwa [hda.kind])
      (by rw [StatementForm, List.length_map]; exact statementLength_agree form ha)
    have hidents := idents_map hfront.suits
    rw [List.map_append] at hidents
    rw [hidents] at hform
    rw [List.map_append, List.map_append]
    exact hform
  | @FileMemberForm.attributes _ as _ attributes attributesForm noModifiers stop hsome targets => by
    have hform : FileMemberForm slice' _ _ _ _ := .attributes (attributesForm.respell hts ha)
      (noModifiers.respell (m := m) (by simp) ha).1 (stop.agree ha) (by simp [hsome]) ?_
    · rw [← idents_map hts.suits]
      exact hform
    · intro l hl
      obtain ⟨l', hl', rfl⟩ := List.mem_map.1 hl
      simp [attributeList, targets l' hl']

theorem SpaceForm.respell {start : Nat} {ts rest rest' : List Token} {n : NamespaceDecl}
    {is : List Ident} (hts : Suited m ts) (hs : SliceKept m slice slice' ts)
    (hk : IdentsKept m is) (ha : Agree rest rest') :
    SpaceForm slice start ts rest n is →
      SpaceForm slice' (m.place start) (ts.map m.token) rest' (m.space n) (is.map m.ident)
  | @SpaceForm.file _ _ k t s ns ts _ name nameSpan us ms is hword first dotted semi members => by
    have hmembers : ts <:+: k :: t :: (ns ++ s :: ts) := ⟨k :: t :: (ns ++ [s]), [], by simp⟩
    have hname : Suited m (t :: ns) := hts.mono ⟨[k], s :: ts, by simp⟩
    have hbody := hts.mono hmembers
    have hkept := kept_of_idents hname.suits hk.of_append.1
    have ht : identName (m.token t).text = identName t.text :=
      congrArg identName (hkept.text_eq List.mem_cons_self t.text)
    have hdotted := dotted.respell (hkept.mono ⟨[t], [], by simp⟩)
      ((ha.append hbody.suits).cons (hts.suits s (by simp)))
    rw [← ht] at hdotted
    have hform : SpaceForm slice' (m.place start) _ _ _ _ := .file (k := m.token k)
      (t := m.token t) (s := m.token s) hword first hdotted semi
      (members.respell hbody (hs.mono hmembers) hk.of_append.2 ha)
    have hidents := idents_map hname.suits
    rw [List.map_cons] at hidents
    rw [hidents, ← List.map_append, show (m.token s).span.stop = m.place s.span.stop from rfl, stopOf_map_place] at hform
    rw [List.map_cons, List.map_cons, List.map_append, List.map_cons]
    exact hform
  | @SpaceForm.braces _ _ k t o c ns ts ss _ name nameSpan us ms is hword first dotted opener
      members closer semi => by
    have hmembers : ts <:+: k :: t :: (ns ++ o :: (ts ++ c :: ss)) :=
      ⟨k :: t :: (ns ++ [o]), c :: ss, by simp⟩
    have hname : Suited m (t :: ns) := hts.mono ⟨[k], o :: (ts ++ c :: ss), by simp⟩
    have hbody := hts.mono hmembers
    have hss : ∀ t ∈ ss, m.Suits t := fun t ht => hts.suits t (by simp [ht])
    have hrest := (ha.append hss).cons (hts.suits c (by simp))
    have hkept := kept_of_idents hname.suits hk.of_append.1
    have ht : identName (m.token t).text = identName t.text :=
      congrArg identName (hkept.text_eq List.mem_cons_self t.text)
    have hdotted := dotted.respell (hkept.mono ⟨[t], [], by simp⟩)
      ((hrest.append hbody.suits).cons (hts.suits o (by simp)))
    rw [← ht] at hdotted
    have hform : SpaceForm slice' (m.place start) _ _ _ _ := .braces (k := m.token k)
      (t := m.token t) (o := m.token o) (c := m.token c) hword first hdotted opener
      (members.respell hbody (hs.mono hmembers) hk.of_append.2 hrest) closer (semi.respell ha)
    have hidents := idents_map hname.suits
    rw [List.map_cons] at hidents
    rw [hidents, ← List.map_append, show (m.token c).span.stop = m.place c.span.stop from rfl, stopOf_map_place] at hform
    rw [List.map_cons, List.map_cons, List.map_append, List.map_cons, List.map_append,
      List.map_cons]
    exact hform

end

end Grammar

end SelfTypeLint
