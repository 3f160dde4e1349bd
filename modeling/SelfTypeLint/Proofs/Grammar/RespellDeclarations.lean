import SelfTypeLint.Proofs.Grammar.Respell

/-!
# Respelling declarations
-/

namespace SelfTypeLint

namespace Respelling

variable (m : Respelling)

mutual

/-- A type declaration with its new places and words. -/
def typeDecl : TypeDecl → TypeDecl
  | ⟨kind, attributes, modifiers, name, nameSpan, typeParams, listSpan, baseList, nested, idents,
      span⟩ =>
    { kind, attributes := attributes.map m.attributeList, modifiers
      name := m.text nameSpan name, nameSpan := m.span nameSpan
      typeParams := typeParams.map m.typeParam, typeParamListSpan := listSpan.map m.span
      baseList := m.typeExprList baseList, nested := typeDeclList nested
      idents := idents.map m.ident, span := m.span span }

/-- Type declarations with their new places and words. -/
def typeDeclList : List TypeDecl → List TypeDecl
  | [] => []
  | d :: ds => typeDecl d :: typeDeclList ds

end

theorem typeDeclList_eq_map (ds : List TypeDecl) : m.typeDeclList ds = ds.map m.typeDecl := by
  induction ds with
  | nil => rfl
  | cons d ds ih => rw [typeDeclList, ih, List.map_cons]

theorem typeParams_typeDecl (d : TypeDecl) :
    (m.typeDecl d).typeParams = d.typeParams.map m.typeParam := by
  cases d
  rfl

/-- The head of a declaration with its new places and words. -/
def header (h : Grammar.Header) : Grammar.Header where
  kind := h.kind
  name := m.ident h.name
  typeParams := h.typeParams.map m.typeParam
  typeParamListSpan := h.typeParamListSpan.map m.span
  baseList := m.typeExprList h.baseList

theorem typeDecl_declare (h : Grammar.Header) (attributes : List AttributeList)
    (modifiers : List String) (nested : List TypeDecl) (idents : List Ident) (span : Span) :
    m.typeDecl (h.declare attributes modifiers nested idents span) =
      (m.header h).declare (attributes.map m.attributeList) modifiers (m.typeDeclList nested)
        (idents.map m.ident) (m.span span) := rfl

end Respelling

namespace Grammar

open Token Respelling Read

variable {m : Respelling}

/-! ## Heads -/

theorem ListForm.respell {α : Type} {form : List Token → List Token → α → Prop} {g : α → α}
    (hitem : ∀ {ts rest rest' a}, form ts rest a → Suited m ts → Agree rest rest' →
      form (ts.map m.token) rest' (g a))
    {ts rest rest' : List Token} {as : List α} (h : ListForm form ts rest as) (hts : Suited m ts)
    (ha : Agree rest rest') : ListForm form (ts.map m.token) rest' (as.map g) := by
  induction h with
  | last item stop => exact .last (hitem item hts ha) (by rwa [ha.kind])
  | @more ts us rest c a as item comma _ ih =>
    have hus : Suited m us := hts.mono ⟨ts ++ [c], [], by simp⟩
    have hitems : Suited m ts := hts.mono ⟨[], c :: us, by simp⟩
    rw [List.map_append, List.map_cons, List.map_cons]
    exact .more (hitem item hitems ((ha.append hus.suits).cons (hts.suits c (by simp)))) comma
      (ih hus ha)

theorem TypeAt.agree_iff {rest rest' : List Token} (ha : Agree rest rest') :
    TypeAt rest' ↔ TypeAt rest := by
  have hword := ha.word "record" (by decide)
  unfold TypeAt
  rw [ha.kind, hword]
  by_cases hr : wordAt "record" rest = true
  · have hk : kindAt rest 0 = .ident := by
      cases rest with
      | nil => simp [wordAt] at hr
      | cons t rest => exact kind_of_wordAt (wordAt_singleton.trans hr)
    rw [ha.second_of hk (by simp)]
  · simp [hr]

theorem mem_contextualWords_of_modifier {word : String} (h : word ∈ contextualModifiers) :
    word ∈ contextualWords := by
  simp only [contextualModifiers, contextualWords, List.mem_cons] at h ⊢
  grind

private theorem head_kind (ts : List Token) :
    (ts.head?.map (·.kind)).getD .eof = kindAt ts 0 := by
  rw [kindAt, List.head?_eq_getElem?]

/-- Where no modifier is next, none is next among tokens that agree. -/
theorem leadingModifiers_agree {rest rest' : List Token} (h : leadingModifiers rest = [])
    (ha : Agree rest rest') : leadingModifiers rest' = [] := by
  cases rest with
  | nil =>
    rw [ha.nil.2 rfl]
    rfl
  | cons t rest =>
    cases rest' with
    | nil => rfl
    | cons u rest' =>
      have hkind : u.kind = t.kind := ha.kind
      rw [leadingModifiers] at h ⊢
      split at h
      · exact absurd h (by simp)
      · next hno =>
        refine if_neg ?_
        rintro (hk | hk | hk | ⟨hk, hword, hnext⟩)
        · exact hno (.inl (hkind ▸ hk))
        · exact hno (.inr (.inl (hkind ▸ hk)))
        · exact hno (.inr (.inr (.inl (hkind ▸ hk))))
        · have hk' : t.kind = .ident := hkind ▸ hk
          have htext : t.text = u.text := by
            have := ha.word u.text (mem_contextualWords_of_modifier hword)
            simpa [wordAt, hk, hk'] using this
          have hsecond : kindAt (u :: rest') 1 = kindAt (t :: rest) 1 := ha.second_of hk' (by simp)
          refine hno (.inr (.inr (.inr ⟨hk', htext ▸ hword, ?_⟩)))
          rw [kindAt_cons_succ, kindAt_cons_succ] at hsecond
          simpa only [head_kind, hsecond] using hnext

/-- The words of modifiers are seen by the grammar, so they stay. -/
theorem ModifiersForm.respell {ts rest rest' : List Token} (h : ModifiersForm ts rest)
    (hts : ∀ t ∈ ts, m.Suits t) (ha : Agree rest rest') :
    ModifiersForm (ts.map m.token) rest' ∧ (ts.map m.token).map (·.text) = ts.map (·.text) := by
  induction ts with
  | nil => exact ⟨leadingModifiers_agree h ha, rfl⟩
  | cons t ts ih =>
    have hsuits := hts t List.mem_cons_self
    have hrest : ∀ u ∈ ts, m.Suits u := fun u hu => hts u (List.mem_cons_of_mem t hu)
    rw [ModifiersForm, List.cons_append, leadingModifiers] at h
    split at h
    · next hlead =>
      obtain ⟨-, htail⟩ := List.cons.inj h
      obtain ⟨hform, htexts⟩ := ih htail hrest
      have hnext := (ha.append hrest).kind
      have htext : m.text t.span t.text = t.text := by
        rcases hlead with hk | hk | hk | ⟨-, hword, -⟩
        · exact hsuits.text_eq (by simp [hk])
        · exact hsuits.text_eq (by simp [hk])
        · exact hsuits.text_eq (by simp [hk])
        · exact (hsuits.text_iff (mem_contextualWords_of_modifier hword)).2 rfl
      constructor
      · rw [ModifiersForm, List.map_cons, List.cons_append, leadingModifiers, List.map_cons,
          ← show _ = _ from hform]
        refine if_pos ?_
        simp only [head_kind, token, htext] at hlead ⊢
        rwa [hnext]
      · rw [List.map_cons, List.map_cons, htexts, List.map_cons]
        exact congrArg (· :: _) htext
    · exact absurd h (by simp)

theorem wordAt_token {t : Token} (ht : m.Suits t) {word : String} (hword : word ∈ contextualWords) :
    wordAt word [m.token t] = wordAt word [t] := ((Agree.refl []).cons ht).word word hword

theorem KindForm.respell {ts rest rest' : List Token} {kind : TypeKind} (h : KindForm ts rest kind)
    (hts : ∀ t ∈ ts, m.Suits t) (ha : Agree rest rest') : KindForm (ts.map m.token) rest' kind := by
  have hrecord : ∀ t ∈ ts, wordAt "record" [m.token t] = wordAt "record" [t] :=
    fun t ht => wordAt_token (hts t ht) (by decide)
  cases h with
  | classType word => exact .classType word
  | structType word => exact .structType word
  | interfaceType word => exact .interfaceType word
  | @record t _ word name =>
    exact .record ((hrecord t (by simp)).trans word) (by rwa [ha.kind])
  | @recordClass t u _ word second =>
    exact .recordClass ((hrecord t (by simp)).trans word) second
  | @recordStruct t u _ word second =>
    exact .recordStruct ((hrecord t (by simp)).trans word) second

theorem VarianceForm.respell {ts rest rest' : List Token} {v : Option (Variance × Span)}
    (h : VarianceForm ts rest v) (ha : Agree rest rest') :
    VarianceForm (ts.map m.token) rest' (v.map fun (v, s) => (v, m.span s)) := by
  cases h with
  | none stop => exact .none (by rwa [ha.kind])
  | contravariant word => exact .contravariant word
  | covariant word => exact .covariant word

theorem ParamForm.respell {ts rest rest' : List Token} {p : TypeParam} (h : ParamForm ts rest p)
    (hts : Suited m ts) (ha : Agree rest rest') :
    ParamForm (ts.map m.token) rest' (m.typeParam p) := by
  cases h with
  | @mk as vs _ n attributes variance attributesForm varianceForm word =>
    have has : Suited m as := hts.mono ⟨[], vs ++ [n], by simp⟩
    have hvs : ∀ t ∈ vs, m.Suits t := fun t ht => hts.suits t (by simp [ht])
    have hn := hts.suits n (by simp)
    have hrest := ha.cons hn
    have hform := ParamForm.mk (attributesForm.respell has (hrest.append hvs))
      (varianceForm.respell (m := m) hrest) (n := m.token n) word
    have hspan : spanOf ((as ++ (vs ++ [n])).map m.token) = m.span (spanOf (as ++ (vs ++ [n]))) := spanOf_map (by simp)
    rw [List.map_append, List.map_append, List.map_singleton] at hspan
    rw [typeParam, ← hn.identName_eq, ← hspan, List.map_append, List.map_append,
      List.map_singleton]
    exact hform

theorem ParamsForm.respell {ts rest rest' : List Token} {ps : List TypeParam} {s : Option Span}
    (h : ParamsForm ts rest ps s) (hts : Suited m ts) (ha : Agree rest rest') :
    ParamsForm (ts.map m.token) rest' (ps.map m.typeParam) (s.map m.span) := by
  cases h with
  | none stop => exact .none (by rwa [ha.kind])
  | @some o c ts _ _ opener list closer =>
    have hlist : Suited m ts := hts.mono ⟨[o], [c], by simp⟩
    rw [List.map_cons, List.map_append, List.map_singleton]
    exact .some (o := m.token o) (c := m.token c) opener
      (list.respell (fun item => item.respell) hlist (ha.cons (hts.suits c (by simp)))) closer

theorem BaseForm.respell {ts rest rest' : List Token} {e : TypeExpr} (h : BaseForm ts rest e)
    (hts : Suited m ts) (ha : Agree rest rest') :
    BaseForm (ts.map m.token) rest' (m.typeExpr e) := by
  cases h with
  | @mk ts us _ _ type call =>
    have hus : ∀ t ∈ us, m.Suits t := fun t ht => hts.suits t (by simp [ht])
    rw [List.map_append]
    exact .mk (type.respell (fun t ht => hts.suits t (by simp [ht])) (ha.append hus))
      (call.respell ha)

theorem BasesForm.respell {ts rest rest' : List Token} {es : List TypeExpr}
    (h : BasesForm ts rest es) (hts : Suited m ts) (ha : Agree rest rest') :
    BasesForm (ts.map m.token) rest' (m.typeExprList es) := by
  cases h with
  | none stop => exact .none (by rwa [ha.kind])
  | @some k ts _ _ colon list =>
    have hlist : Suited m ts := hts.mono ⟨[k], [], by simp⟩
    rw [typeExprList_eq_map]
    exact .some colon (list.respell (fun item => item.respell) hlist ha)

theorem ClauseEnd.agree_iff {rest rest' : List Token} (ha : Agree rest rest') :
    ClauseEnd rest' ↔ ClauseEnd rest := by
  unfold ClauseEnd
  rw [ha.kind, ha.word "where" (by decide)]

theorem ClauseForm.respell {ts rest rest' : List Token} (h : ClauseForm ts rest)
    (hts : ∀ t ∈ ts, m.Suits t) (ha : Agree rest rest') : ClauseForm (ts.map m.token) rest' := by
  induction h with
  | done stop => exact .done ((ClauseEnd.agree_iff ha).2 stop)
  | @group o us ts rest opener group _ ih =>
    rw [List.map_cons, List.map_append]
    exact .group opener group.respell (ih (fun t ht => hts t (by simp [ht])) ha)
  | @token t ts rest inside plain _ ih =>
    have ht := (Agree.refl []).cons (hts t List.mem_cons_self)
    exact .token (fun hend => inside ((ClauseEnd.agree_iff ht).1 hend)) plain
      (ih (fun u hu => hts u (List.mem_cons_of_mem t hu)) ha)

theorem ConstraintsForm.respell {ts rest rest' : List Token} (h : ConstraintsForm ts rest)
    (hts : ∀ t ∈ ts, m.Suits t) (ha : Agree rest rest') :
    ConstraintsForm (ts.map m.token) rest' := by
  induction h with
  | none stop => exact .none (by rwa [ha.word "where" (by decide)])
  | @cons w ts us rest word clause _ ih =>
    have hus : ∀ t ∈ us, m.Suits t := fun t ht => hts t (by simp [ht])
    rw [List.map_cons, List.map_append]
    exact .cons ((wordAt_token (hts w List.mem_cons_self) (by decide)).trans word)
      (clause.respell (fun t ht => hts t (by simp [ht])) (ha.append hus)) (ih hus ha)

theorem HeaderForm.respell {ts rest rest' : List Token} {h : Header} (hh : HeaderForm ts rest h)
    (hts : Suited m ts) (ha : Agree rest rest') :
    HeaderForm (ts.map m.token) rest' (m.header h) := by
  cases hh with
  | @mk ks ps gs bs ws _ n kind typeParams listSpan baseList kindForm word params call bases
      constraints =>
    have hks : ∀ t ∈ ks, m.Suits t := fun t ht => hts.suits t (by simp [ht])
    have hn := hts.suits n (by simp)
    have hps : Suited m ps := hts.mono ⟨ks ++ [n], gs ++ (bs ++ ws), by simp⟩
    have hgs : ∀ t ∈ gs, m.Suits t := fun t ht => hts.suits t (by simp [ht])
    have hbs : Suited m bs := hts.mono ⟨ks ++ n :: (ps ++ gs), ws, by simp⟩
    have hws : ∀ t ∈ ws, m.Suits t := fun t ht => hts.suits t (by simp [ht])
    have hwa := ha.append hws
    have hba := hwa.append hbs.suits
    have hga := hba.append hgs
    have hna := (hga.append hps.suits).cons hn
    simp only [List.map_append, List.map_cons, header, ident, ← hn.identName_eq]
    exact .mk (n := m.token n) (kindForm.respell hks hna) word (params.respell hps hga)
      (call.respell hba) (bases.respell hbs hwa) (constraints.respell hws ha)

/-! ## Bodies -/

theorem Agree.head? {rest rest' : List Token} (ha : Agree rest rest') :
    rest'.head?.map (·.kind) = rest.head?.map (·.kind) := by
  have hkind := ha.kind
  cases rest with
  | nil => rw [ha.nil.2 rfl]
  | cons t rest =>
    cases rest' with
    | nil => exact absurd (ha.nil.1 rfl) (by simp)
    | cons u rest' => exact congrArg some hkind

/-- The end of a member is seen from the kinds of tokens. -/
theorem memberLength_agree {ts rest rest' : List Token} {depth : Nat}
    (h : memberLength depth (ts ++ rest) = ts.length) (hts : ∀ t ∈ ts, m.Suits t)
    (ha : Agree rest rest') : memberLength depth (ts.map m.token ++ rest') = ts.length := by
  induction ts generalizing depth with
  | nil =>
    cases rest with
    | nil =>
      rw [ha.nil.2 rfl]
      rfl
    | cons t rest =>
      cases rest' with
      | nil => rfl
      | cons u rest' =>
        have hkind : u.kind = t.kind := ha.kind
        have hhead := ha.head?
        simp only [List.map_nil, List.nil_append, List.length_nil, memberLength, hkind] at h ⊢
        grind
  | cons t ts ih =>
    have hrest : ∀ u ∈ ts, m.Suits u := fun u hu => hts u (List.mem_cons_of_mem t hu)
    have hhead := (ha.append hrest).head?
    simp only [List.map_cons, List.cons_append, List.length_cons, memberLength, hhead, token] at h ⊢
    grind

/-- The end of a statement is seen from the kinds of tokens. -/
theorem statementLength_agree {ts rest rest' : List Token} {depth : Nat}
    (h : statementLength depth (ts ++ rest) = ts.length) (ha : Agree rest rest') :
    statementLength depth (ts.map m.token ++ rest') = ts.length := by
  induction ts generalizing depth with
  | nil =>
    cases rest with
    | nil =>
      rw [ha.nil.2 rfl]
      rfl
    | cons t rest =>
      cases rest' with
      | nil => rfl
      | cons u rest' =>
        have hkind : u.kind = t.kind := ha.kind
        simp only [List.map_nil, List.nil_append, List.length_nil, statementLength, hkind] at h ⊢
        grind
  | cons t ts ih =>
    simp only [List.map_cons, List.cons_append, List.length_cons, statementLength, token] at h ⊢
    grind

theorem EnumForm.respell {ts rest rest' : List Token} (h : EnumForm ts rest)
    (hts : ∀ t ∈ ts, m.Suits t) (ha : Agree rest rest') : EnumForm (ts.map m.token) rest' := by
  cases h with
  | @mk e us gs ss _ word head stop group semi =>
    have hgs : ∀ t ∈ gs, m.Suits t := fun t ht => hts t (by simp [ht])
    have hss : ∀ t ∈ ss, m.Suits t := fun t ht => hts t (by simp [ht])
    have hsa := ha.append hss
    have hhead := (hsa.append hgs).head?
    simp only [List.map_append, List.map_cons]
    refine .mk (e := m.token e) word ?_ ?_ (group.respell hsa) (semi.respell ha)
    · intro t ht
      obtain ⟨u, hu, rfl⟩ := List.mem_map.1 ht
      exact head u hu
    · intro t ht
      rw [ht, Option.map_some] at hhead
      obtain ⟨u, hu, hkind⟩ := Option.map_eq_some_iff.1 hhead.symm
      rw [← hkind]
      exact stop u hu

theorem OtherForm.respell {ts rest rest' : List Token} {is : List Ident} (h : OtherForm ts rest is)
    (hts : ∀ t ∈ ts, m.Suits t) (ha : Agree rest rest') :
    OtherForm (ts.map m.token) rest' (is.map m.ident) := by
  have hall := ha.append hts
  cases h with
  | enum form =>
    rw [← idents_map hts]
    exact .enum (form.respell hts ha)
  | delegate word form =>
    refine .delegate (by rwa [hall.kind]) ?_
    rw [StatementForm, List.length_map]
    exact statementLength_agree form ha
  | plain noType noEnum noDelegate form =>
    rw [← idents_map hts]
    refine .plain (by rwa [TypeAt.agree_iff hall]) (by rwa [hall.kind]) (by rwa [hall.kind]) ?_
    rw [PlainForm, List.length_map]
    exact memberLength_agree form hts ha

theorem MemberAt.agree_iff {rest rest' : List Token} (ha : Agree rest rest') :
    MemberAt rest' ↔ MemberAt rest := by
  unfold MemberAt
  rw [ha.kind]

mutual

theorem DeclForm.respell {start : Nat} {attributes : List AttributeList} {modifiers : List String}
    {ts rest rest' : List Token} {d : TypeDecl} (hts : Suited m ts) (ha : Agree rest rest') :
    DeclForm start attributes modifiers ts rest d →
      DeclForm (m.place start) (attributes.map m.attributeList) modifiers (ts.map m.token) rest'
        (m.typeDecl d)
  | @DeclForm.mk _ _ _ hs bs _ header nested is head block => by
    have hhs : Suited m hs := hts.mono ⟨[], bs, by simp⟩
    have hbs : Suited m bs := hts.mono ⟨hs, [], by simp⟩
    have hform : DeclForm (m.place start) (attributes.map m.attributeList) modifiers _ rest' _ :=
      .mk (head.respell hhs (ha.append hbs.suits)) (block.respell hbs ha)
    rw [idents_map hhs.suits, stopOf_map block.ne_nil] at hform
    rw [List.map_append, typeDecl_declare, List.map_append]
    exact hform

theorem BlockForm.respell {ts rest rest' : List Token} {nested : List TypeDecl} {is : List Ident}
    (hts : Suited m ts) (ha : Agree rest rest') :
    BlockForm ts rest nested is →
      BlockForm (ts.map m.token) rest' (m.typeDeclList nested) (is.map m.ident)
  | .semi semi => .semi semi
  | @BlockForm.braces o c ts ss _ nested is opener body closer semi => by
    have hbody : Suited m ts := hts.mono ⟨[o], c :: ss, by simp⟩
    have hss : ∀ t ∈ ss, m.Suits t := fun t ht => hts.suits t (by simp [ht])
    have hrest := (ha.append hss).cons (hts.suits c (by simp))
    rw [List.map_cons, List.map_append, List.map_cons]
    exact .braces (o := m.token o) (c := m.token c) opener (body.respell hbody hrest) closer
      (semi.respell ha)

theorem BodyForm.respell {ts rest rest' : List Token} {nested : List TypeDecl} {is : List Ident}
    (hts : Suited m ts) (ha : Agree rest rest') :
    BodyForm ts rest nested is →
      BodyForm (ts.map m.token) rest' (m.typeDeclList nested) (is.map m.ident)
  | .done stop => .done (by rwa [ha.kind])
  | @BodyForm.semi s ts _ nested is semi tail => by
    have htail : Suited m ts := hts.mono ⟨[s], [], by simp⟩
    exact .semi (s := m.token s) semi (tail.respell htail ha)
  | @BodyForm.type as ms ds ts _ attributes d nested is start attributesForm modifiers decl tail => by
    have has : Suited m as := hts.mono ⟨[], ms ++ (ds ++ ts), by simp⟩
    have hms : ∀ t ∈ ms, m.Suits t := fun t ht => hts.suits t (by simp [ht])
    have hds : Suited m ds := hts.mono ⟨as ++ ms, ts, by simp⟩
    have htail : Suited m ts := hts.mono ⟨as ++ (ms ++ ds), [], by simp⟩
    have hta := ha.append htail.suits
    have hda := hta.append hds.suits
    have hma := hda.append hms
    have hfront : ∀ t ∈ as ++ ms, m.Suits t := fun t ht => hts.suits t (by
      rcases List.mem_append.1 ht with ht | ht <;> simp [ht])
    obtain ⟨hmodifiers, htexts⟩ := modifiers.respell hms hda
    have hstart : startOf ((as ++ (ms ++ ds)).map m.token) = m.place (startOf (as ++ (ms ++ ds))) :=
      startOf_map (by simp [decl.ne_nil])
    have hdecl := decl.respell hds hta
    rw [← hstart, ← htexts, List.map_append, List.map_append] at hdecl
    have hform := BodyForm.type ((MemberAt.agree_iff (hma.append has.suits)).2 start)
      (attributesForm.respell has hma) hmodifiers hdecl (tail.respell htail ha)
    have hidents := idents_map hfront
    rw [List.map_append] at hidents
    rw [hidents, ← List.map_append] at hform
    simp only [List.map_append, typeDeclList] at hform ⊢
    exact hform
  | @BodyForm.other as ms us ts _ attributes nested js is start attributesForm modifiers member
      tail => by
    have has : Suited m as := hts.mono ⟨[], ms ++ (us ++ ts), by simp⟩
    have hms : ∀ t ∈ ms, m.Suits t := fun t ht => hts.suits t (by simp [ht])
    have hus : ∀ t ∈ us, m.Suits t := fun t ht => hts.suits t (by simp [ht])
    have htail : Suited m ts := hts.mono ⟨as ++ (ms ++ us), [], by simp⟩
    have hta := ha.append htail.suits
    have hua := hta.append hus
    have hma := hua.append hms
    have hfront : ∀ t ∈ as ++ ms, m.Suits t := fun t ht => hts.suits t (by
      rcases List.mem_append.1 ht with ht | ht <;> simp [ht])
    obtain ⟨hmodifiers, -⟩ := modifiers.respell hms hua
    have hform := BodyForm.other ((MemberAt.agree_iff (hma.append has.suits)).2 start)
      (attributesForm.respell has hma) hmodifiers (member.respell hus hta) (tail.respell htail ha)
    have hidents := idents_map hfront
    rw [List.map_append] at hidents
    rw [hidents, ← List.map_append, ← List.map_append] at hform
    simp only [List.map_append] at hform ⊢
    exact hform

end

end Grammar

end SelfTypeLint
