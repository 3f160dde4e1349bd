import SelfTypeLint.Proofs.Grammar.Arguments

/-!
# Exchanges in heads

The head of a declaration with an argument of a base type exchanged (`HeaderForm.argument`), or with one of
its type parameters (`HeaderForm.param`), such as one that gets a further attribute (`ParamForm.marked`).
-/

namespace SelfTypeLint

/-- The head of a declaration at its new places with a parameter exchanged. -/
def TypeDecl.headerWith (d : TypeDecl) (m : Respelling) (i : Nat) (p : TypeParam) : Grammar.Header :=
  { m.header d.header with typeParams := (d.typeParams.map m.typeParam).set i p }

namespace Grammar

open Token Respelling

variable {m : Respelling}

/-- An item of a list can be exchanged. -/
theorem ListForm.item {α : Type} {form : List Token → List Token → α → Prop} {g : Respelling → α → α}
    (hmoved : ∀ {m : Respelling} {ts rest rest' : List Token} {a : α}, m.Moves → form ts rest a →
      Agree rest rest' → form (ts.map m.token) rest' (g m a))
    {ts rest : List Token} {as : List α} {i : Nat} {a : α} (ha : as[i]? = some a)
    (h : ListForm form ts rest as) :
    ∃ xs ws ys, ts = xs ++ (ws ++ ys) ∧ form ws (ys ++ rest) a ∧ (xs = [] ∨ lastKind xs = .comma) ∧
      ∀ (m : Respelling) (ws' rest' : List Token) (a' : α), m.Moves → Agree rest rest' →
        form ws' (ys.map m.token ++ rest') a' →
          ListForm form (xs.map m.token ++ (ws' ++ ys.map m.token)) rest' ((as.map (g m)).set i a') := by
  induction h generalizing i with
  | @last ts rest b item stop =>
    obtain ⟨rfl, rfl⟩ : i = 0 ∧ b = a := by
      cases i with
      | zero => exact ⟨rfl, Option.some.inj ha⟩
      | succ i => simp at ha
    refine ⟨[], ts, [], by simp, item, .inl rfl, fun m ws' rest' a' hm hrest hitem => ?_⟩
    rw [List.map_nil, List.nil_append, List.append_nil]
    exact .last hitem (by rwa [hrest.kind])
  | @more ts us rest c b as item comma tail ih =>
    cases i with
    | zero =>
      obtain rfl := Option.some.inj ha
      refine ⟨[], ts, c :: us, rfl, item, .inl rfl, fun m ws' rest' a' hm hrest hitem => ?_⟩
      have htail := tail.respell (fun item _ => hmoved hm item) (hm.suited us) hrest
      exact .more (c := m.token c) hitem comma htail
    | succ i =>
      obtain ⟨xs, ws, ys, rfl, hitem, hopens, hnew⟩ := ih ha
      refine ⟨ts ++ c :: xs, ws, ys, by simp, hitem, .inr ?_, fun m ws' rest' a' hm hrest hitem' => ?_⟩
      · rw [lastKind_append (by simp)]
        rcases hopens with rfl | hopens
        · exact comma
        · rwa [lastKind_cons (ne_nil_of_lastKind (.inr hopens))]
      · have hfirst := hmoved hm item (agree_of_end c (m.token c) (by simp [comma]) rfl (hm.text_eq _ _)
          _ (xs.map m.token ++ (ws' ++ ys.map m.token) ++ rest'))
        have hmore := ListForm.more (c := m.token c) hfirst comma (hnew m ws' rest' a' hm hrest hitem')
        simpa using hmore

/-! ## Arguments of base types -/

variable {a b : TypeExpr} {h : Header}

theorem TypeForm.argument {ts rest : List Token} {e : TypeExpr} (ha : a ∈ e.typeArgs)
    (h : TypeForm ts rest e) :
    ArgumentIn a ts fun _ ts' => ∀ rest', Agree rest rest' → ∃ e', TypeForm ts' rest' e' := by
  obtain ⟨xs, ws, ys, rfl, hws, hopens, hcloses, hnew⟩ := h.derivation.argument ha
  refine ⟨xs, ws, ys, rfl, hws, hopens, hcloses, fun m ws' e hm he rest' hrest => ?_⟩
  obtain ⟨e', he'⟩ := hnew m ws' e hm he
  have hxs := ne_nil_of_lastKind hopens
  have hys := ne_nil_of_kindAt hcloses
  refine ⟨e', he'.form ⟨h.ends.suffix.agree hrest, ?_⟩⟩
  -- The tokens still end as they did, and they are no single word.
  have hlast : lastKind (xs.map m.token ++ (ws' ++ ys.map m.token)) = lastKind (xs ++ (ws ++ ys)) := by
    rw [lastKind_append (by simp [hys]), lastKind_append (by simp [hys]), lastKind_append (by simp [hys]),
      lastKind_append hys]
    simp only [lastKind, List.getLast?_map, Option.map_map]
    rfl
  have hlength : (xs.map m.token ++ (ws' ++ ys.map m.token)).length ≠ 1 := by
    have hx := List.length_pos_iff.2 hxs
    have hy := List.length_pos_iff.2 hys
    simp only [List.length_append, List.length_map]
    omega
  constructor
  case arguments =>
    rw [hlast, hrest.kind]
    exact h.ends.name.arguments
  case dot =>
    rw [hlast, DotAt.agree_iff hrest]
    exact h.ends.name.dot
  case qualifier => exact fun _ h => absurd h hlength

theorem BaseForm.argument {ts rest : List Token} (ha : a ∈ b.typeArgs) (h : BaseForm ts rest b) :
    ArgumentIn a ts fun _ ts' => ∀ rest', Agree rest rest' → ∃ b', BaseForm ts' rest' b' := by
  cases h with
  | @mk ts us _ _ type call =>
    rw [← List.nil_append (ts ++ us)]
    refine (type.argument ha).within _ _ ?_
    rintro m ts' hm hP rest' hrest
    obtain ⟨b', htype⟩ := hP _ (hrest.moves hm us)
    rw [List.map_nil, List.nil_append]
    exact ⟨b', .mk htype (call.respell hrest)⟩

theorem BasesForm.argument {ts rest : List Token} {bs : List TypeExpr} (hb : b ∈ bs)
    (ha : a ∈ b.typeArgs) (h : BasesForm ts rest bs) :
    ArgumentIn a ts fun m ts' => (∃ k es es', ts = k :: es ∧ k.kind = .colon ∧ ts' = m.token k :: es') ∧
      ∀ rest', Agree rest rest' → ∃ bs', BasesForm ts' rest' bs' := by
  cases h with
  | none _ => exact absurd hb List.not_mem_nil
  | @some k ts _ _ colon list =>
    obtain ⟨i, hi⟩ := List.mem_iff_getElem?.1 hb
    obtain ⟨xs, ws, ys, rfl, hbase, -, hnew⟩ := list.item (g := Respelling.typeExpr)
      (fun hm item hrest => item.respell (hm.suited _) hrest) hi
    refine (hbase.argument ha).within (k :: xs) ys fun m ws' hm hP =>
      ⟨⟨k, _, _, rfl, colon, rfl⟩, fun rest' hrest => ?_⟩
    obtain ⟨b', hb'⟩ := hP _ (hrest.moves hm ys)
    exact ⟨_, .some (k := m.token k) colon (hnew m ws' rest' b' hm hrest hb')⟩

/-- A head with the same words for the kind and the same name is a new one. -/
theorem newHead {target : TypeDecl} {header : Header} (hheader : target.header = header)
    {ks vs' rest : List Token} {n : Token} (vs : List Token) (hks : ks ≠ [])
    (form : HeaderForm (ks.map m.token ++ m.token n :: vs') rest h) (kind : h.kind = header.kind)
    (name : h.name.name = header.name.name) (arity : h.typeParams.length = header.typeParams.length) :
    NewHead target m (ks ++ n :: vs) (ks.map m.token ++ m.token n :: vs') rest h where
  form := form
  front := by
    obtain ⟨t, us, rfl⟩ := List.exists_cons_of_ne_nil hks
    cases us with
    | nil => exact ⟨t, n, vs, vs', rfl, rfl⟩
    | cons u us => exact ⟨t, u, us ++ n :: vs, us.map m.token ++ m.token n :: vs', rfl, rfl⟩
  kind := kind.trans (congrArg (·.kind) hheader.symm)
  name := name.trans (congrArg (·.name.name) hheader.symm)
  arity := arity.trans (congrArg (·.typeParams.length) hheader.symm)

/-- An argument of a base type in a head can be exchanged. -/
theorem HeaderForm.argument {hs rest : List Token} {target : TypeDecl} (hb : b ∈ target.baseList)
    (ha : a ∈ b.typeArgs) (h : HeaderForm hs rest target.header) :
    ArgumentIn a hs fun m hs' => ∀ rest', Agree rest rest' → ∃ h', NewHead target m hs hs' rest' h' := by
  generalize hheader : target.header = header at h
  cases h with
  | @mk ks ps gs bs ws _ n kind typeParams listSpan baseList kindForm word params call bases
      constraints =>
    have hbase : target.baseList = baseList := congrArg Header.baseList hheader
    rw [hbase] at hb
    have hassoc : ks ++ n :: (ps ++ (gs ++ (bs ++ ws))) = ks ++ n :: (ps ++ gs) ++ (bs ++ ws) := by simp
    rw [hassoc]
    refine (bases.argument hb ha).within _ _ ?_
    rintro m bs' hm ⟨⟨k, es, es', rfl, colon, rfl⟩, hP⟩ rest' hrest
    obtain ⟨bs'', hbases⟩ := hP _ (hrest.moves hm ws)
    have hbs := agree_of_end k (m.token k) (by simp [colon]) rfl (hm.text_eq _ _) (es ++ (ws ++ rest))
      (es' ++ (ws.map m.token ++ rest'))
    have hgs := hbs.moves hm gs
    have hform : HeaderForm (ks.map m.token ++ m.token n ::
        (ps.map m.token ++ (gs.map m.token ++ (m.token k :: es' ++ ws.map m.token)))) rest'
        ⟨kind, ⟨identName (m.token n).text, m.span n.span⟩, typeParams.map m.typeParam,
          listSpan.map m.span, bs''⟩ :=
      .mk (kindForm.respell (fun t _ => hm.suits t) (hgs.moves hm (n :: ps))) word
        (params.respell (hm.suited ps) hgs) (call.respell hbs) hbases
        (constraints.respell (fun t _ => hm.suits t) hrest)
    have hname : identName (m.token n).text = identName n.text := congrArg identName (hm.text_eq _ _)
    have hnew := newHead hheader (ps ++ (gs ++ (k :: es ++ ws))) kindForm.ne_nil hform rfl hname
      (List.length_map ..)
    simp only [List.map_append, List.map_cons, List.append_assoc, List.cons_append] at hnew ⊢
    exact ⟨_, hnew⟩

/-! ## Type parameters -/

/-- A type parameter in a head can be exchanged. -/
theorem HeaderForm.param {hs rest : List Token} {target : TypeDecl} {i : Nat} {p : TypeParam}
    (hp : target.typeParams[i]? = some p) (h : HeaderForm hs rest target.header) :
    ∃ xs ws ys, hs = xs ++ (ws ++ ys) ∧ ParamForm ws (ys ++ rest) p ∧
      (lastKind xs = .lt ∨ lastKind xs = .comma) ∧
        ∀ (m : Respelling) (ws' rest' : List Token) (p' : TypeParam), m.Moves → Agree rest rest' →
          ParamForm ws' (ys.map m.token ++ rest') p' →
            NewHead target m hs (xs.map m.token ++ (ws' ++ ys.map m.token)) rest'
              (target.headerWith m i p') := by
  generalize hheader : target.header = header at h
  cases h with
  | @mk ks ps gs bs vs _ n kind typeParams listSpan baseList kindForm word params call bases
      constraints =>
    have hparams : target.typeParams = typeParams := congrArg Header.typeParams hheader
    rw [hparams] at hp
    cases params with
    | none _ => simp at hp
    | @some o c ts _ _ opener list closer =>
      obtain ⟨xs, ws, ys, rfl, hparam, hopens, hnew⟩ := list.item (g := Respelling.typeParam)
        (fun hm item hrest => item.respell (hm.suited _) hrest) hp
      refine ⟨ks ++ n :: o :: xs, ws, ys ++ c :: (gs ++ (bs ++ vs)), by simp, by simpa using hparam, ?_, ?_⟩
      · rw [lastKind_append (by simp), lastKind_cons (by simp)]
        rcases hopens with rfl | hopens
        · exact .inl opener
        · rw [lastKind_cons (ne_nil_of_lastKind (.inr hopens))]
          exact .inr hopens
      · intro m ws' rest' p' hm hrest hparam'
        have hvs := hrest.moves hm vs
        have hbs := hvs.moves hm bs
        have hgs := hbs.moves hm gs
        have hlist := hnew m ws' _ p' hm (hgs.moves hm [c]) (by simpa using hparam')
        have hkind : Agree (n :: (o :: (xs ++ (ws ++ ys) ++ [c]) ++ (gs ++ (bs ++ (vs ++ rest)))))
            (m.token n :: (m.token o :: (xs.map m.token ++ (ws' ++ ys.map m.token) ++ [m.token c]) ++
              (gs.map m.token ++ (bs.map m.token ++ (vs.map m.token ++ rest'))))) :=
          (agreeText_of_two hm n o _ _).toAgree
        have hform := HeaderForm.mk (kindForm.respell (fun t _ => hm.suits t) hkind) word
          (.some (o := m.token o) (c := m.token c) opener hlist closer) (call.respell hbs)
          (bases.respell (hm.suited bs) hvs) (constraints.respell (fun t _ => hm.suits t) hrest)
        have hname : identName (m.token n).text = m.text n.span (identName n.text) :=
          (hm.suits n).identName_eq
        rw [hname] at hform
        have hheader' : (⟨kind, ⟨m.text n.span (identName n.text), m.span n.span⟩,
            (typeParams.map m.typeParam).set i p', some ⟨m.place o.span.start, m.place c.span.stop⟩,
            m.typeExprList baseList⟩ : Header) = target.headerWith m i p' := by
          rw [TypeDecl.headerWith, hheader, hparams]
          rfl
        have hform' := hheader' ▸ hform
        have hnew := newHead hheader (o :: (xs ++ (ws ++ ys) ++ [c]) ++ (gs ++ (bs ++ vs)))
          kindForm.ne_nil hform' (by rw [← hheader']) (by rw [← hheader']; exact hm.text_eq _ _)
          (by rw [← hheader', List.length_set, List.length_map])
        simpa using hnew

/-- The type that one word is. -/
def wordType (t : Token) : TypeExpr := .path false [⟨identName t.text, t.span, [], none⟩] t.span

/-- The list of one attribute of one word. -/
def wordList (o t c : Token) : AttributeList :=
  ⟨none, [⟨wordType t, t.span⟩], ⟨o.span.start, c.span.stop⟩⟩

/-- A further attribute list of one word may stand behind attribute lists. -/
theorem AttributeListsForm.concat {as rest rest' : List Token} {ls : List AttributeList}
    (h : AttributeListsForm as rest ls) (hm : m.Moves) {o t c : Token} (ho : o.kind = .lbracket)
    (ht : t.kind = .ident) (hc : c.kind = .rbracket) (hstop : kindAt rest' 0 ≠ .lbracket) :
    AttributeListsForm (as.map m.token ++ [o, t, c]) rest' (ls.map m.attributeList ++ [wordList o t c]) := by
  induction h with
  | none _ =>
    have hends : TypeEnds [t] (c :: rest') :=
      ⟨⟨by simp [hc], by simp [hc], starAt_of_kind_ne (by simp [hc])⟩,
        nameEnds_of_kindAt (by simp [hc]) (by simp [hc]) (by simp [hc])⟩
    have htype : TypeForm [t] (c :: rest') (wordType t) :=
      TypeDerivation.form (.mk (.path .none (.last (.plain ht))) .nil) hends
    exact .cons ho (.none (by simp [hc])) (.last htype (.none (by simp [hc])) (by simp [hc])) hc (.none hstop)
  | @cons k d ts us vs rest target attributes ls opener head attributesForm closer _ ih =>
    have hrest := agree_of_end d (m.token d) (by simp [closer]) rfl (hm.text_eq _ _) (vs ++ rest)
      (vs.map m.token ++ [o, t, c] ++ rest')
    have hform := AttributeListsForm.cons (o := m.token k) (c := m.token d) opener
      (head.respell opener (hm.suited _) (hrest.moves hm us))
      (attributesForm.respell (fun t _ => hm.suits t) hrest) closer ih
    simp only [List.map_cons, List.map_append, List.cons_append, List.append_assoc] at hform ⊢
    exact hform

theorem AttributeListsForm.lastKind_eq {as rest : List Token} {ls : List AttributeList}
    (h : AttributeListsForm as rest ls) : as = [] ∨ lastKind as = .rbracket := by
  induction h with
  | none _ => exact .inl rfl
  | @cons k d ts us vs rest target attributes ls _ _ _ closer _ ih =>
    right
    have hassoc : k :: (ts ++ (us ++ d :: vs)) = k :: (ts ++ us) ++ d :: vs := by simp
    rw [hassoc, lastKind_append (by simp)]
    rcases ih with rfl | ih
    · exact closer
    · cases vs with
      | nil => exact absurd ih (by decide)
      | cons v vs => rwa [lastKind_cons (by simp)]

/-- No variance is written, or it is one keyword that stands for it wherever it stands. -/
theorem VarianceForm.eq_or {vs rest : List Token} {variance : Option (Variance × Span)}
    (h : VarianceForm vs rest variance) : vs = [] ∧ variance = Option.none ∨
      ∃ v direction, vs = [v] ∧ variance = some (direction, v.span) ∧ v.kind.isKeyword = true ∧
        ∀ (v' : Token) (rest' : List Token), v'.kind = v.kind →
          VarianceForm [v'] rest' (some (direction, v'.span)) := by
  cases h with
  | none _ => exact .inl ⟨rfl, rfl⟩
  | @contravariant v _ word =>
    exact .inr ⟨v, _, rfl, rfl, by rw [word]; rfl, fun _ _ h => .contravariant (h.trans word)⟩
  | @covariant v _ word =>
    exact .inr ⟨v, _, rfl, rfl, by rw [word]; rfl, fun _ _ h => .covariant (h.trans word)⟩

/-- A type parameter with a further attribute in front of its variance or name: the token there is moved
behind the new one. -/
theorem ParamForm.marked {ws rest : List Token} {p : TypeParam} (h : ParamForm ws rest p) :
    ∃ as f gs, ws = as ++ f :: gs ∧ f.span.start = p.attributeOffset ∧
      (f.kind = .ident ∨ f.kind.isKeyword = true) ∧ (as = [] ∨ lastKind as = .rbracket) ∧
      (gs = [] ∧ p.nameSpan = f.span ∨ ∃ n, gs = [n] ∧ p.nameSpan = n.span) ∧
      ∀ (m : Respelling) (rest' : List Token) (o t c f' : Token), m.Moves → o.kind = .lbracket →
        t.kind = .ident → c.kind = .rbracket → f'.kind = f.kind → f'.text = f.text →
          ∃ p', ParamForm (as.map m.token ++ o :: t :: c :: f' :: gs.map m.token) rest' p' ∧
            p'.name = p.name ∧ p'.attributes = p.attributes.map m.attributeList ++ [wordList o t c] ∧
            (gs = [] ∧ p'.nameSpan = f'.span ∨ gs ≠ [] ∧ p'.nameSpan = m.span p.nameSpan) := by
  cases h with
  | @mk as vs _ n attributes variance attributesForm varianceForm word =>
    have hlast := attributesForm.lastKind_eq
    rcases varianceForm.eq_or with ⟨rfl, rfl⟩ | ⟨v, direction, rfl, rfl, hkeyword, hvariance⟩
    · refine ⟨as, n, [], rfl, rfl, .inl word, hlast, .inl ⟨rfl, rfl⟩, ?_⟩
      intro m rest' o t c f' hm ho ht hc hkind htext
      have hf : f'.kind = .ident := hkind.trans word
      have hlists : AttributeListsForm _ ([] ++ f' :: rest') _ :=
        attributesForm.concat hm ho ht hc (by simp [hf])
      have hform := ParamForm.mk hlists (.none (by simp [hf])) hf
      simp only [List.append_assoc, List.cons_append, List.nil_append] at hform
      exact ⟨_, hform, congrArg identName htext, rfl, .inl ⟨rfl, rfl⟩⟩
    · refine ⟨as, v, [n], rfl, rfl, .inr hkeyword, hlast, .inr ⟨n, rfl, rfl⟩, ?_⟩
      intro m rest' o t c f' hm ho ht hc hkind htext
      have hf : f'.kind ≠ .lbracket := by
        rw [hkind]
        intro hk
        rw [hk] at hkeyword
        exact absurd hkeyword (by decide)
      have hlists : AttributeListsForm _ ([f'] ++ m.token n :: rest') _ :=
        attributesForm.concat hm ho ht hc hf
      have hform := ParamForm.mk hlists (hvariance f' (m.token n :: rest') hkind) word
      simp only [List.append_assoc, List.cons_append, List.nil_append] at hform
      exact ⟨_, hform, congrArg identName (hm.text_eq _ _), rfl, .inr ⟨by simp, rfl⟩⟩

end Grammar

end SelfTypeLint
