import SelfTypeLint.Proofs.Grammar.Loose
import SelfTypeLint.Proofs.Reader.HeaderSound

/-!
# Reading declarations gives declarations of the grammar

A body may hold members that do not fit the grammar. They are reported, and what is read around them
is still spelled by tokens consumed. Where nothing is reported all of the tokens spell what is read.
-/

namespace SelfTypeLint.Read

open Cursor Token Grammar

/-! ## Skipped members -/

theorem statementLength_le (depth : Nat) (ts : List Token) :
    statementLength depth ts ≤ ts.length := by
  fun_induction statementLength depth ts <;> simp_all

theorem memberLength_le (depth : Nat) (ts : List Token) : memberLength depth ts ≤ ts.length := by
  fun_induction memberLength depth ts <;> simp_all

theorem took_skipStatement (c : Cursor) :
    ∃ ts, c.Took ts c.skipStatement ∧ StatementForm ts c.skipStatement.ahead := by
  have hle := statementLength_le 0 c.ahead
  have htook := c.took_advance_take hle
  refine ⟨_, htook, ?_⟩
  rw [StatementForm, skipStatement, ← htook.ahead, List.length_take, Nat.min_eq_left hle]

theorem took_skipMember (c : Cursor) :
    ∃ ts, c.Took ts c.skipMember ∧ PlainForm ts c.skipMember.ahead := by
  have hle := memberLength_le 0 c.ahead
  have htook := c.took_advance_take hle
  refine ⟨_, htook, ?_⟩
  rw [PlainForm, skipMember, ← htook.ahead, List.length_take, Nat.min_eq_left hle]

theorem moved_skipDelegate (c : Cursor) :
    ∃ ts, c.Moved ts [] [] c.skipDelegate ∧ StatementForm ts c.skipDelegate.ahead := by
  obtain ⟨ts, h, hform⟩ := took_skipStatement c
  exact ⟨ts, ⟨h.source, h.eof, h.ahead, h.prevEnd, rfl, h.errors⟩, hform⟩

/-- The tokens after an optional group are completed by an optional semicolon. -/
private theorem spells_eatSemi {c d : Cursor} {e : Token} {us gs : List Token} (hc : c.Ready)
    (hd : c.Took (e :: (us ++ gs)) d) (he : e.kind = .kwEnum)
    (hus : ∀ t ∈ us, t.kind ≠ .lbrace ∧ t.kind ≠ .semi)
    (hgs : GroupForm .lbrace gs d.ahead)
    (hstop : ∀ t, (gs ++ d.ahead).head? = some t → t.kind = .lbrace ∨ t.kind = .semi) :
    Spells c (modify (·.eat .semi)) d fun ts rest _ => EnumForm ts rest := by
  obtain ⟨ss, hss, hsemi⟩ := optionalForm_eat (k := .semi) (hd.ready hc) (by simp)
  rw [hss.ahead] at hstop hgs
  exact ⟨_, by simpa using hd.trans hss, .mk he hus hstop hgs hsemi⟩

theorem spells_skipEnum {c : Cursor} (hc : c.Ready) (hk : c.kind = .kwEnum) :
    Spells c skipEnum c fun ts rest _ => EnumForm ts rest := by
  obtain ⟨e, he, -, hb, -⟩ := hc.exists_cons hk (by simp)
  have htail := c.bump.took_skipWhile fun t => t.kind ≠ .lbrace && t.kind ≠ .semi
  have hahead := c.bump.ahead_skipWhile fun t => t.kind ≠ .lbrace && t.kind ≠ .semi
  have hall := hb.trans htail
  have hd := hall.ready hc
  have hus : ∀ t ∈ c.bump.ahead.takeWhile fun t => t.kind ≠ .lbrace && t.kind ≠ .semi,
      t.kind ≠ .lbrace ∧ t.kind ≠ .semi := by
    intro t ht
    simpa using List.all_eq_true.1 List.all_takeWhile t ht
  have hstop : ∀ t, (c.bump.skipWhile fun t => t.kind ≠ .lbrace && t.kind ≠ .semi).ahead.head? =
      some t → t.kind = .lbrace ∨ t.kind = .semi := by
    intro t ht
    have hnot := List.head?_dropWhile_not (fun t => t.kind ≠ .lbrace && t.kind ≠ .semi) c.bump.ahead
    rw [hahead] at ht
    rw [ht] at hnot
    exact Decidable.or_iff_not_imp_left.2 (by simpa using hnot)
  refine sat_bind.2 (sat_modify.2 (sat_bind.2 (sat_modify.2 (sat_bind.2 (sat_get.2 ?_)))))
  generalize c.bump.skipWhile (fun t => t.kind ≠ .lbrace && t.kind ≠ .semi) = d at *
  generalize c.bump.ahead.takeWhile (fun t => t.kind ≠ .lbrace && t.kind ≠ .semi) = us at *
  split
  · next hk' =>
    show Spells c _ d fun ts rest _ => EnumForm ts rest
    refine Spells.bind _ (spells_skipBalanced hd hk' (by simp)) hall ?_
    rintro gs - f hgs hf ⟨o, vs, rfl, ho, hg⟩
    rw [hgs.ahead] at hstop
    exact spells_eatSemi hc (by simpa using hf) he hus (.group ho hg) hstop
  · next hk' =>
    rw [hd.kind_eq] at hk'
    have hnone : GroupForm .lbrace [] d.ahead := .none hk'
    exact spells_eatSemi hc (by simpa using hall) he hus hnone hstop

/-! ## Types and their bodies -/

/-- Holds of a cursor that a failed step leaves: it has moved on, and of what was consumed some
identifiers may be recorded. -/
def Fell (c d : Cursor) : Prop := ∃ ts is es, c.Moved ts is es d ∧ is.Sublist (idents ts)

/-- What reading a type declaration gives. -/
def ReadsDecl (n : Nat) : Prop :=
  ∀ start attributes modifiers c, c.Ready → TypeAt c.ahead → start ≤ startOf c.ahead →
    Sat (typeDeclWith start attributes modifiers n) c
      (fun d e => ∃ ts es, c.Moved ts [] es e ∧ LooseDecl start attributes modifiers ts d ∧
        (es = [] → c.ahead.length ≤ n + 1 → DeclForm start attributes modifiers ts e.ahead d))
      fun e => ∃ ts es, c.Moved ts [] es e

/-- What holds of a body that has been read. -/
def BodyRead (n : Nat) (c : Cursor) (nested : List TypeDecl) (d : Cursor) : Prop :=
  ∃ ts is es, c.Moved ts is es d ∧ Met ts is nested ∧
    LooseBody ts nested ∧ (es = [] → c.ahead.length < n → BodyForm ts d.ahead nested is)

/-- What reading a body gives. -/
def ReadsBody (n : Nat) : Prop := ∀ c, c.Ready → SatM (bodyWith n) c (BodyRead n c)

/-- What holds of a member of a body that has been read: it can stand in front of the rest of a
body. -/
def MemberRead (n : Nat) (c : Cursor) (r : Option TypeDecl) (d : Cursor) : Prop :=
  ∃ ts is es, c.Moved ts is es d ∧ Met ts is r.toList ∧
    LooseBody ts r.toList ∧ (es = [] → c.ahead.length ≤ n → ts ≠ [] ∧ ∀ us rest nested js, d.ahead = us ++ rest →
      BodyForm us rest nested js → BodyForm (ts ++ us) rest (r.toList ++ nested) (is ++ js))

/-- What reading a member of a body gives. -/
def ReadsMember (n : Nat) : Prop :=
  ∀ c, c.Ready → MemberAt c.ahead → Sat (bodyMemberWith n) c (MemberRead n c) (Fell c)

theorem sat_collecting {α : Type} {step : Read α} {c : Cursor} {Q : α × List Ident → Cursor → Prop}
    {E : Cursor → Prop} (h : Sat step { c with idents := [] }
      (fun a d => Q (a, d.idents.reverse) { d with idents := c.idents })
      fun d => E { d with idents := c.idents }) : Sat (collecting step) c Q E := by
  refine sat_bind.2 (sat_get.2 (sat_bind.2 (sat_modify.2 (sat_bind.2 ?_))))
  refine sat_attempt.2 (satM_run.2 (Sat.mono h ?_ ?_))
  · intro a d hd
    exact hd
  · intro d hd e _
    exact hd

/-- Reads the body of a type, or the semicolon in its place, and goes on with the nested types. -/
def withBlock {α : Type} (n : Nat) (g : List TypeDecl → Read α) : Read α := do
  let c ← get
  match c.kind with
  | .lbrace => do
    set c.bump
    let nested ← bodyWith n
    closeBody
    g nested
  | .semi => do
    set c.bump
    g []
  | _ => do
    let nested ← fail .bodyOrSemicolon
    g nested

/-- A type declaration is a head with a body. -/
theorem typeDeclWith_succ (start : Nat) (attributes : List AttributeList) (modifiers : List String)
    (n : Nat) : typeDeclWith start attributes modifiers (n + 1) = (do
      let (d, met) ← collecting (withHead fun kind t params span bases =>
        withBlock n fun nested => do
          let header : Header := ⟨kind, ⟨identName t.text, t.span⟩, params, span, bases⟩
          return header.declare attributes modifiers nested [] (← spanFrom start))
      return { d with idents := met }) := by
  rw [typeDeclWith]
  rfl

/-- The end of a body: a closing brace with an optional semicolon, or a report that none is there. -/
theorem sat_closeBody {d : Cursor} (hd : d.Ready) {Q : Unit → Cursor → Prop} {E : Cursor → Prop}
    (hclosed : ∀ b ss e, b.kind = .rbrace → d.Took (b :: ss) e → OptionalForm .semi ss e.ahead →
      idents (b :: ss) = [] → Q () e)
    (hopen : ∀ e, Q () (d.report e)) : Sat closeBody d Q E := by
  refine sat_bind.2 (sat_get.2 ?_)
  split
  · next hk =>
    obtain ⟨b, hb', -, hbb, -⟩ := hd.exists_cons hk (by simp)
    obtain ⟨ss, hss, hsemi⟩ := optionalForm_eat (k := .semi) (hbb.ready hd) (by simp)
    refine sat_set.2 (hclosed b ss _ hb' (hbb.trans hss) hsemi ?_)
    apply idents_eq_nil
    intro t ht
    rcases List.mem_cons.1 ht with rfl | ht
    · rw [hb']; simp
    · rw [hsemi.kind_eq t ht]; simp
  · exact sat_set.2 (hopen _)

private theorem sat_withBlock {α : Type} {n : Nat} (hbody : ReadsBody n)
    {g : List TypeDecl → Read α} {c : Cursor} (hc : c.Ready) {Q : α → Cursor → Prop}
    {E : Cursor → Prop} (hE : ∀ ts is es d, c.Moved ts is es d → E d)
    (hg : ∀ ts is es nested d, c.Moved ts is es d → ts ≠ [] → Met ts is nested →
      LooseBody ts nested → (es = [] → c.ahead.length ≤ n → BlockForm ts d.ahead nested is) → Sat (g nested) d Q E) :
    Sat (withBlock n g) c Q E := by
  refine sat_bind.2 (sat_get.2 ?_)
  split
  · next hk =>
    obtain ⟨o, ho, -, hb, -⟩ := hc.exists_cons hk (by simp)
    have hlen := hb.length_le
    simp only [List.length_singleton] at hlen
    refine sat_bind.2 (sat_set.2 (sat_bind.2 (sat_liftM.2 (SatM.mono (hbody _ (hb.ready hc)) ?_))))
    rintro nested d ⟨ts, is, es, hts, his, hloose, hform⟩
    have ho' : idents [o] = [] := idents_eq_nil (by simp [ho])
    have hopened := Moved.trans hb hts
    rw [ho', List.nil_append, List.nil_append] at hopened
    refine sat_bind.2 (sat_closeBody (hts.ready (hb.ready hc)) ?_ ?_)
    · intro b ss e hb' hss hsemi hids
      have hmoved := Moved.trans hopened hss
      rw [hids, List.append_nil, List.append_nil] at hmoved
      refine hg _ is es nested _ hmoved (by simp) ?_ ?_ ?_
      · simpa using (met_of_sublist (List.nil_sublist (idents [o]))).append
          (his.append (met_of_sublist (List.nil_sublist (idents (b :: ss)))))
      · have := LooseBody.skip [o] (hloose.append (.nil (b :: ss)))
        simpa using this
      · intro he hn
        have hbody := hform he (by omega)
        rw [hss.ahead] at hbody
        exact .braces ho hbody hb' hsemi
    · intro e
      refine hg _ _ _ nested _ (Moved.trans hopened (d.moved_report e)) (by simp) ?_ ?_ ?_
      · simpa using (met_of_sublist (List.nil_sublist (idents [o]))).append his
      · have := LooseBody.skip [o] hloose
        simpa using this
      · intro he
        simp at he
  · next hk =>
    obtain ⟨s, hs, -, hb, -⟩ := hc.exists_cons hk (by simp)
    have hs' : idents [s] = [] := idents_eq_nil (by simp [hs])
    refine sat_bind.2 (sat_set.2 (hg [s] [] [] [] _ ?_ (by simp)
      (met_of_sublist (List.nil_sublist _)) (.nil _) ?_))
    · rw [← hs']; exact hb
    · intro _ _
      exact .semi hs
  · exact hE [] [] [] c (Moved.refl c)

/-- A move that began without identifiers, seen with those of before. -/
theorem moved_outer {c d : Cursor} {ts : List Token} {is : List Ident}
    {es : List ParseError} (h : Moved { c with idents := [] } ts is es d) :
    d.idents.reverse = is ∧ c.Moved ts [] es { d with idents := c.idents } := by
  refine ⟨?_, h.source, h.eof, h.ahead, h.prevEnd, rfl, h.errors⟩
  rw [h.idents, List.append_nil, List.reverse_reverse]

private theorem readsDecl_succ {n : Nat} (hbody : ReadsBody n) : ReadsDecl (n + 1) := by
  intro start attributes modifiers c hc ht hstart
  have hc' : Ready { c with idents := [] } := ⟨hc.eof, hc.ahead, hc.placed⟩
  rw [typeDeclWith_succ]
  refine sat_bind.2 (sat_collecting ?_)
  refine sat_withHead hc' ht ?_ ?_
  · intro ts d hts
    exact ⟨ts, [], (moved_outer hts).2⟩
  · intro hs d kind t params span bases hhs hheader
    refine sat_withBlock hbody (hhs.ready hc') ?_ ?_
    · intro ts is es e h
      exact ⟨_, _, (moved_outer (Moved.trans hhs h)).2⟩
    · intro bs is es nested e hbs hne his hloose hblock
      obtain ⟨hids, hmoved⟩ := moved_outer (Moved.trans hhs hbs)
      have hnil : hs ++ bs ≠ [] := by simp [hne]
      have hle : start ≤ e.prevEnd := by
        have := hmoved.startOf_le hc hnil
        rw [← startOf_append hnil, ← hmoved.ahead] at this
        exact Nat.le_trans hstart this
      have hspan : e.spanFrom start = ⟨start, stopOf 0 bs⟩ := by
        rw [spanFrom_of_le hle, hbs.prevEnd, stopOf_of_ne_nil hne d.prevEnd 0]
      simp only [sat_bind, sat_spanFrom, sat_pure, hids, hspan]
      refine ⟨hs ++ bs, [] ++ es, hmoved, .mk hheader hne hloose his, ?_⟩
      intro he hn
      have hlen := hhs.length_le
      have h2 := hheader.two_le_length
      rw [hbs.ahead] at hheader
      exact .mk hheader (hblock (by simpa using he) (by simp only [] at hlen; omega))

private theorem fell_of_took {c d : Cursor} {ts : List Token} (h : c.Took ts d) : Fell c d :=
  ⟨ts, _, [], h, List.Sublist.refl _⟩

theorem typeAt_ne_nil {ts : List Token} (h : TypeAt ts) : ts ≠ [] := by
  rintro rfl
  simp [TypeAt, wordAt] at h

/-- A member that is no type, after attributes and modifiers. -/
private theorem memberRead_other {n : Nat} {c d e : Cursor} {as ms us : List Token}
    {attributes : List AttributeList} {js : List Ident} (hmember : MemberAt c.ahead)
    (hd : c.Took (as ++ ms) d) (hattributes : AttributeListsForm as (ms ++ d.ahead) attributes)
    (hmodifiers : ModifiersForm ms d.ahead) (he : d.Moved us js [] e)
    (hjs : js.Sublist (idents us)) (hother : OtherForm us e.ahead js) :
    MemberRead n c none e := by
  have hall := Moved.trans hd he
  rw [hall.ahead] at hmember
  refine ⟨_, _, _, hall, met_of_sublist ?_, .nil _, fun _ _ => ⟨?_, ?_⟩⟩
  · rw [idents_append (as ++ ms)]
    exact (List.Sublist.refl _).append hjs
  · intro hnil
    simp only [List.append_eq_nil_iff] at hnil
    obtain ⟨⟨rfl, rfl⟩, rfl⟩ := hnil
    exact hother.ne_nil hmember rfl
  · intro vs rest nested is hrest hbody
    rw [he.ahead, hrest] at hattributes hmodifiers
    rw [hrest] at hother hmember
    have := BodyForm.other (by simpa using hmember) hattributes hmodifiers hother hbody
    simpa using this

private theorem readsMember_succ {n : Nat} (hdecl : ReadsDecl n) : ReadsMember (n + 1) := by
  intro c hc hmember
  rw [bodyMemberWith]
  refine sat_bind.2 (sat_get.2 ?_)
  dsimp only
  refine (spells_attributeLists c hc).sat_bind (fun _ _ h => fell_of_took h) ?_
  intro as attributes d has hattributes
  refine (spells_modifiers d (has.ready hc)).sat_bind (fun _ _ h => fell_of_took (has.trans h)) ?_
  rintro ms _ e hms ⟨hmodifiers, rfl⟩
  have htook := has.trans hms
  have he := htook.ready hc
  rw [hms.ahead] at hattributes
  refine sat_bind.2 (sat_get.2 ?_)
  split
  · next ht =>
    have ht := (atTypeDecl_iff he).1 ht
    have hne := typeAt_ne_nil ht
    have hstart := htook.current_start_le hc hne
    refine sat_bind.2 (Sat.mono (hdecl _ attributes _ e he ht hstart) ?_ ?_)
    · rintro d' f ⟨ds, es, hds, hloose, hform⟩
      have hall := Moved.trans htook hds
      have hdne := hloose.ne_nil
      have hcur := hall.current_start (by simp [hdne])
      refine sat_pure.2 ⟨_, _, _, hall, ?_, ?_, ?_⟩
      · have hdecl : Met ds [] [d'] := ⟨List.nil_sublist _, by simpa [identsOf_cons] using hloose.subperm⟩
        exact (met_of_sublist (List.Sublist.refl _)).append hdecl
      · rw [hcur, List.append_assoc] at hloose
        have := LooseBody.type hattributes hloose (.nil [])
        simpa using this
      · intro hes hn
        have hlen := htook.length_le
        have hdform := hform (by simpa using hes) (by omega)
        refine ⟨by simp [hdne], ?_⟩
        intro us rest nested js hrest hbody
        rw [hds.ahead, hrest] at hattributes hmodifiers
        rw [htook.ahead, hds.ahead, hrest] at hmember
        rw [hcur, hrest] at hdform
        have := BodyForm.type (by simpa using hmember) hattributes hmodifiers (by simpa using hdform)
          hbody
        simpa using this
    · rintro f ⟨ds, es, hds⟩
      have hall := Moved.trans htook hds
      refine ⟨_, _, _, hall, ?_⟩
      rw [List.append_nil, idents_append (as ++ ms)]
      exact List.sublist_append_left _ _
  · next ht =>
    rw [atTypeDecl_iff he] at ht
    split
    · next hk =>
      refine sat_bind.2 (Sat.mono (spells_skipEnum he hk) ?_ ?_)
      · rintro _ f ⟨us, hus, henum⟩
        exact sat_pure.2 (memberRead_other hmember htook hattributes hmodifiers hus
          (List.Sublist.refl _) (.enum henum))
      · rintro f ⟨us, hus⟩
        exact fell_of_took (htook.trans hus)
    · next hk =>
      obtain ⟨us, hus, hform⟩ := moved_skipDelegate e
      rw [he.kind_eq, hus.ahead] at hk
      exact sat_bind.2 (sat_set.2 (sat_pure.2 (memberRead_other hmember htook hattributes hmodifiers
        hus (List.nil_sublist _) (.delegate hk hform))))
    · next h1 h2 =>
      obtain ⟨us, hus, hform⟩ := took_skipMember e
      rw [he.kind_eq, hus.ahead] at h1 h2
      rw [hus.ahead] at ht
      exact sat_bind.2 (sat_set.2 (sat_pure.2 (memberRead_other hmember htook hattributes hmodifiers
        hus (List.Sublist.refl _) (.plain ht h1 h2 hform))))

/-- A member goes in front of the rest of the body. -/
private theorem MemberRead.bodyRead {n : Nat} {c d e : Cursor} {r : Option TypeDecl}
    {nested : List TypeDecl} (hr : MemberRead n c r d) (hbody : BodyRead n d nested e) :
    BodyRead (n + 1) c (r.toList ++ nested) e := by
  obtain ⟨ts, is, es, hd, his, hloose, hform⟩ := hr
  obtain ⟨us, js, fs, he, hjs, hloose', hform'⟩ := hbody
  refine ⟨_, _, _, hd.trans he, his.append hjs, hloose.append hloose', ?_⟩
  · intro hes hn
    obtain ⟨rfl, rfl⟩ := List.append_eq_nil_iff.1 hes
    obtain ⟨hne, hmore⟩ := hform rfl (by omega)
    have hlen := hd.length_le
    have hpos := List.length_pos_iff.2 hne
    exact hmore us e.ahead nested js he.ahead (hform' rfl (by omega))

/-- Where a member was given up and skipped, the rest of the body is read as before. -/
private theorem Fell.bodyRead {n : Nat} {c d f : Cursor} {e : ParseError} {nested : List TypeDecl}
    (hd : Fell c d) (hbody : BodyRead n (d.report e).skipMember nested f) :
    BodyRead (n + 1) c nested f := by
  obtain ⟨ts, is, es, hd, his⟩ := hd
  obtain ⟨us, hus, -⟩ := took_skipMember (d.report e)
  obtain ⟨vs, js, fs, hf, hjs, hloose, -⟩ := hbody
  have hskip := Moved.trans hd (Moved.trans (d.moved_report e) hus)
  refine ⟨_, _, _, Moved.trans hskip hf, ?_, .skip _ hloose, ?_⟩
  · exact ((met_of_sublist his).append (met_of_sublist (List.Sublist.refl _))).append hjs
  · intro hes
    simp at hes

private theorem bodyRead_done {n : Nat} {c : Cursor} (hc : c.Ready)
    (h : c.kind = .rbrace ∨ c.kind = .eof) : BodyRead n c [] c := by
  rw [hc.kind_eq] at h
  exact ⟨[], [], [], Moved.refl c, met_of_sublist (List.Sublist.refl _), .nil _,
    fun _ _ => .done h⟩

private theorem readsBody_succ {n : Nat} (hbody : ReadsBody n) (hmember : ReadsMember n) :
    ReadsBody (n + 1) := by
  intro c hc
  rw [bodyWith]
  refine satM_bind.2 (satM_get.2 ?_)
  split
  · next hk => exact bodyRead_done hc (.inl hk)
  · next hk => exact bodyRead_done hc (.inr hk)
  · next hk =>
    obtain ⟨s, hs, -, hb, -⟩ := hc.exists_cons hk (by simp)
    have hlen := hb.length_le
    have hs' : idents [s] = [] := idents_eq_nil (by simp [hs])
    simp only [List.length_singleton] at hlen
    refine satM_bind.2 (satM_set.2 (SatM.mono (hbody _ (hb.ready hc)) ?_))
    rintro nested d ⟨ts, is, es, hd, his, hloose, hform⟩
    have hmoved := Moved.trans hb hd
    rw [hs'] at hmoved
    refine ⟨_, _, _, hmoved, ?_, .skip _ hloose, ?_⟩
    · exact (met_of_sublist (List.nil_sublist _)).append his
    · intro hes hn
      exact .semi hs (hform hes (by omega))
  · next h1 h2 h3 =>
    rw [hc.kind_eq] at h1 h2 h3
    refine satM_bind.2 (satM_run.2 (Sat.mono (hmember c hc ⟨h1, h2, h3⟩) ?_ ?_))
    · intro r d hr
      obtain ⟨ts, is, es, hd, -⟩ := id hr
      have hd := hd.ready hc
      cases r with
      | none => exact SatM.mono (hbody d hd) fun nested e h => hr.bodyRead h
      | some d' =>
        exact satM_bind.2 (SatM.mono (hbody d hd) fun nested e h => satM_pure.2 (hr.bodyRead h))
    · intro d hd e _
      obtain ⟨ts, is, es, hmoved, -⟩ := id hd
      obtain ⟨us, hus, -⟩ := took_skipMember (d.report e)
      have hready := hus.ready ((d.moved_report e).ready (hmoved.ready hc))
      refine satM_bind.2 (satM_modify.2 (SatM.mono (hbody _ hready) ?_))
      intro nested f h
      exact Fell.bodyRead hd h

/-- Whatever is read of types and bodies is spelled by some of the tokens, without faults by all. -/
theorem readsDeclarations (n : Nat) : ReadsDecl n ∧ ReadsBody n ∧ ReadsMember n := by
  induction n with
  | zero =>
    refine ⟨?_, ?_, ?_⟩
    · intro start attributes modifiers c hc _ _
      exact ⟨[], [], Moved.refl c⟩
    · intro c hc
      show BodyRead 0 c [] c
      exact ⟨[], [], [], Moved.refl c, met_of_sublist (List.Sublist.refl _), .nil _,
        fun _ h => by omega⟩
    · intro c hc _
      exact fell_of_took (Took.refl c)
  | succ n ih =>
    obtain ⟨hdecl, hbody, hmember⟩ := ih
    exact ⟨readsDecl_succ hbody, readsBody_succ hbody hmember, readsMember_succ hdecl⟩

end SelfTypeLint.Read
