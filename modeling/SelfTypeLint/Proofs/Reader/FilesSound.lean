import SelfTypeLint.Proofs.Grammar.Files
import SelfTypeLint.Proofs.Reader.DeclarationsSound

/-!
# Reading files gives files of the grammar

As in bodies, what does not fit the grammar is reported and passed over, and what is read around it
is spelled by tokens consumed. A file without faults is spelled by all of its tokens.
-/

namespace SelfTypeLint

namespace Read

open Cursor Token Grammar

/-- Reads what a using directive says before its target, and goes on with it and the text that is
read. -/
def withUsingKind {α : Type} (g : String → UsingKind → Option String → Read α) : Read α := do
  let c ← get
  if c.kind = .kwStatic then do
    set c.bump
    g c.source .ofMembers none
  else if c.kind = .ident ∧ c.peek 1 = .eq then do
    set (c.advance 2)
    g c.source .ofAlias (some (identName c.current.text))
  else g c.source .ofNamespace none

/-- The target of a using directive that begins at an offset. -/
def usingTarget (start : Nat) (isGlobal : Bool) (source : String) (k : UsingKind)
    (newName : Option String) : Read UsingDirective := do
  let target ← typeExpr
  let text := target.dottedName?.getD (target.span.text source)
  let _ ← expect .semi .semicolon
  return { kind := k, isGlobal, newName, target := text, targetSpan := target.span
           span := ← spanFrom start }

theorem usingDirective_eq : usingDirective = (do
    let c ← get
    let rest (isGlobal : Bool) : Read UsingDirective := do
      let _ ← expect .kwUsing .usingWord
      withUsingKind (usingTarget c.current.span.start isGlobal)
    if c.atWord "global" then
      set c.bump
      rest (c.atWord "global")
    else rest (c.atWord "global")) := rfl

/-- The target of a using directive completes it. -/
private theorem spells_usingTarget {c d : Cursor} (hc : c.Ready) {gs ks : List Token} {w : Token}
    {isGlobal : Bool} {k : UsingKind} {newName : Option String}
    (hd : c.Took (gs ++ w :: ks) d) (hglobal : GlobalForm gs isGlobal) (hw : w.kind = .kwUsing)
    (hkind : UsingKindForm ks d.ahead k newName) :
    Spells c (usingTarget c.current.span.start isGlobal c.source k newName) d
      (UsingForm (·.text c.source)) := by
  refine Spells.bind TypeForm (spells_typeExpr d (hd.ready hc)) hd ?_
  intro ts e f hts hf h
  refine sat_bind.2 (sat_expect.2 ?_)
  split
  · next hk =>
    obtain ⟨s, hs, -, hb, ha⟩ := (hf.ready hc).exists_cons hk (by simp)
    have htook : c.Took (gs ++ w :: (ks ++ (ts ++ [s]))) f.bump := by
      simpa using hf.trans hb
    have hne : gs ++ w :: (ks ++ (ts ++ [s])) ≠ [] := by simp
    have hspan : f.bump.spanFrom c.current.span.start = spanOf (gs ++ w :: (ks ++ (ts ++ [s]))) := by
      rw [htook.current_start hne, spanFrom_of_le (htook.startOf_le hc hne), spanOf, htook.prevEnd,
        stopOf_of_ne_nil hne c.prevEnd 0]
    rw [hts.ahead, ha] at hkind
    rw [ha] at h
    refine sat_bind.2 (sat_spanFrom.2 (sat_pure.2 ⟨_, htook, ?_⟩))
    rw [hspan]
    exact .mk hglobal hw hkind h hs
  · exact ⟨_, hf⟩

/-- After the word `global`, if it is written, the directive follows. -/
private theorem spells_afterGlobal {c d : Cursor} (hc : c.Ready) {gs : List Token} {isGlobal : Bool}
    (hd : c.Took gs d) (hglobal : GlobalForm gs isGlobal) : Spells c (do
      let _ ← expect .kwUsing .usingWord
      withUsingKind (usingTarget c.current.span.start isGlobal)) d (UsingForm (·.text c.source)) := by
  have hr := hd.ready hc
  refine sat_bind.2 (sat_expect.2 ?_)
  split
  · next hk =>
    obtain ⟨w, hw, -, hb, -⟩ := hr.exists_cons hk (by simp)
    have hall := hd.trans hb
    have hr' := hall.ready hc
    refine sat_bind.2 (sat_get.2 ?_)
    rw [hall.source]
    split
    · next hk' =>
      obtain ⟨s, hs, -, hbs, -⟩ := hr'.exists_cons hk' (by simp)
      refine sat_bind.2 (sat_set.2 ?_)
      exact spells_usingTarget hc (by simpa using hall.trans hbs) hglobal hw (.members hs)
    · next hk' =>
      split
      · next halias =>
        obtain ⟨t, ht, hcur, hbt, ha⟩ := hr'.exists_cons halias.1 (by simp)
        have hsign : d.bump.bump.kind = .eq := by
          rw [(hbt.ready hr').kind_eq, ← halias.2, peek_eq, ha, kindAt_cons_succ]
        obtain ⟨e, he, -, hbe, -⟩ := (hbt.ready hr').exists_cons hsign (by simp)
        refine sat_bind.2 (sat_set.2 ?_)
        rw [hcur]
        have htook : c.Took (gs ++ w :: [t, e]) d.bump.bump.bump := by
          simpa using hall.trans (hbt.trans hbe)
        exact spells_usingTarget hc htook hglobal hw (.aliased ht he)
      · next halias =>
        rw [hr'.kind_eq] at hk' halias
        rw [peek_eq] at halias
        exact spells_usingTarget hc (by simpa using hall) hglobal hw (.space hk' halias)
  · exact ⟨_, hd⟩

/-- What is read as a using directive is spelled by the tokens consumed. -/
theorem spells_usingDirective {c : Cursor} (hc : c.Ready) :
    Spells c usingDirective c (UsingForm (·.text c.source)) := by
  rw [usingDirective_eq]
  refine sat_bind.2 (sat_get.2 ?_)
  rw [hc.atWord_eq]
  dsimp only
  split
  · next hw =>
    rw [hw]
    have hne : c.kind ≠ .eof := by
      intro he
      rw [hc.ahead_eq_nil he] at hw
      simp [wordAt] at hw
    obtain ⟨g, -, -, hb, ha⟩ := hc.exists_cons rfl hne
    rw [ha, ← wordAt_singleton] at hw
    exact sat_bind.2 (sat_set.2 (spells_afterGlobal hc hb (.word hw)))
  · next hw =>
    rw [Bool.not_eq_true] at hw
    rw [hw]
    exact spells_afterGlobal hc (Took.refl c) .none

theorem usingAt_iff {c : Cursor} (hc : c.Ready) :
    (c.kind = .kwUsing ∨ (c.atWord "global" = true ∧ c.peek 1 = .kwUsing)) ↔ UsingAt c.ahead := by
  rw [hc.kind_eq, hc.atWord_eq, peek_eq, UsingAt]

theorem externAt_iff {c : Cursor} (hc : c.Ready) :
    (c.kind = .modifier ∧ c.current.text = "extern" ∧ c.peek 1 = .ident) ↔ ExternAt c.ahead := by
  rw [hc.kind_eq, peek_eq, ExternAt]
  cases ha : c.ahead with
  | nil => simp
  | cons t ts => simp [current_of_cons ha, and_assoc]

/-! ## Namespaces -/

theorem spells_dottedTail {c : Cursor} (hc : c.Ready) {n : Nat} (hn : c.ahead.length ≤ n)
    (name : String) {span : Span} (hs : span.start ≤ span.stop) (hle : span.stop ≤ c.prevEnd) :
    Spells c (dottedTail n name span) c fun ts rest r => DottedForm name span ts rest r.1 r.2 := by
  induction n generalizing c name span with
  | zero =>
    have h : c.ahead = [] := List.length_eq_zero_iff.1 (Nat.le_zero.1 hn)
    exact ⟨[], Took.refl c, .done (by simp [DotAt, h])⟩
  | succ n ih =>
    rw [dottedTail]
    refine sat_bind.2 (sat_get.2 ?_)
    split
    · next hdot =>
      obtain ⟨d, hd, -, hb, ha⟩ := hc.exists_cons hdot.1 (by simp)
      have hident : c.bump.kind = .ident := by
        rw [(hb.ready hc).kind_eq, ← hdot.2, peek_eq, ha, kindAt_cons_succ]
      obtain ⟨t, ht, hcur, hbt, ha'⟩ := (hb.ready hc).exists_cons hident (by simp)
      have htook := hb.trans hbt
      have hplaced := hc.placed
      rw [htook.ahead] at hplaced
      have hlt := hplaced.start_le (t := t) (by simp)
      have hmerge : span.merge t.span = ⟨span.start, t.span.stop⟩ := by
        simp only [Span.merge, Span.mk.injEq]
        omega
      have hlen := htook.length_le
      simp only [List.length_append, List.length_singleton] at hlen
      refine sat_bind.2 (sat_set.2 (sat_bind.2 (sat_next.2 ?_)))
      rw [hcur, hmerge]
      show Spells c _ c.bump.bump fun ts rest (r : String × Span) =>
        DottedForm name span ts rest r.1 r.2
      refine (ih (htook.ready hc) (by omega) _ (by dsimp only; omega) ?_).after htook ?_
      · rw [htook.prevEnd]
        exact Nat.le_refl _
      · intro us rest r _ h
        exact .more hd ht h
    · next hdot =>
      rw [hc.kind_eq, peek_eq] at hdot
      exact ⟨[], Took.refl c, .done hdot⟩

/-! ## Members of files and namespaces -/

/-- What holds of members that have been read. -/
def MembersRead (source : String) (n : Nat) (c : Cursor) (r : Members) (d : Cursor) : Prop :=
  ∃ ts is es, c.Moved ts is es d ∧ LooseMembers (·.text source) ts r.1 r.2 ∧
    (es = [] → c.ahead.length < n → MembersForm (·.text source) ts d.ahead r.1 r.2 is)

/-- What reading members gives. -/
def ReadsMembers (source : String) (n : Nat) : Prop :=
  ∀ c, c.Ready → c.source = source → SatM (membersWith n) c (MembersRead source n c)

/-- Holds of a cursor that has moved on. -/
def MovedOn (c d : Cursor) : Prop := ∃ ts is es, c.Moved ts is es d

/-- Reads the members of a namespace with a name after its opening, and ends it. -/
def spaceBody (start n : Nat) (name : String) (nameSpan : Span) (fileScoped : Bool) :
    Read NamespaceDecl := do
  let bodyStart := (← get).prevEnd
  let (usings, members) ← membersWith n
  unless fileScoped do closeBody
  return { name, nameSpan, fileScoped, usings, members, span := ← spanFrom start, bodyStart }

theorem namespaceWith_succ (start n : Nat) : namespaceWith start (n + 1) = (do
    let _ ← expect .kwNamespace .namespaceWord
    let first ← expect .ident .namespaceName
    let (name, nameSpan) ← dottedTail (← get).ahead.length (identName first.text) first.span
    let fileScoped ← eat .semi
    if fileScoped then spaceBody start n name nameSpan fileScoped
    else do
      let _ ← expect .lbrace .openingBrace
      spaceBody start n name nameSpan fileScoped) := by
  rw [namespaceWith]
  rfl

/-- What holds of a namespace that has been read. -/
def SpaceRead (source : String) (n start : Nat) (c : Cursor) (r : NamespaceDecl) (d : Cursor) :
    Prop :=
  ∃ ts is es, c.Moved ts is es d ∧ LooseSpace (·.text source) start ts r ∧
    (es = [] → c.ahead.length ≤ n + 1 → SpaceForm (·.text source) start ts d.ahead r is)

/-- What reading a namespace gives. -/
def ReadsSpace (source : String) (n : Nat) : Prop :=
  ∀ start c, c.Ready → c.source = source → start ≤ startOf c.ahead →
    Sat (namespaceWith start n) c (SpaceRead source n start c) (MovedOn c)

private theorem spanFrom_moved {c d : Cursor} {ts : List Token} {is : List Ident}
    {es : List ParseError} (hc : c.Ready) (h : c.Moved ts is es d) (hne : ts ≠ []) {start : Nat}
    (hs : start ≤ startOf c.ahead) : d.spanFrom start = ⟨start, stopOf c.prevEnd ts⟩ := by
  have hle := h.startOf_le hc hne
  rw [← startOf_append hne, ← h.ahead] at hle
  rw [spanFrom_of_le (Nat.le_trans hs hle), h.prevEnd]

/-- A namespace that reaches to the end of the file. -/
private theorem sat_fileSpace {source : String} {n start : Nat} (hmembers : ReadsMembers source n)
    {c d : Cursor} (hc : c.Ready) (hsource : c.source = source) (hstart : start ≤ startOf c.ahead)
    {k t s : Token} {ns : List Token} {name : String} {span : Span} (hk : k.kind = .kwNamespace)
    (ht : t.kind = .ident) (hd : c.Took (k :: t :: (ns ++ [s])) d)
    (hname : DottedForm (identName t.text) t.span ns (s :: d.ahead) name span)
    (hs : s.kind = .semi) :
    Sat (spaceBody start n name span true) d (SpaceRead source (n + 1) start c) (MovedOn c) := by
  refine sat_bind.2 (sat_get.2 (sat_bind.2 (sat_liftM.2 ?_)))
  refine SatM.mono (hmembers d (hd.ready hc) (hd.source.trans hsource)) ?_
  rintro ⟨us, ms⟩ e ⟨ts, is, es, he, hloose, hform⟩
  have hids : idents (k :: t :: (ns ++ [s])) = idents (t :: ns) := by
    rw [idents_cons_of_ne (by simp [hk]), ← List.cons_append, idents_append,
      idents_eq_nil (by simp [hs] : ∀ u ∈ [s], u.kind ≠ .ident), List.append_nil]
  have hall := Moved.trans hd he
  rw [hids] at hall
  have hspan := spanFrom_moved hc hall (by simp) hstart
  have hprev : d.prevEnd = s.span.stop := by
    rw [hd.prevEnd, ← List.cons_append, ← List.cons_append, stopOf_concat]
  refine sat_bind.2 (sat_spanFrom.2 (sat_pure.2 ?_))
  rw [hspan, hprev, stopOf_append, ← hd.prevEnd, hprev]
  have hspace : LooseSpace (·.text source) start _ _ :=
    .mk k s true ht hname hloose
  refine ⟨_, _, _, hall, by simpa using hspace, ?_⟩
  intro hes hn
  have hlen := hd.length_le
  simp only [List.length_cons, List.length_append] at hlen
  rw [he.ahead] at hname
  have hspace : SpaceForm (·.text source) start _ _ _ _ :=
    .file hk ht hname hs (hform hes (by omega))
  simpa using hspace

/-- A namespace with its members in braces. -/
private theorem sat_bracedSpace {source : String} {n start : Nat} (hmembers : ReadsMembers source n)
    {c d : Cursor} (hc : c.Ready) (hsource : c.source = source) (hstart : start ≤ startOf c.ahead)
    {k t o : Token} {ns : List Token} {name : String} {span : Span} (hk : k.kind = .kwNamespace)
    (ht : t.kind = .ident) (hd : c.Took (k :: t :: (ns ++ [o])) d)
    (hname : DottedForm (identName t.text) t.span ns (o :: d.ahead) name span)
    (ho : o.kind = .lbrace) :
    Sat (spaceBody start n name span false) d (SpaceRead source (n + 1) start c) (MovedOn c) := by
  refine sat_bind.2 (sat_get.2 (sat_bind.2 (sat_liftM.2 ?_)))
  refine SatM.mono (hmembers d (hd.ready hc) (hd.source.trans hsource)) ?_
  rintro ⟨us, ms⟩ e ⟨ts, is, es, he, hloose, hform⟩
  have hids : idents (k :: t :: (ns ++ [o])) = idents (t :: ns) := by
    rw [idents_cons_of_ne (by simp [hk]), ← List.cons_append, idents_append,
      idents_eq_nil (by simp [ho] : ∀ u ∈ [o], u.kind ≠ .ident), List.append_nil]
  have hall := Moved.trans hd he
  rw [hids] at hall
  have hprev : d.prevEnd = o.span.stop := by
    rw [hd.prevEnd, ← List.cons_append, ← List.cons_append, stopOf_concat]
  refine sat_bind.2 (sat_closeBody (hall.ready hc) ?_ ?_)
  · intro b ss f hb hss hsemi hidsb
    have hclosed := Moved.trans hall hss
    rw [hidsb, List.append_nil] at hclosed
    have hspan := spanFrom_moved hc hclosed (by simp) hstart
    refine sat_bind.2 (sat_spanFrom.2 (sat_pure.2 ?_))
    rw [hspan, hprev, stopOf_append, stopOf_cons]
    have hspace : LooseSpace (·.text source) start _ _ :=
      .mk k o false ht hname (hloose.append (.nil (b :: ss)))
    refine ⟨_, _, _, hclosed, by simpa using hspace, ?_⟩
    intro hes hn
    have hlen := hd.length_le
    simp only [List.length_cons, List.length_append] at hlen
    simp only [List.append_nil] at hes
    have hform' := hform (by simpa using hes) (by omega)
    rw [he.ahead, hss.ahead] at hname
    rw [hss.ahead] at hform'
    have hspace : SpaceForm (·.text source) start _ _ _ _ :=
      .braces hk ht hname ho hform' hb hsemi
    simpa using hspace
  · intro err
    have hopen := Moved.trans hall (e.moved_report err)
    have hspan := spanFrom_moved hc hopen (by simp) hstart
    refine sat_bind.2 (sat_spanFrom.2 (sat_pure.2 ?_))
    have hspace : LooseSpace (·.text source) start _ _ :=
      .mk k o false ht hname hloose
    rw [hspan, hprev, List.append_nil, stopOf_append, ← hd.prevEnd, hprev]
    refine ⟨_, _, _, hopen, by simpa using hspace, ?_⟩
    intro hes
    simp at hes

private theorem readsSpace_succ {source : String} {n : Nat} (hmembers : ReadsMembers source n) :
    ReadsSpace source (n + 1) := by
  intro start c hc hsource hstart
  rw [namespaceWith_succ]
  refine sat_bind.2 (sat_expect.2 ?_)
  split
  · next hk =>
    obtain ⟨k, hk, -, hbk, -⟩ := hc.exists_cons hk (by simp)
    refine sat_bind.2 (sat_expect.2 ?_)
    split
    · next ht =>
      obtain ⟨t, ht, hcur, hbt, -⟩ := (hbk.ready hc).exists_cons ht (by simp)
      have hkt := hbk.trans hbt
      have hready := hkt.ready hc
      have hplaced := (hbk.ready hc).placed
      rw [hbt.ahead] at hplaced
      have hdotted := spells_dottedTail hready (Nat.le_refl _) (identName t.text)
        (Nat.le_of_lt hplaced.2.1) (Nat.le_of_eq hbt.prevEnd.symm)
      rw [hcur]
      refine sat_bind.2 (sat_get.2 (hdotted.sat_bind ?_ ?_))
      · intro us e h
        exact ⟨_, _, _, hkt.trans h⟩
      · rintro ns ⟨name, span⟩ d hns hname
        have hhead : c.Took (k :: t :: ns) d := hkt.trans hns
        have hd := hhead.ready hc
        refine sat_bind.2 (sat_eat.2 ?_)
        split
        · next hs =>
          obtain ⟨s, hs, -, hb, ha⟩ := hd.exists_cons hs (by simp)
          rw [ha] at hname
          exact sat_fileSpace hmembers hc hsource hstart hk ht (hhead.trans hb) hname hs
        · refine sat_bind.2 (sat_expect.2 ?_)
          split
          · next ho =>
            obtain ⟨o, ho, -, hb, ha⟩ := hd.exists_cons ho (by simp)
            rw [ha] at hname
            exact sat_bracedSpace hmembers hc hsource hstart hk ht (hhead.trans hb) hname ho
          · exact ⟨_, _, _, hhead⟩
    · exact ⟨_, _, _, hbk⟩
  · exact ⟨[], [], [], Moved.refl c⟩

/-- What holds of one member of a file that has been read. -/
def FileMemberRead (source : String) (n : Nat) (c : Cursor) (r : Option Member) (d : Cursor) :
    Prop :=
  ∃ ts is es, c.Moved ts is es d ∧ LooseMembers (·.text source) ts [] r.toList ∧
    (es = [] → c.ahead.length ≤ n → ts ≠ [] ∧ FileMemberForm (·.text source) ts d.ahead r is)

/-- What reading one member of a file gives. -/
def ReadsFileMember (source : String) (n : Nat) : Prop :=
  ∀ c, c.Ready → c.source = source → MemberAt c.ahead →
    Sat (memberWith n) c (FileMemberRead source n c) (MovedOn c)

private theorem readsFileMember_succ {source : String} {n : Nat} (hspace : ReadsSpace source n) :
    ReadsFileMember source (n + 1) := by
  intro c hc hsource hmember
  rw [memberWith]
  refine sat_bind.2 (sat_get.2 ?_)
  dsimp only
  refine (spells_attributeLists c hc).sat_bind (fun _ _ h => ⟨_, _, _, h⟩) ?_
  intro as attributes d has hattributes
  refine (spells_modifiers d (has.ready hc)).sat_bind (fun _ _ h => ⟨_, _, _, has.trans h⟩) ?_
  rintro ms _ e hms ⟨hmodifiers, rfl⟩
  have htook := has.trans hms
  have he := htook.ready hc
  rw [hms.ahead] at hattributes
  refine sat_bind.2 (sat_get.2 ?_)
  split
  · next ht =>
    have ht := (atTypeDecl_iff he).1 ht
    have hne := typeAt_ne_nil ht
    have hstart := htook.current_start_le hc hne
    refine sat_bind.2 (Sat.mono ((readsDeclarations n).1 _ attributes _ e he ht hstart) ?_ ?_)
    · rintro d' f ⟨ds, es, hds, hloose, hform⟩
      have hall := Moved.trans htook hds
      have hdne := hloose.ne_nil
      have hcur := hall.current_start (by simp [hdne])
      rw [List.append_nil, List.nil_append] at hall
      refine sat_pure.2 ⟨_, _, _, hall, ?_, fun hes hn => ?_⟩
      · rw [hcur, List.append_assoc] at hloose
        have hbody := LooseBody.type hattributes hloose (.nil [])
        have hmembers : LooseMembers (·.text source) _ _ _ := .type hbody (.nil [])
        simpa using hmembers
      · have hlen := htook.length_le
        have hdform := hform hes (by omega)
        rw [hds.ahead] at hattributes hmodifiers
        rw [hcur] at hdform
        have hfile : FileMemberForm (·.text source) _ _ _ _ :=
          .type hattributes hmodifiers (by simpa using hdform)
        exact ⟨by simp [hdne], by simpa using hfile⟩
    · rintro f ⟨ds, es, hds⟩
      exact ⟨_, _, _, Moved.trans htook hds⟩
  · next ht =>
    rw [atTypeDecl_iff he] at ht
    split
    · next hk =>
      obtain ⟨k, -, -, -, ha⟩ := he.exists_cons hk (by simp)
      have hstart := htook.current_start_le hc (by simp [ha])
      refine sat_bind.2 (Sat.mono (hspace _ e he (htook.source.trans hsource) hstart) ?_ ?_)
      · rintro r f ⟨ns, is, es, hns, hloose, hform⟩
        have hall := Moved.trans htook hns
        have hnne := hloose.ne_nil
        have hcur := hall.current_start (by simp [hnne])
        rw [List.nil_append] at hall
        refine sat_pure.2 ⟨_, _, _, hall, ?_, fun hes hn => ?_⟩
        · rw [hcur] at hloose
          have hmembers := LooseMembers.space hloose (.nil [])
          simpa using hmembers
        · have hlen := htook.length_le
          have hsform := hform hes (by omega)
          rw [hns.ahead] at hattributes hmodifiers
          rw [hcur] at hsform
          have hfile : FileMemberForm (·.text source) _ _ _ _ :=
            .space hattributes hmodifiers (by simpa using hsform)
          exact ⟨by simp [hnne], by simpa using hfile⟩
      · rintro f ⟨ns, is, es, hns⟩
        exact ⟨_, _, _, Moved.trans htook hns⟩
    · next hk =>
      refine sat_bind.2 (Sat.mono (spells_skipEnum he hk) ?_ ?_)
      · rintro _ f ⟨us, hus, henum⟩
        have hall := htook.trans hus
        refine sat_pure.2 ⟨_, _, _, hall, .nil _, fun _ _ => ?_⟩
        rw [hus.ahead] at hattributes hmodifiers
        have hfile : FileMemberForm (·.text source) _ _ _ _ := .enum hattributes hmodifiers henum
        exact ⟨by cases henum; simp, by simpa using hfile⟩
      · rintro f ⟨us, hus⟩
        exact ⟨_, _, _, htook.trans hus⟩
    · next hk =>
      obtain ⟨us, hus, hform⟩ := moved_skipDelegate e
      have hall := Moved.trans htook hus
      rw [List.append_nil] at hall
      refine sat_bind.2 (sat_set.2 (sat_pure.2 ⟨_, _, _, hall, .nil _, fun _ _ => ?_⟩))
      rw [he.kind_eq, hus.ahead] at hk
      rw [hus.ahead] at hattributes hmodifiers
      have hne := hform.ne_nil ⟨by simp [hk], by simp [hk], by simp [hk]⟩
      have hfile : FileMemberForm (·.text source) _ _ _ _ :=
        .delegate hattributes hmodifiers hk hform
      exact ⟨by simp [hne], by simpa using hfile⟩
    · next h1 h2 h3 =>
      rw [he.kind_eq] at h1 h2 h3
      split
      · next htargets =>
        simp only [Bool.and_eq_true, Bool.not_eq_true', List.isEmpty_eq_false_iff,
          List.isEmpty_iff, List.map_eq_nil_iff, List.all_eq_true] at htargets
        obtain ⟨⟨hsome, rfl⟩, htargets⟩ := htargets
        rw [List.append_nil] at htook
        rw [List.nil_append] at hattributes
        refine sat_pure.2 ⟨_, _, _, htook, .nil _, fun _ _ => ⟨?_, ?_⟩⟩
        · rintro rfl
          cases hattributes
          exact hsome rfl
        · exact .attributes hattributes hmodifiers ⟨ht, h1, h2, h3⟩ hsome htargets
      · exact ⟨_, _, _, htook⟩

/-- A member that has been read, with the rest of the members after it. -/
private theorem FileMemberRead.membersRead {source : String} {n : Nat} {c d e : Cursor}
    {r : Option Member} {rest : Members} (hstart : DeclarationAt c.ahead)
    (hr : FileMemberRead source n c r d) (hrest : MembersRead source n d rest e) :
    MembersRead source (n + 1) c (rest.1, r.toList ++ rest.2) e := by
  obtain ⟨ts, is, es, hd, hloose, hform⟩ := hr
  obtain ⟨us, js, fs, he, hloose', hform'⟩ := hrest
  have hall := hd.trans he
  refine ⟨_, _, _, hall, hloose.append hloose', ?_⟩
  intro hes hn
  obtain ⟨rfl, rfl⟩ := List.append_eq_nil_iff.1 hes
  obtain ⟨hne, hmember⟩ := hform rfl (by omega)
  have hlen := hd.length_le
  have hpos := List.length_pos_iff.2 hne
  rw [hall.ahead, List.append_assoc] at hstart
  rw [he.ahead] at hmember
  exact .member hstart hmember (hform' rfl (by omega))

private theorem membersRead_done {source : String} {n : Nat} {c : Cursor} (hc : c.Ready)
    (h : c.kind = .eof ∨ c.kind = .rbrace) : MembersRead source n c ([], []) c := by
  rw [hc.kind_eq] at h
  exact ⟨[], [], [], Moved.refl c, .nil _, fun _ _ => .done h⟩

/-- Members after a fault that is reported, where something is skipped. -/
private theorem membersRead_fault {source : String} {n : Nat} {c d f g : Cursor} {e : ParseError}
    {r : Members} {ts us : List Token} {is js : List Ident} {es : List ParseError}
    (hd : c.Moved ts is es d) (hf : (d.report e).Moved us js [] f)
    (hr : MembersRead source n f r g) : MembersRead source (n + 1) c r g := by
  obtain ⟨vs, ks, fs, hg, hloose, -⟩ := hr
  have hskip := Moved.trans hd (Moved.trans (d.moved_report e) hf)
  refine ⟨_, _, _, Moved.trans hskip hg, .skip _ hloose, ?_⟩
  intro hes
  simp at hes

private theorem readsMembers_succ {source : String} {n : Nat} (hmembers : ReadsMembers source n)
    (hmember : ReadsFileMember source n) : ReadsMembers source (n + 1) := by
  intro c hc hsource
  rw [membersWith]
  refine satM_bind.2 (satM_get.2 ?_)
  split
  · next hk => exact membersRead_done hc (.inl hk)
  · next hk => exact membersRead_done hc (.inr hk)
  · next hk =>
    obtain ⟨s, hs, -, hb, -⟩ := hc.exists_cons hk (by simp)
    have hlen := hb.length_le
    have hs' : idents [s] = [] := idents_eq_nil (by simp [hs])
    simp only [List.length_singleton] at hlen
    refine satM_bind.2 (satM_set.2 (SatM.mono (hmembers _ (hb.ready hc) ?_) ?_))
    · exact hb.source.trans hsource
    · rintro r d ⟨ts, is, es, hd, hloose, hform⟩
      have hmoved := Moved.trans hb hd
      rw [hs'] at hmoved
      refine ⟨_, _, _, hmoved, .skip _ hloose, ?_⟩
      intro hes hn
      exact .semi hs (hform hes (by omega))
  · next h1 h2 h3 =>
    split
    · next husing =>
      refine satM_bind.2 (satM_run.2 (Sat.mono (spells_usingDirective hc) ?_ ?_))
      · rintro u d ⟨ts, hts, hu⟩
        have hlen := hts.length_le
        have hpos : 0 < ts.length := by
          cases hu
          simp only [List.length_append, List.length_cons]
          omega
        refine satM_bind.2 (SatM.mono (hmembers d (hts.ready hc) (hts.source.trans hsource)) ?_)
        rintro r e ⟨vs, is, es, he, hloose, hform⟩
        rw [hsource] at hu
        refine satM_pure.2 ⟨_, _, _, Moved.trans hts he, .using hu hloose, ?_⟩
        intro hes hn
        rw [he.ahead] at hu
        exact .using hu (hform hes (by omega))
      · rintro d ⟨ts, hts⟩ e _
        obtain ⟨us, hus, -⟩ := took_skipStatement (d.report e)
        have hskip := Moved.trans hts (Moved.trans (d.moved_report e) hus)
        refine satM_bind.2 (satM_modify.2 (SatM.mono (hmembers _ (hskip.ready hc) ?_) ?_))
        · exact hskip.source.trans hsource
        · intro r f hr
          exact membersRead_fault hts hus hr
    · next husing =>
      rw [usingAt_iff hc] at husing
      split
      · next hextern =>
        rw [externAt_iff hc] at hextern
        obtain ⟨ts, hts, hstatement⟩ := took_skipStatement c
        have hlen := hts.length_le
        rw [hc.kind_eq] at h1 h2 h3
        have hne : ts ≠ [] := by
          refine hstatement.ne_nil ?_
          rw [← hts.ahead]
          exact ⟨h2, h1, h3⟩
        have hpos := List.length_pos_iff.2 hne
        refine satM_bind.2 (satM_set.2 (SatM.mono (hmembers _ (hts.ready hc) ?_) ?_))
        · exact hts.source.trans hsource
        · rintro r d ⟨vs, is, es, hd, hloose, hform⟩
          refine ⟨_, _, _, Moved.trans hts hd, .skip _ hloose, ?_⟩
          intro hes hn
          rw [hts.ahead, hd.ahead] at hextern
          rw [hd.ahead] at hstatement
          exact .external hextern hstatement (hform hes (by omega))
      · next hextern =>
        rw [externAt_iff hc] at hextern
        rw [hc.kind_eq] at h1 h2 h3
        have hat : MemberAt c.ahead := ⟨h2, h1, h3⟩
        refine satM_bind.2 (satM_run.2 (Sat.mono (hmember c hc hsource hat) ?_ ?_))
        · intro r d hr
          obtain ⟨ts, is, es, hd, -⟩ := id hr
          have hrest := hmembers d (hd.ready hc) (hd.source.trans hsource)
          cases r with
          | none =>
            exact SatM.mono hrest fun rest e h => hr.membersRead ⟨hat, husing, hextern⟩ h
          | some m =>
            refine satM_bind.2 (SatM.mono hrest fun rest e h => satM_pure.2 ?_)
            exact hr.membersRead ⟨hat, husing, hextern⟩ h
        · rintro d ⟨ts, is, es, hd⟩ e _
          obtain ⟨us, hus, -⟩ := took_skipMember (d.report e)
          have hskip := Moved.trans hd (Moved.trans (d.moved_report e) hus)
          refine satM_bind.2 (satM_modify.2 (SatM.mono (hmembers _ (hskip.ready hc) ?_) ?_))
          · exact hskip.source.trans hsource
          · intro r f hr
            exact membersRead_fault hd hus hr

/-- What is read of a file is spelled by some of its tokens, without faults by all. -/
theorem readsFiles (source : String) (n : Nat) : ReadsMembers source n ∧
    ReadsFileMember source n ∧ ReadsSpace source n := by
  induction n with
  | zero =>
    refine ⟨?_, ?_, ?_⟩
    · intro c hc _
      show MembersRead source 0 c ([], []) c
      exact ⟨[], [], [], Moved.refl c, .nil _, fun _ h => by omega⟩
    · intro c _ _ _
      exact ⟨[], [], [], Moved.refl c⟩
    · intro _ c _ _ _
      exact ⟨[], [], [], Moved.refl c⟩
  | succ n ih =>
    obtain ⟨hmembers, hmember, hspace⟩ := ih
    exact ⟨readsMembers_succ hmembers hmember, readsFileMember_succ hspace,
      readsSpace_succ hmembers⟩

/-! ## Whole files -/

theorem satM_fileMembers (fuel : Nat) {c : Cursor} (hc : c.Ready) (n : Nat) :
    SatM (fileMembers fuel n) c fun r d => ∃ ts is es, c.Moved ts is es d ∧
      LooseMembers (·.text c.source) ts r.1 r.2 ∧ (es = [] → c.ahead.length < fuel → 0 < n →
        MembersForm (·.text c.source) c.ahead [] r.1 r.2 is) := by
  induction n generalizing c with
  | zero => exact ⟨[], [], [], Moved.refl c, .nil _, fun _ _ h => by omega⟩
  | succ n ih =>
    rw [fileMembers]
    refine satM_bind.2 (SatM.mono ((readsFiles c.source fuel).1 c hc rfl) ?_)
    rintro ⟨us, ms⟩ d ⟨ts, is, es, hd, hloose, hform⟩
    have hr := hd.ready hc
    refine satM_bind.2 (satM_get.2 ?_)
    dsimp only
    split
    · next hk =>
      obtain ⟨b, hb, -, -, hahead⟩ := hr.exists_cons hk (by simp)
      have hreport := Moved.trans hd (d.moved_report (d.unexpected .declaration))
      have hskip := Moved.trans hreport (took_bump hahead)
      refine satM_bind.2 (satM_set.2 (satM_bind.2 (SatM.mono (ih (hskip.ready hc)) ?_)))
      rintro ⟨us', ms'⟩ e ⟨vs, js, fs, he, hloose', -⟩
      rw [hskip.source] at hloose'
      have hall := hloose.append (.skip [b] hloose')
      refine satM_pure.2 ⟨_, _, _, Moved.trans hskip he, by simpa using hall, ?_⟩
      intro hes
      simp at hes
    · next hk =>
      refine satM_pure.2 ⟨_, _, _, hd, hloose, fun hes hn _ => ?_⟩
      have hmembers := hform hes hn
      have hnil : d.ahead = [] := by
        rcases hmembers.stop with h | h
        · exact hr.ahead_eq_nil (hr.kind_eq ▸ h)
        · exact absurd (hr.kind_eq ▸ h) hk
      rw [hnil] at hmembers
      rw [hd.ahead, hnil, List.append_nil]
      exact hmembers

end Read

namespace SyntaxTree

open Token Grammar Read

/-- What is read of a text is spelled by some of its tokens. -/
theorem looseMembers_read (file : FileId) (source : String) :
    LooseMembers (·.text source) (Cursor.ofSource source).ahead (read file source).tree.usings
      (read file source).tree.members := by
  obtain ⟨ts, is, es, hd, hloose, -⟩ := satM_fileMembers
    (declarationFuel (Cursor.ofSource source).ahead.length) (Cursor.ready_ofSource source)
    ((Cursor.ofSource source).ahead.length + 1)
  have hall := fun rest => hloose.append (.nil rest)
  simp only [List.append_nil] at hall
  rw [hd.ahead]
  exact hall _

/-- What is read of a text stands at its tokens. -/
theorem allPlacedIn_read (file : FileId) (source : String) :
    AllPlacedIn (Cursor.ofSource source).ahead (read file source).tree.usings
      (read file source).tree.members := (looseMembers_read file source).allPlacedIn

/-- A text without faults is spelled by its tokens. -/
theorem membersForm_read {file : FileId} {source : String} (h : (read file source).errors = []) :
    ∃ is, MembersForm (·.text source) (Cursor.ofSource source).ahead []
      (read file source).tree.usings (read file source).tree.members is := by
  obtain ⟨ts, is, es, hd, -, hform⟩ := satM_fileMembers
    (declarationFuel (Cursor.ofSource source).ahead.length) (Cursor.ready_ofSource source)
    ((Cursor.ofSource source).ahead.length + 1)
  have hnil : ((fileMembers (declarationFuel (Cursor.ofSource source).ahead.length)
      ((Cursor.ofSource source).ahead.length + 1)).run (Cursor.ofSource source)).2.errors = [] :=
    List.reverse_eq_nil_iff.1 h
  have herrors := hd.errors
  rw [hnil] at herrors
  have hes : es = [] := by
    have := (List.append_eq_nil_iff.1 herrors.symm).1
    exact List.reverse_eq_nil_iff.1 this
  exact ⟨is, hform hes (by rw [declarationFuel]; omega) (by omega)⟩

end SyntaxTree

end SelfTypeLint
