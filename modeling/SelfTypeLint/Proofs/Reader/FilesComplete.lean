import SelfTypeLint.Proofs.Reader.DeclarationsComplete
import SelfTypeLint.Proofs.Reader.FilesSound

/-!
# Files of the grammar are read

A text whose tokens spell a file is read without faults, and gives what they spell.
-/

namespace SelfTypeLint.Read

open Cursor Token Grammar

variable {c : Cursor}

/-! ## Using directives -/

private theorem parses_withUsingKind {α : Type} {g : String → UsingKind → Option String → Read α}
    {ks rest : List Token} {k : UsingKind} {newName : Option String} {Q : α → Cursor → Prop}
    {E : Cursor → Prop} (h : UsingKindForm ks rest k newName) (hc : c.Ready)
    (ha : c.ahead = ks ++ rest) (hg : ∀ d, d.Ready → d.ahead = rest → c.Took ks d →
      Sat (g c.source k newName) d Q E) : Sat (withUsingKind g) c Q E := by
  have hk := kind_of_ahead hc ha
  refine sat_bind.2 (sat_get.2 ?_)
  cases h with
  | members word =>
    obtain ⟨hb, hab, htook⟩ := bump_of_ahead hc ha
    rw [if_pos (hk.trans word)]
    exact sat_bind.2 (sat_set.2 (hg _ hb hab htook))
  | @aliased t s _ word sign =>
    have hno : c.kind ≠ .kwStatic := by
      rw [hk, List.cons_append, kindAt_cons_zero, word]
      simp
    have heq : c.kind = .ident ∧ c.peek 1 = .eq := by
      rw [hk, peek_eq, ha]
      exact ⟨word, sign⟩
    have htook := took_advance (show c.ahead = [t, s] ++ _ from ha)
    rw [if_neg hno, if_pos heq, current_of_cons ha]
    exact sat_bind.2 (sat_set.2 (hg _ (htook.ready hc) (Took.ahead_eq htook ha) htook))
  | space noMembers noAlias =>
    have hno : ¬ (c.kind = .ident ∧ c.peek 1 = .eq) := by
      rw [hk, peek_eq, ha]
      exact noAlias
    rw [if_neg (hk ▸ noMembers), if_neg hno]
    exact hg c hc ha (Took.refl c)

theorem parses_usingDirective {ts rest : List Token} {u : UsingDirective} (hc : c.Ready)
    (h : UsingForm (·.text c.source) ts rest u) (ha : c.ahead = ts ++ rest) :
    Parses usingDirective c ts u := by
  cases h with
  | @mk gs ks ts _ w s isGlobal kind newName e global word kindForm target semi =>
    have ha' : c.ahead = gs ++ (w :: (ks ++ (ts ++ s :: rest))) := by simpa using ha
    have hne : gs ++ w :: (ks ++ (ts ++ [s])) ≠ [] := by simp
    have hrest : ∀ d, d.Ready → d.ahead = w :: (ks ++ (ts ++ s :: rest)) → c.Took gs d →
        Sat (do
          let _ ← expect .kwUsing .usingWord
          withUsingKind (usingTarget c.current.span.start isGlobal)) d
          (fun b f => b = { kind, isGlobal, newName, target := e.dottedName?.getD (e.span.text c.source)
                            targetSpan := e.span, span := spanOf (gs ++ w :: (ks ++ (ts ++ [s]))) } ∧
            c.Took (gs ++ w :: (ks ++ (ts ++ [s]))) f) fun _ => False := by
      intro d hd had hgs
      refine sat_expect_bind hd had word fun f hf haf hw => ?_
      refine parses_withUsingKind kindForm hf haf fun i hi hai hks => ?_
      refine (parses_typeExpr target hi hai).sat_bind hi hai fun j hj haj hts => ?_
      refine sat_expect_bind hj haj semi fun k hk hak hs => ?_
      have hall : c.Took (gs ++ w :: (ks ++ (ts ++ [s]))) k := by
        simpa using hgs.trans (hw.trans (hks.trans (hts.trans hs)))
      have hspan : k.spanFrom c.current.span.start = spanOf (gs ++ w :: (ks ++ (ts ++ [s]))) := by
        rw [hall.current_start hne, spanFrom_of_le (hall.startOf_le hc hne), spanOf, hall.prevEnd,
          stopOf_of_ne_nil hne c.prevEnd 0]
      have hsource : f.source = c.source := hw.source.trans hgs.source
      rw [sat_bind, sat_spanFrom, hspan, hsource]
      exact ⟨rfl, hall⟩
    rw [usingDirective_eq]
    refine sat_bind.2 (sat_get.2 ?_)
    dsimp only
    cases global with
    | none =>
      have hw : ¬ c.atWord "global" = true := by
        rw [hc.atWord_eq, ha']
        intro h
        have := kind_of_wordAt (wordAt_singleton.trans h)
        simp [word] at this
      have hfalse : c.atWord "global" = false := by simpa using hw
      rw [if_neg hw, hfalse]
      exact hrest c hc ha' (Took.refl c)
    | @word g h =>
      have hw : c.atWord "global" = true := by
        rw [hc.atWord_eq, ha']
        exact wordAt_singleton.symm.trans h
      obtain ⟨hb, hab, htook⟩ := bump_of_ahead hc ha'
      rw [if_pos hw, hw]
      exact sat_bind.2 (sat_set.2 (hrest c.bump hb hab htook))

theorem parses_dottedTail {name name' : String} {span span' : Span} {ts rest : List Token}
    (h : DottedForm name span ts rest name' span') (hc : c.Ready) (ha : c.ahead = ts ++ rest)
    (hstart : span.start ≤ c.prevEnd) (hstop : span.stop ≤ c.prevEnd) {n : Nat} (hn : ts.length ≤ n) :
    Parses (dottedTail n name span) c ts (name', span') := by
  induction h generalizing c n with
  | @done name span rest stop =>
    cases n with
    | zero => exact ⟨rfl, Took.refl c⟩
    | succ n =>
      have hk : ¬ (c.kind = .dot ∧ c.peek 1 = .ident) := by
        rw [kind_of_ahead hc ha, peek_eq, ha]
        exact stop
      rw [dottedTail, Parses, sat_bind, sat_get, if_neg hk]
      exact ⟨rfl, Took.refl c⟩
  | @more name name' span span' d t ts rest dot word _ ih =>
    simp only [List.length_cons] at hn
    obtain ⟨n, rfl⟩ : ∃ m, n = m + 1 := ⟨n - 1, by omega⟩
    have ha' : c.ahead = d :: (t :: (ts ++ rest)) := ha
    have hk : c.kind = .dot ∧ c.peek 1 = .ident := by
      rw [kind_of_ahead hc ha', peek_eq, ha']
      exact ⟨dot, word⟩
    obtain ⟨hb, hab, htook⟩ := bump_of_ahead hc ha'
    obtain ⟨hb', hab', htook'⟩ := bump_of_ahead hb hab
    have hplaced := hc.placed
    rw [ha'] at hplaced
    have h1 := hplaced.1
    have h2 := hplaced.2.1
    have h3 := hplaced.2.2.1
    have h4 := hplaced.2.2.2.1
    have hmerge : span.merge t.span = ⟨span.start, t.span.stop⟩ := by
      simp only [Span.merge, Span.mk.injEq]
      omega
    have hprev : c.bump.bump.prevEnd = t.span.stop := htook'.prevEnd
    rw [dottedTail, Parses, sat_bind, sat_get, if_pos hk, sat_bind, sat_set, sat_bind, sat_next,
      current_of_cons hab, hmerge]
    refine (ih hb' hab' ?_ ?_ (by omega)).sat fun e he => ⟨rfl, ?_⟩
    · rw [hprev]
      dsimp only
      omega
    · exact Nat.le_of_eq hprev.symm
    · exact htook.trans (htook'.trans he)

/-! ## Members -/

private theorem kindAt_ne_of_not_typeAt {d : Cursor} (hd : d.Ready) {k : TokenKind}
    (hk : d.kind = k) (h : k ≠ .kwClass ∧ k ≠ .kwStruct ∧ k ≠ .kwInterface ∧ k ≠ .ident) :
    ¬ atTypeDecl d = true := by
  rw [atTypeDecl_iff hd]
  intro ht
  obtain ⟨h1, h2, h3, h4⟩ := h
  rw [hd.kind_eq] at hk
  rcases kindAt_of_typeAt ht with h | h | h | h
  · exact h1 (hk.symm.trans h)
  · exact h2 (hk.symm.trans h)
  · exact h3 (hk.symm.trans h)
  · exact h4 (hk.symm.trans h)

private theorem spanFrom_eq {d : Cursor} {ts : List Token} {is : List Ident} {start : Nat}
    (hc : c.Ready) (h : c.Moved ts is [] d) (hne : ts ≠ []) (hs : start ≤ startOf ts) :
    d.spanFrom start = ⟨start, stopOf 0 ts⟩ := by
  rw [spanFrom_of_le (Nat.le_trans hs (h.startOf_le hc hne)), h.prevEnd,
    stopOf_of_ne_nil hne c.prevEnd 0]

private theorem current_start_of_ahead {ts rest : List Token} (ha : c.ahead = ts ++ rest)
    (hne : ts ≠ []) : c.current.span.start = startOf ts := by
  rw [current_start_eq (by rw [ha]; simp [hne]), ha, startOf_append hne]

private theorem startOf_le_of_ahead {ts us rest : List Token} (hc : c.Ready)
    (ha : c.ahead = ts ++ us ++ rest) (hne : us ≠ []) : startOf (ts ++ us) ≤ startOf us := by
  have hplaced := hc.placed
  rw [ha] at hplaced
  exact hplaced.append_left.startOf_le hne

/-- The word and name of a namespace are read. -/
private theorem sat_namespaceHead {start : Nat} {k t : Token} {ns rest : List Token} {name : String}
    {span : Span} {n : Nat} {Q : NamespaceDecl → Cursor → Prop} {E : Cursor → Prop}
    (word : k.kind = .kwNamespace) (first : t.kind = .ident)
    (dotted : DottedForm (identName t.text) t.span ns rest name span) (hc : c.Ready)
    (ha : c.ahead = k :: t :: (ns ++ rest))
    (hg : ∀ d, d.Ready → d.ahead = rest → c.Took (k :: t :: ns) d → Sat (do
      let fileScoped ← eat .semi
      if fileScoped then spaceBody start n name span fileScoped
      else do
        let _ ← expect .lbrace .openingBrace
        spaceBody start n name span fileScoped) d Q E) :
    Sat (namespaceWith start (n + 1)) c Q E := by
  rw [namespaceWith_succ]
  refine sat_expect_bind hc ha word fun d hd had hk => ?_
  refine sat_expect_bind hd had first fun e he hae ht => ?_
  refine sat_bind.2 (sat_get.2 ?_)
  have hplaced := hd.placed
  rw [had] at hplaced
  have hlt := hplaced.2.1
  have hprev : e.prevEnd = t.span.stop := ht.prevEnd
  have hlen : ns.length ≤ e.ahead.length := by
    rw [hae, List.length_append]
    omega
  refine (parses_dottedTail dotted he hae (by omega) (by omega) hlen).sat_bind he hae ?_
  intro f hf haf hns
  exact hg f hf haf (hk.trans (ht.trans hns))

mutual

theorem satM_membersWith {source : String} {ts rest : List Token} {us : List UsingDirective}
    {ms : List Member} {is : List Ident} {n : Nat} {c : Cursor} (hc : c.Ready)
    (hsource : c.source = source) (ha : c.ahead = ts ++ rest) (hn : ts.length < n) :
    MembersForm (·.text source) ts rest us ms is →
    SatM (membersWith n) c fun r d => r = (us, ms) ∧ c.Moved ts is [] d
  | .done stop => by
    obtain ⟨n, rfl⟩ : ∃ m, n = m + 1 := ⟨n - 1, by omega⟩
    have hk := kind_of_ahead hc ha
    rw [membersWith]
    refine satM_bind.2 (satM_get.2 ?_)
    rcases stop with h | h
    · simp only [hk.trans h]
      exact ⟨rfl, Moved.refl c⟩
    · simp only [hk.trans h]
      exact ⟨rfl, Moved.refl c⟩
  | @MembersForm.semi _ s ts _ _ _ _ semi tail => by
    obtain ⟨n, rfl⟩ : ∃ m, n = m + 1 := ⟨n - 1, by omega⟩
    have ha' : c.ahead = s :: (ts ++ rest) := ha
    obtain ⟨hb, hab, htook⟩ := bump_of_ahead hc ha'
    have hids : idents [s] = [] := idents_eq_nil (by simp [semi])
    rw [membersWith]
    refine satM_bind.2 (satM_get.2 ?_)
    simp only [(kind_of_ahead hc ha').trans semi]
    refine satM_bind.2 (satM_set.2 ?_)
    refine SatM.mono (satM_membersWith hb (htook.source.trans hsource) hab (by simpa using hn) tail) ?_
    rintro r d ⟨rfl, hts⟩
    have hall := Moved.trans htook hts
    rw [hids] at hall
    exact ⟨rfl, hall⟩
  | @MembersForm.using _ ts vs _ u us ms is directive tail => by
    obtain ⟨n, rfl⟩ : ∃ m, n = m + 1 := ⟨n - 1, by omega⟩
    rw [List.append_assoc] at ha
    obtain ⟨hne, hat, h1, h2, h3⟩ := UsingForm.at directive
    have hpos := List.length_pos_iff.2 hne
    rw [List.length_append] at hn
    have hk := kind_of_ahead hc ha
    rw [← hk] at h1 h2 h3
    rw [← ha, ← usingAt_iff hc] at hat
    have directive' : UsingForm (·.text c.source) ts (vs ++ rest) u := by
      rw [hsource]
      exact directive
    rw [membersWith]
    refine satM_bind.2 (satM_get.2 ?_)
    split
    · next h => exact absurd h h2
    · next h => exact absurd h h1
    · next h => exact absurd h h3
    · rw [if_pos hat]
      refine satM_bind.2 (satM_run.2 ((parses_usingDirective hc directive' ha).sat ?_))
      intro d hts
      have hd := hts.ready hc
      refine satM_bind.2 (SatM.mono (satM_membersWith hd (hts.source.trans hsource) (Took.ahead_eq hts ha)
        (by omega) tail) ?_)
      rintro r e ⟨rfl, hvs⟩
      exact ⟨rfl, Moved.trans hts hvs⟩
  | @MembersForm.external _ ts vs _ us ms is start form tail => by
    obtain ⟨n, rfl⟩ : ∃ m, n = m + 1 := ⟨n - 1, by omega⟩
    rw [List.append_assoc] at ha
    have hkind : kindAt (ts ++ (vs ++ rest)) 0 = .modifier := by
      obtain ⟨⟨t, ht, hk, -⟩, -⟩ := start
      cases hts : ts ++ (vs ++ rest) with
      | nil => simp [hts] at ht
      | cons u us =>
        rw [hts] at ht
        obtain rfl : u = t := by simpa using ht
        exact hk
    have hne := form.ne_nil ⟨by simp [hkind], by simp [hkind], by simp [hkind]⟩
    have hpos := List.length_pos_iff.2 hne
    rw [List.length_append] at hn
    have hk := (kind_of_ahead hc ha).trans hkind
    have husing : ¬ (c.kind = .kwUsing ∨ (c.atWord "global" = true ∧ c.peek 1 = .kwUsing)) := by
      rintro (h | ⟨h, -⟩)
      · simp [hk] at h
      · simp [atWord, hk] at h
    have hextern := (externAt_iff hc).2 (ha ▸ start)
    have hts := took_skipStatement_of_form form ha
    rw [membersWith]
    refine satM_bind.2 (satM_get.2 ?_)
    simp only [hk] at husing hextern ⊢
    rw [if_neg husing, if_pos hextern]
    refine satM_bind.2 (satM_set.2 (SatM.mono (satM_membersWith (hts.ready hc)
      (hts.source.trans hsource) (Took.ahead_eq hts ha) (by omega) tail) ?_))
    rintro r e ⟨rfl, hvs⟩
    exact ⟨rfl, Moved.trans hts hvs⟩
  | @MembersForm.member _ ts vs _ m us ms js is start member tail => by
    obtain ⟨n, rfl⟩ : ∃ m, n = m + 1 := ⟨n - 1, by omega⟩
    rw [List.append_assoc] at ha
    have hpos := List.length_pos_iff.2 (FileMemberForm.ne_nil member)
    rw [List.length_append] at hn
    obtain ⟨⟨h1, h2, h3⟩, husing, hextern⟩ := start
    rw [← kind_of_ahead hc ha] at h1 h2 h3
    rw [← ha, ← usingAt_iff hc] at husing
    rw [← ha, ← externAt_iff hc] at hextern
    have hmember := parsesAs_memberWith (n := n) hc hsource ha (by omega) member
    rw [membersWith]
    refine satM_bind.2 (satM_get.2 ?_)
    split
    · next h => exact absurd h h2
    · next h => exact absurd h h1
    · next h => exact absurd h h3
    · rw [if_neg husing, if_neg hextern]
      refine satM_bind.2 (satM_run.2 (Sat.mono hmember ?_ fun _ h => h.elim))
      rintro r d ⟨rfl, hts⟩
      have hrest := satM_membersWith (n := n) (hts.ready hc) (hts.source.trans hsource)
        (Moved.ahead_eq hts ha) (by omega) tail
      cases r with
      | none =>
        refine SatM.mono hrest ?_
        rintro r e ⟨rfl, hvs⟩
        exact ⟨rfl, Moved.trans hts hvs⟩
      | some m =>
        refine satM_bind.2 (SatM.mono hrest ?_)
        rintro r e ⟨rfl, hvs⟩
        exact ⟨rfl, Moved.trans hts hvs⟩

theorem parsesAs_memberWith {source : String} {ts rest : List Token} {m : Option Member}
    {is : List Ident} {n : Nat} {c : Cursor} (hc : c.Ready) (hsource : c.source = source)
    (ha : c.ahead = ts ++ rest) (hn : ts.length ≤ n) :
    FileMemberForm (·.text source) ts rest m is → ParsesAs (memberWith n) c ts is m
  | @FileMemberForm.type _ as ms ds _ attributes d attributesForm modifiers decl => by
    have hne : as ++ (ms ++ ds) ≠ [] := by simp [decl.ne_nil]
    have hpos := List.length_pos_iff.2 hne
    obtain ⟨n, rfl⟩ : ∃ m, n = m + 1 := ⟨n - 1, by omega⟩
    have ha' : c.ahead = as ++ (ms ++ (ds ++ rest)) := by simpa using ha
    have hstart : startOf (as ++ (ms ++ ds)) ≤ startOf ds := by
      rw [← List.append_assoc] at ha ⊢
      exact startOf_le_of_ahead hc ha decl.ne_nil
    simp only [List.length_append] at hn
    rw [memberWith]
    refine sat_bind.2 (sat_get.2 ?_)
    refine sat_front attributesForm modifiers hc ha' fun e he hae htook => ?_
    have hat : atTypeDecl e = true := by
      rw [atTypeDecl_iff he, hae]
      exact decl.typeAt
    refine sat_bind.2 (sat_get.2 ?_)
    rw [if_pos hat, current_start_of_ahead ha hne]
    refine (parsesAs_typeDeclWith he hae hstart (by omega) decl).sat_bind he hae ?_
    intro f _ _ hds
    refine ⟨rfl, ?_⟩
    simpa using Moved.trans htook hds
  | @FileMemberForm.space _ as ms ns _ attributes space is attributesForm modifiers form => by
    have hspace := SpaceForm.word form
    have hne : as ++ (ms ++ ns) ≠ [] := by simp [hspace.1]
    have hpos := List.length_pos_iff.2 hne
    obtain ⟨n, rfl⟩ : ∃ m, n = m + 1 := ⟨n - 1, by omega⟩
    have ha' : c.ahead = as ++ (ms ++ (ns ++ rest)) := by simpa using ha
    have hstart : startOf (as ++ (ms ++ ns)) ≤ startOf ns := by
      rw [← List.append_assoc] at ha ⊢
      exact startOf_le_of_ahead hc ha hspace.1
    simp only [List.length_append] at hn
    rw [memberWith]
    refine sat_bind.2 (sat_get.2 ?_)
    refine sat_front attributesForm modifiers hc ha' fun e he hae htook => ?_
    have hk := (kind_of_ahead he hae).trans hspace.2
    have hno := kindAt_ne_of_not_typeAt he hk (by simp)
    refine sat_bind.2 (sat_get.2 ?_)
    rw [if_neg hno, current_start_of_ahead ha hne]
    simp only [hk]
    refine (parsesAs_namespaceWith he (htook.source.trans hsource) hae hstart (by omega)
      form).sat_bind he hae ?_
    intro f _ _ hns
    refine ⟨rfl, ?_⟩
    simpa using Moved.trans htook hns
  | @FileMemberForm.enum _ as ms es _ attributes attributesForm modifiers enum => by
    have hword : kindAt (es ++ rest) 0 = .kwEnum := by
      cases enum with
      | mk word _ _ _ _ => exact word
    have hpos : 0 < (as ++ (ms ++ es)).length := by
      cases enum
      simp only [List.length_append, List.length_cons]
      omega
    obtain ⟨n, rfl⟩ : ∃ m, n = m + 1 := ⟨n - 1, by omega⟩
    have ha' : c.ahead = as ++ (ms ++ (es ++ rest)) := by simpa using ha
    rw [memberWith]
    refine sat_bind.2 (sat_get.2 ?_)
    refine sat_front attributesForm modifiers hc ha' fun e he hae htook => ?_
    have hk := (kind_of_ahead he hae).trans hword
    have hno := kindAt_ne_of_not_typeAt he hk (by simp)
    refine sat_bind.2 (sat_get.2 ?_)
    rw [if_neg hno]
    simp only [hk]
    refine (parses_skipEnum enum he hae).sat_bind he hae fun f _ _ hes => ⟨rfl, ?_⟩
    have hall := htook.trans hes
    rwa [List.append_assoc] at hall
  | @FileMemberForm.delegate _ as ms ds _ attributes attributesForm modifiers word form => by
    have hne := form.ne_nil ⟨by simp [word], by simp [word], by simp [word]⟩
    have hpos := List.length_pos_iff.2 hne
    simp only [List.length_append] at hn
    obtain ⟨n, rfl⟩ : ∃ m, n = m + 1 := ⟨n - 1, by omega⟩
    have ha' : c.ahead = as ++ (ms ++ (ds ++ rest)) := by simpa using ha
    rw [memberWith]
    refine sat_bind.2 (sat_get.2 ?_)
    refine sat_front attributesForm modifiers hc ha' fun e he hae htook => ?_
    have hk := (kind_of_ahead he hae).trans word
    have hno := kindAt_ne_of_not_typeAt he hk (by simp)
    refine sat_bind.2 (sat_get.2 ?_)
    rw [if_neg hno]
    simp only [hk]
    refine ⟨rfl, ?_⟩
    simpa using Moved.trans htook (moved_skipDelegate_of_form form hae)
  | @FileMemberForm.attributes _ as _ attributes attributesForm noModifiers stop hsome targets => by
    have hpos : 0 < as.length := by
      cases attributesForm with
      | none _ => exact absurd rfl hsome
      | cons _ _ _ _ _ => simp
    obtain ⟨n, rfl⟩ : ∃ m, n = m + 1 := ⟨n - 1, by omega⟩
    have htargets : (!attributes.isEmpty && [].isEmpty (α := String) &&
        attributes.all (·.target.isSome)) = true := by
      simpa [hsome] using targets
    rw [memberWith]
    refine sat_bind.2 (sat_get.2 ?_)
    refine sat_front attributesForm noModifiers hc ha fun e he hae htook => ?_
    obtain ⟨noType, noSpace, noEnum, noDelegate⟩ := stop
    rw [← kind_of_ahead he hae] at noSpace noEnum noDelegate
    rw [← hae, ← atTypeDecl_iff he] at noType
    refine sat_bind.2 (sat_get.2 ?_)
    rw [if_neg noType]
    split
    · next h => exact absurd h noSpace
    · next h => exact absurd h noEnum
    · next h => exact absurd h noDelegate
    · rw [List.map_nil, if_pos htargets]
      rw [List.append_nil] at htook
      exact ⟨rfl, htook⟩

theorem parsesAs_namespaceWith {source : String} {start : Nat} {ts rest : List Token}
    {space : NamespaceDecl} {is : List Ident} {n : Nat} {c : Cursor} (hc : c.Ready)
    (hsource : c.source = source) (ha : c.ahead = ts ++ rest) (hstart : start ≤ startOf ts)
    (hn : ts.length ≤ n + 1) :
    SpaceForm (·.text source) start ts rest space is → ParsesAs (namespaceWith start n) c ts is space
  | @SpaceForm.file _ _ k t s ns ts _ name span us ms is word first dotted semi members => by
    have ha' : c.ahead = k :: t :: (ns ++ s :: (ts ++ rest)) := by simpa using ha
    simp only [List.length_append, List.length_cons] at hn
    obtain ⟨n, rfl⟩ : ∃ m, n = m + 1 := ⟨n - 1, by omega⟩
    refine sat_namespaceHead word first dotted hc ha' fun d hd had hhead => ?_
    have hk := (kind_of_ahead hd had).trans semi
    obtain ⟨hb, hab, hbump⟩ := bump_of_ahead hd had
    refine sat_bind.2 (sat_eat.2 ?_)
    rw [if_pos hk]
    refine sat_bind.2 (sat_get.2 (sat_bind.2 (sat_liftM.2 ?_)))
    refine SatM.mono (satM_membersWith hb ((hhead.trans hbump).source.trans hsource) hab (by omega)
      members) ?_
    rintro r e ⟨rfl, hts⟩
    have hids : idents [s] = [] := idents_eq_nil (by simp [semi])
    have hall := Moved.trans hhead (Moved.trans hbump hts)
    rw [hids, idents_cons_of_ne (by simp [word])] at hall
    have hmoved : c.Moved (k :: t :: (ns ++ s :: ts)) (idents (t :: ns) ++ is) [] e := by
      simpa using hall
    have hspan := spanFrom_eq hc hmoved (by simp) hstart
    refine sat_bind.2 (sat_spanFrom.2 (sat_pure.2 ⟨?_, hmoved⟩))
    rw [hspan, hbump.prevEnd]
    simp
  | @SpaceForm.braces _ _ k t o b ns ts ss _ name span us ms is word first dotted opener members
      closer semi => by
    have ha' : c.ahead = k :: t :: (ns ++ o :: (ts ++ b :: (ss ++ rest))) := by simpa using ha
    simp only [List.length_append, List.length_cons] at hn
    obtain ⟨n, rfl⟩ : ∃ m, n = m + 1 := ⟨n - 1, by omega⟩
    refine sat_namespaceHead word first dotted hc ha' fun d hd had hhead => ?_
    have hk := (kind_of_ahead hd had).trans opener
    have hnosemi : d.kind ≠ .semi := by simp [hk]
    refine sat_bind.2 (sat_eat.2 ?_)
    rw [if_neg hnosemi]
    refine sat_expect_bind hd had opener fun f hf haf hopen => ?_
    refine sat_bind.2 (sat_get.2 (sat_bind.2 (sat_liftM.2 ?_)))
    refine SatM.mono (satM_membersWith hf ((hhead.trans hopen).source.trans hsource) haf (by omega)
      members) ?_
    rintro r e ⟨rfl, hts⟩
    have he := hts.ready hf
    have hae := Moved.ahead_eq hts haf
    refine (parses_closeBody closer semi he hae).sat_bind he hae fun g _ _ hclose => ?_
    have ho : idents [o] = [] := idents_eq_nil (by simp [opener])
    have hb : idents (b :: ss) = [] := by
      apply idents_eq_nil
      intro t ht
      rcases List.mem_cons.1 ht with rfl | ht
      · simp [closer]
      · simp [semi.kind_eq t ht]
    have hall := Moved.trans hhead (Moved.trans hopen (Moved.trans hts hclose))
    rw [ho, hb, idents_cons_of_ne (by simp [word])] at hall
    have hmoved : c.Moved (k :: t :: (ns ++ o :: (ts ++ b :: ss))) (idents (t :: ns) ++ is) [] g := by
      simpa using hall
    have hspan := spanFrom_eq hc hmoved (by simp) hstart
    refine sat_bind.2 (sat_spanFrom.2 (sat_pure.2 ⟨?_, hmoved⟩))
    rw [hspan, hopen.prevEnd]
    simp

end

/-! ## Whole files -/

/-- A text whose tokens spell a file, and none of whose tokens is an error, is read as what they
spell. -/
theorem read_of_membersForm {source : String} {us : List UsingDirective} {ms : List Member}
    {is : List Ident} (herror : ∀ t ∈ (ofSource source).ahead, t.kind ≠ .error)
    (h : MembersForm (·.text source) (ofSource source).ahead [] us ms is) (file : FileId) :
    SyntaxTree.read file source = ⟨⟨file, us, ms⟩, []⟩ := by
  have hc := ready_ofSource source
  have ha : (ofSource source).ahead = (ofSource source).ahead ++ [] := (List.append_nil _).symm
  have hmembers := satM_membersWith (n := declarationFuel (ofSource source).ahead.length) hc rfl ha
    (by rw [declarationFuel]; omega) h
  have hfile : SatM (fileMembers (declarationFuel (ofSource source).ahead.length)
      ((ofSource source).ahead.length + 1)) (ofSource source) fun r d => r = (us, ms) ∧
        (ofSource source).Moved (ofSource source).ahead is [] d := by
    rw [fileMembers]
    refine satM_bind.2 (SatM.mono hmembers ?_)
    rintro r d ⟨rfl, hd⟩
    have hk : d.kind ≠ .rbrace := by
      rw [kind_of_ahead (hd.ready hc) (Moved.ahead_eq hd ha)]
      simp
    refine satM_bind.2 (satM_get.2 ?_)
    rw [if_neg hk]
    exact ⟨rfl, hd⟩
  have herrors : (ofSource source).errors = [] := by
    show (((ofSource source).ahead.filterMap fun t =>
      if t.kind = .error then some (.invalidToken t.text t.span) else none).reverse) =
        ([] : List ParseError)
    rw [List.reverse_eq_nil_iff, List.filterMap_eq_nil_iff]
    intro t ht
    rw [if_neg (herror t ht)]
  obtain ⟨hresult, hmoved⟩ := hfile
  have hfinal := hmoved.errors
  rw [herrors] at hfinal
  clear hmoved
  unfold SyntaxTree.read
  dsimp only
  generalize (fileMembers (declarationFuel (ofSource source).ahead.length)
    ((ofSource source).ahead.length + 1)).run (ofSource source) = r at hresult hfinal ⊢
  obtain ⟨⟨us', ms'⟩, d⟩ := r
  obtain ⟨rfl, rfl⟩ := Prod.mk.inj hresult
  dsimp only at hfinal ⊢
  rw [hfinal]
  rfl

end SelfTypeLint.Read
