import SelfTypeLint.Proofs.Reader.DeclarationsSound
import SelfTypeLint.Proofs.Reader.HeaderComplete

/-!
# Declarations of the grammar are read
-/

namespace SelfTypeLint.Read

open Cursor Token Grammar

variable {c : Cursor}

theorem Moved.ahead_eq {d : Cursor} {ts rest : List Token} {is : List Ident}
    {es : List ParseError} (h : c.Moved ts is es d) (ha : c.ahead = ts ++ rest) : d.ahead = rest :=
  List.append_cancel_left (h.ahead.symm.trans ha)

/-! ## Skipped members -/

theorem took_skipMember_of_form {ts rest : List Token} (h : PlainForm ts rest)
    (ha : c.ahead = ts ++ rest) : c.Took ts c.skipMember := by
  rw [skipMember, ha, show memberLength 0 (ts ++ rest) = ts.length from h]
  exact took_advance ha

theorem took_skipStatement_of_form {ts rest : List Token} (h : StatementForm ts rest)
    (ha : c.ahead = ts ++ rest) : c.Took ts c.skipStatement := by
  rw [skipStatement, ha, show statementLength 0 (ts ++ rest) = ts.length from h]
  exact took_advance ha

theorem moved_skipDelegate_of_form {ts rest : List Token} (h : StatementForm ts rest)
    (ha : c.ahead = ts ++ rest) : c.Moved ts [] [] c.skipDelegate := by
  have htook := took_skipStatement_of_form h ha
  exact ⟨htook.source, htook.eof, htook.ahead, htook.prevEnd, rfl, htook.errors⟩

theorem parses_skipEnum {ts rest : List Token} (h : EnumForm ts rest) (hc : c.Ready)
    (ha : c.ahead = ts ++ rest) : Parses skipEnum c ts () := by
  cases h with
  | @mk k us gs ss _ word head stop group semi =>
    have ha' : c.ahead = k :: (us ++ (gs ++ (ss ++ rest))) := by simpa using ha
    obtain ⟨hb, hab, hbump⟩ := bump_of_ahead hc ha'
    have hus : c.bump.Took us (c.bump.skipWhile fun t => t.kind ≠ .lbrace && t.kind ≠ .semi) := by
      apply took_skipWhile_of_all hab
      · simpa using head
      · intro t ht
        rcases stop t ht with h | h <;> simp [h]
    refine sat_bind.2 (sat_modify.2 (sat_bind.2 (sat_modify.2 (sat_bind.2 (sat_get.2 ?_)))))
    generalize c.bump.skipWhile (fun t => t.kind ≠ .lbrace && t.kind ≠ .semi) = d at *
    have hd := hus.ready hb
    have had := Took.ahead_eq hus hab
    have hk := kind_of_ahead hd had
    cases group with
    | none stop' =>
      rw [if_neg (hk ▸ stop')]
      refine sat_modify.2 ⟨rfl, ?_⟩
      simpa using hbump.trans (hus.trans (took_eat semi hd had))
    | @group o ts _ opener group =>
      rw [if_pos (hk.trans opener)]
      refine (parses_skipBalanced (opener ▸ group) hd had).sat_bind hd had fun e he hae hgs => ?_
      refine sat_modify.2 ⟨rfl, ?_⟩
      simpa using hbump.trans (hus.trans (hgs.trans (took_eat semi he hae)))

theorem parses_closeBody {k : Token} {ss rest : List Token} (hk : k.kind = .rbrace)
    (h : OptionalForm .semi ss rest) (hc : c.Ready) (ha : c.ahead = k :: (ss ++ rest)) :
    Parses closeBody c (k :: ss) () := by
  obtain ⟨hb, hab, hbump⟩ := bump_of_ahead hc ha
  refine sat_bind.2 (sat_get.2 ?_)
  rw [if_pos ((kind_of_ahead hc ha).trans hk)]
  exact ⟨rfl, hbump.trans (took_eat h hb hab)⟩

/-! ## Types and their bodies -/

/-- Holds of a step that consumes some tokens, records some identifiers and gives a value. -/
def ParsesAs {α : Type} (f : Read α) (c : Cursor) (ts : List Token) (is : List Ident) (a : α) : Prop :=
  Sat f c (fun b d => b = a ∧ c.Moved ts is [] d) fun _ => False

theorem ParsesAs.sat_bind {α β : Type} {f : Read β} {g : β → Read α} {ts rest : List Token}
    {is : List Ident} {b : β} {Q : α → Cursor → Prop} {E : Cursor → Prop}
    (h : ParsesAs f c ts is b) (hc : c.Ready) (ha : c.ahead = ts ++ rest)
    (hg : ∀ d, d.Ready → d.ahead = rest → c.Moved ts is [] d → Sat (g b) d Q E) :
    Sat (f >>= g) c Q E := by
  refine Read.sat_bind.2 (Sat.mono h ?_ fun _ h => h.elim)
  rintro b d ⟨rfl, hd⟩
  exact hg d (hd.ready hc) (Moved.ahead_eq hd ha) hd

/-- The attributes and modifiers in front of a member are read. -/
theorem sat_front {α : Type} {g : List AttributeList → List String → Read α}
    {as ms rest : List Token} {attributes : List AttributeList} {Q : α → Cursor → Prop}
    {E : Cursor → Prop} (has : AttributeListsForm as (ms ++ rest) attributes)
    (hms : ModifiersForm ms rest) (hc : c.Ready) (ha : c.ahead = as ++ (ms ++ rest))
    (hg : ∀ d, d.Ready → d.ahead = rest → c.Took (as ++ ms) d →
      Sat (g attributes (ms.map (·.text))) d Q E) :
    Sat (do
      let attributes ← attributeLists
      let words ← modifiers
      g attributes words) c Q E := by
  refine (parses_attributeLists has hc ha).sat_bind hc ha fun d hd had htook => ?_
  refine (parses_modifiers hms had).sat_bind hd had fun e he hae htook' => ?_
  exact hg e he hae (htook.trans htook')

/-- A member of a body that is no type is passed over. -/
theorem parsesAs_otherMember {as ms us rest : List Token} {attributes : List AttributeList}
    {js : List Ident} (hmember : MemberAt (as ++ (ms ++ (us ++ rest))))
    (has : AttributeListsForm as (ms ++ (us ++ rest)) attributes)
    (hms : ModifiersForm ms (us ++ rest)) (h : OtherForm us rest js) (hc : c.Ready)
    (ha : c.ahead = as ++ (ms ++ (us ++ rest))) {n : Nat}
    (hn : (as ++ (ms ++ us)).length ≤ n) :
    ParsesAs (bodyMemberWith n) c (as ++ (ms ++ us)) (idents (as ++ ms) ++ js) none := by
  have hne : 0 < (as ++ (ms ++ us)).length := by
    apply List.length_pos_iff.2
    intro hnil
    simp only [List.append_eq_nil_iff] at hnil
    obtain ⟨rfl, rfl, rfl⟩ := hnil
    exact h.ne_nil hmember rfl
  obtain ⟨n, rfl⟩ : ∃ m, n = m + 1 := ⟨n - 1, by omega⟩
  rw [bodyMemberWith]
  refine sat_bind.2 (sat_get.2 ?_)
  refine sat_front has hms hc ha fun d hd had htook => ?_
  have hk := kind_of_ahead hd had
  have hmoved : ∀ e, d.Moved us js [] e →
      c.Moved (as ++ (ms ++ us)) (idents (as ++ ms) ++ js) [] e := by
    intro e he
    simpa using Moved.trans htook he
  refine sat_bind.2 (sat_get.2 ?_)
  cases h with
  | enum form =>
    have henum : d.kind = .kwEnum := by
      rw [hk]
      cases form with
      | mk word _ _ _ _ => exact word
    have hno : ¬ atTypeDecl d = true := by
      rw [atTypeDecl_iff hd, had]
      intro h
      rcases kindAt_of_typeAt h with h | h | h | h <;> simp [← hk, henum] at h
    rw [if_neg hno]
    simp only [henum]
    refine (parses_skipEnum form hd had).sat_bind hd had fun e _ _ he => ?_
    exact ⟨rfl, hmoved e he⟩
  | delegate word form =>
    have hdelegate : d.kind = .kwDelegate := hk.trans word
    have hno : ¬ atTypeDecl d = true := by
      rw [atTypeDecl_iff hd, had]
      intro h
      rcases kindAt_of_typeAt h with h | h | h | h <;> simp [← hk, hdelegate] at h
    rw [if_neg hno]
    simp only [hdelegate]
    exact ⟨rfl, hmoved _ (moved_skipDelegate_of_form form had)⟩
  | plain noType noEnum noDelegate form =>
    have hno : ¬ atTypeDecl d = true := by
      rw [atTypeDecl_iff hd, had]
      exact noType
    rw [if_neg hno]
    split
    · next he => exact absurd (hk ▸ he) noEnum
    · next he => exact absurd (hk ▸ he) noDelegate
    · exact ⟨rfl, hmoved _ (took_skipMember_of_form form had)⟩

mutual

theorem parsesAs_typeDeclWith {start : Nat} {attributes : List AttributeList}
    {modifiers : List String} {ts rest : List Token} {d : TypeDecl} {n : Nat} {c : Cursor}
    (hc : c.Ready) (ha : c.ahead = ts ++ rest) (hstart : start ≤ startOf ts)
    (hn : ts.length ≤ n + 1) : DeclForm start attributes modifiers ts rest d →
    ParsesAs (typeDeclWith start attributes modifiers n) c ts [] d
  | @DeclForm.mk _ _ _ hs bs _ header nested is head block => by
    have h2 := head.two_le_length
    rw [List.length_append] at hn
    have hpos := List.length_pos_iff.2 block.ne_nil
    obtain ⟨n, rfl⟩ : ∃ m, n = m + 1 := ⟨n - 1, by omega⟩
    have hc' : Ready { c with idents := [] } := ⟨hc.eof, hc.ahead, hc.placed⟩
    rw [List.append_assoc] at ha
    rw [typeDeclWith_succ]
    refine Read.sat_bind.2 (sat_collecting ?_)
    refine sat_withHead_of_form head hc' ha fun e t he hae hhs hname => ?_
    refine sat_withBlock_of_form he hae (by omega) (fun f hf haf hbs => ?_) block
    obtain ⟨hids, hmoved⟩ := moved_outer (Moved.trans hhs hbs)
    have hne := block.ne_nil
    have hle : start ≤ f.prevEnd := Nat.le_trans hstart (hmoved.startOf_le hc (by simp [hne]))
    have hspan : f.spanFrom start = ⟨start, stopOf 0 bs⟩ := by
      rw [spanFrom_of_le hle, hbs.prevEnd, stopOf_of_ne_nil hne e.prevEnd 0]
    simp only [Read.sat_bind, sat_spanFrom, sat_pure, hspan, hids, ← hname]
    exact ⟨rfl, hmoved⟩

theorem sat_withBlock_of_form {α : Type} {ts rest : List Token} {nested : List TypeDecl}
    {is : List Ident} {n : Nat} {c : Cursor} {g : List TypeDecl → Read α}
    {Q : α → Cursor → Prop} {E : Cursor → Prop} (hc : c.Ready) (ha : c.ahead = ts ++ rest)
    (hn : ts.length ≤ n) (hg : ∀ d, d.Ready → d.ahead = rest → c.Moved ts is [] d →
      Sat (g nested) d Q E) : BlockForm ts rest nested is → Sat (withBlock n g) c Q E
  | @BlockForm.semi s _ semi => by
    obtain ⟨hb, hab, htook⟩ := bump_of_ahead hc ha
    have hids : idents [s] = [] := idents_eq_nil (by simp [semi])
    refine Read.sat_bind.2 (sat_get.2 ?_)
    simp only [(kind_of_ahead hc ha).trans semi]
    refine Read.sat_bind.2 (sat_set.2 (hg _ hb hab ?_))
    rw [← hids]
    exact htook
  | @BlockForm.braces o k ts ss _ _ _ opener body closer semi => by
    have ha' : c.ahead = o :: (ts ++ k :: (ss ++ rest)) := by simpa using ha
    obtain ⟨hb, hab, htook⟩ := bump_of_ahead hc ha'
    simp only [List.length_append, List.length_cons] at hn
    refine Read.sat_bind.2 (sat_get.2 ?_)
    simp only [(kind_of_ahead hc ha').trans opener]
    refine Read.sat_bind.2 (sat_set.2 (Read.sat_bind.2 (sat_liftM.2 ?_)))
    refine SatM.mono (satM_bodyWith hb hab (by omega) body) ?_
    rintro r d ⟨rfl, hts⟩
    have hd := hts.ready hb
    have had := Moved.ahead_eq hts hab
    refine (parses_closeBody closer semi hd had).sat_bind hd had fun e he hae hclose => ?_
    refine hg e he hae ?_
    have ho : idents [o] = [] := idents_eq_nil (by simp [opener])
    have hk : idents (k :: ss) = [] := by
      apply idents_eq_nil
      intro t ht
      rcases List.mem_cons.1 ht with rfl | ht
      · simp [closer]
      · simp [semi.kind_eq t ht]
    have hall := Moved.trans htook (Moved.trans hts hclose)
    rw [ho, hk] at hall
    simpa using hall

theorem satM_bodyWith {ts rest : List Token} {nested : List TypeDecl} {is : List Ident} {n : Nat}
    {c : Cursor} (hc : c.Ready) (ha : c.ahead = ts ++ rest) (hn : ts.length < n) :
    BodyForm ts rest nested is →
    SatM (bodyWith n) c fun r d => r = nested ∧ c.Moved ts is [] d
  | .done stop => by
    obtain ⟨n, rfl⟩ : ∃ m, n = m + 1 := ⟨n - 1, by omega⟩
    have hk := kind_of_ahead hc ha
    rw [bodyWith]
    refine satM_bind.2 (satM_get.2 ?_)
    rcases stop with h | h
    · simp only [hk.trans h]
      exact ⟨rfl, Moved.refl c⟩
    · simp only [hk.trans h]
      exact ⟨rfl, Moved.refl c⟩
  | @BodyForm.semi s ts _ _ _ semi tail => by
    obtain ⟨n, rfl⟩ : ∃ m, n = m + 1 := ⟨n - 1, by omega⟩
    have ha' : c.ahead = s :: (ts ++ rest) := ha
    obtain ⟨hb, hab, htook⟩ := bump_of_ahead hc ha'
    have hids : idents [s] = [] := idents_eq_nil (by simp [semi])
    rw [bodyWith]
    refine satM_bind.2 (satM_get.2 ?_)
    simp only [(kind_of_ahead hc ha').trans semi]
    refine satM_bind.2 (satM_set.2 ?_)
    refine SatM.mono (satM_bodyWith hb hab (by simpa using hn) tail) ?_
    rintro r d ⟨rfl, hts⟩
    have hall := Moved.trans htook hts
    rw [hids] at hall
    exact ⟨rfl, hall⟩
  | @BodyForm.type as ms ds ts _ attributes d nested is start attributesForm modifiers decl tail => by
    obtain ⟨n, rfl⟩ : ∃ m, n = m + 1 := ⟨n - 1, by omega⟩
    have ha' : c.ahead = as ++ (ms ++ (ds ++ (ts ++ rest))) := by simpa using ha
    have hpos := List.length_pos_iff.2 decl.ne_nil
    simp only [List.length_append] at hn
    have hmember : ParsesAs (bodyMemberWith n) c (as ++ (ms ++ ds)) (idents (as ++ ms)) (some d) := by
      obtain ⟨n, rfl⟩ : ∃ m, n = m + 1 := ⟨n - 1, by omega⟩
      rw [bodyMemberWith]
      refine Read.sat_bind.2 (sat_get.2 ?_)
      refine sat_front attributesForm modifiers hc ha' fun e he hae htook => ?_
      have hne : as ++ (ms ++ ds) ≠ [] := by simp [decl.ne_nil]
      have hcur : c.current.span.start = startOf (as ++ (ms ++ ds)) := by
        have hsplit : c.ahead = (as ++ (ms ++ ds)) ++ (ts ++ rest) := by simpa using ha'
        rw [current_start_eq (by rw [hsplit]; simp [decl.ne_nil]), hsplit, startOf_append hne]
      have hat : atTypeDecl e = true := by
        rw [atTypeDecl_iff he, hae]
        exact decl.typeAt
      have hle : startOf (as ++ (ms ++ ds)) ≤ startOf ds := by
        have hplaced := hc.placed
        rw [show c.ahead = (as ++ (ms ++ ds)) ++ (ts ++ rest) by simpa using ha'] at hplaced
        have := hplaced.append_left
        rw [← List.append_assoc] at this ⊢
        exact this.startOf_le decl.ne_nil
      refine Read.sat_bind.2 (sat_get.2 ?_)
      rw [if_pos hat, hcur]
      refine (parsesAs_typeDeclWith he hae hle (by omega) decl).sat_bind he hae ?_
      intro f hf haf hds
      refine ⟨rfl, ?_⟩
      simpa using Moved.trans htook hds
    rw [bodyWith]
    refine satM_bind.2 (satM_get.2 ?_)
    have hk := kind_of_ahead hc ha'
    obtain ⟨h1, h2, h3⟩ := start
    rw [← hk] at h1 h2 h3
    split
    · next h => exact absurd h h1
    · next h => exact absurd h h2
    · next h => exact absurd h h3
    · refine satM_bind.2 (satM_run.2 (Sat.mono hmember ?_ fun _ h => h.elim))
      rintro r e ⟨rfl, hmoved⟩
      have he := hmoved.ready hc
      have hae := Moved.ahead_eq hmoved (show c.ahead = as ++ (ms ++ ds) ++ (ts ++ rest) by
        simpa using ha')
      refine satM_bind.2 (SatM.mono (satM_bodyWith he hae (by omega) tail) ?_)
      rintro r f ⟨rfl, hts⟩
      refine satM_pure.2 ⟨rfl, ?_⟩
      simpa using Moved.trans hmoved hts
  | @BodyForm.other as ms us ts _ attributes nested js is start attributesForm modifiers member
      tail => by
    obtain ⟨n, rfl⟩ : ∃ m, n = m + 1 := ⟨n - 1, by omega⟩
    have ha' : c.ahead = as ++ (ms ++ (us ++ (ts ++ rest))) := by simpa using ha
    have hne : as ++ (ms ++ us) ≠ [] := by
      intro hnil
      simp only [List.append_eq_nil_iff] at hnil
      obtain ⟨rfl, rfl, rfl⟩ := hnil
      exact member.ne_nil start rfl
    have hpos := List.length_pos_iff.2 hne
    simp only [List.length_append] at hn hpos
    have hmember := parsesAs_otherMember start attributesForm modifiers member hc ha' (n := n)
      (by simp only [List.length_append]; omega)
    rw [bodyWith]
    refine satM_bind.2 (satM_get.2 ?_)
    have hk := kind_of_ahead hc ha'
    obtain ⟨h1, h2, h3⟩ := start
    rw [← hk] at h1 h2 h3
    split
    · next h => exact absurd h h1
    · next h => exact absurd h h2
    · next h => exact absurd h h3
    · refine satM_bind.2 (satM_run.2 (Sat.mono hmember ?_ fun _ h => h.elim))
      rintro r e ⟨rfl, hmoved⟩
      have he := hmoved.ready hc
      have hae := Moved.ahead_eq hmoved (show c.ahead = as ++ (ms ++ us) ++ (ts ++ rest) by
        simpa using ha')
      refine SatM.mono (satM_bodyWith he hae (by omega) tail) ?_
      rintro r f ⟨rfl, hts⟩
      refine ⟨rfl, ?_⟩
      simpa using Moved.trans hmoved hts

end

end SelfTypeLint.Read
