import SelfTypeLint.Proofs.Grammar.Declarations
import SelfTypeLint.Proofs.Tree.Query

/-!
# Places of the parts of a declaration

Every span that a declaration keeps for a later edit is that of tokens of the declaration: its
identifiers and the names and variances of its parameters stand at one token each, and its base types
and their arguments at several in a row.
-/

namespace SelfTypeLint.Grammar

open Token

/-- Holds of the spans of tokens that stand in a row among others. -/
def SpanIn (ts : List Token) (s : Span) : Prop := ∃ us, us <:+: ts ∧ us ≠ [] ∧ s = spanOf us

theorem SpanIn.mono {ts us : List Token} {s : Span} (h : SpanIn ts s) (hs : ts <:+: us) :
    SpanIn us s := by
  obtain ⟨vs, hv, hne, he⟩ := h
  exact ⟨vs, hv.trans hs, hne, he⟩

theorem spanIn_of_mem {ts : List Token} {t : Token} (h : t ∈ ts) : SpanIn ts t.span := by
  obtain ⟨as, bs, rfl⟩ := List.append_of_mem h
  exact ⟨[t], ⟨as, bs, by simp⟩, by simp, rfl⟩

theorem TypeForm.spanIn {ts rest : List Token} {e : TypeExpr} (h : TypeForm ts rest e) :
    SpanIn ts e.span := by
  obtain ⟨us, vs, rfl, hne, he, -⟩ := h.covers
  exact ⟨us, (List.prefix_append us vs).isInfix, hne, he⟩

/-- Every item of a list is spelled by some of its tokens. -/
theorem ListForm.exists_infix {α : Type} {form : List Token → List Token → α → Prop}
    {ts rest : List Token} {as : List α} (h : ListForm form ts rest as) {a : α} (ha : a ∈ as) :
    ∃ us rest', us <:+: ts ∧ form us rest' a := by
  induction h with
  | @last ts rest b item _ =>
    obtain rfl := List.mem_singleton.1 ha
    exact ⟨ts, rest, List.infix_refl ts, item⟩
  | @more ts us rest c b bs item _ _ ih =>
    rcases List.mem_cons.1 ha with rfl | ha
    · exact ⟨ts, _, (List.prefix_append ts _).isInfix, item⟩
    · obtain ⟨vs, rest', hvs, hform⟩ := ih ha
      have hsuffix : us <:+: ts ++ c :: us := ⟨ts ++ [c], [], by simp⟩
      exact ⟨vs, rest', hvs.trans hsuffix, hform⟩

/-- Every type of a list is spelled by some of its tokens. -/
theorem TypeListForm.exists_infix {ts rest : List Token} {es : List TypeExpr} {a : TypeExpr}
    (ha : a ∈ es) : TypeListForm ts rest es → ∃ us rest', us <:+: ts ∧ TypeForm us rest' a
  | .last type _ => by
    obtain rfl := List.mem_singleton.1 ha
    exact ⟨ts, rest, List.infix_refl ts, type⟩
  | @TypeListForm.more ts us rest c b bs type comma tail => by
    rcases List.mem_cons.1 ha with rfl | ha
    · exact ⟨ts, _, (List.prefix_append ts _).isInfix, type⟩
    · obtain ⟨vs, rest', hvs, hform⟩ := tail.exists_infix ha
      have hsuffix : us <:+: ts ++ c :: us := ⟨ts ++ [c], [], by simp⟩
      exact ⟨vs, rest', hvs.trans hsuffix, hform⟩

/-- Every argument of a word is spelled by some of its tokens. -/
theorem SegmentForm.exists_infix {ts rest : List Token} {s : NameSegment TypeExpr}
    (h : SegmentForm ts rest s) {a : TypeExpr} (ha : a ∈ s.args) :
    ∃ us rest', us <:+: ts ∧ TypeForm us rest' a := by
  cases h with
  | plain _ _ => simp at ha
  | @generic t o c ts cs rest args _ _ arguments _ _ =>
    have hts : ts <:+: t :: o :: (ts ++ (cs ++ [c])) := ⟨[t, o], cs ++ [c], by simp⟩
    cases arguments with
    | none _ => simp at ha
    | some list =>
      obtain ⟨us, rest', hus, hform⟩ := list.exists_infix ha
      exact ⟨us, rest', hus.trans hts, hform⟩

/-- Every argument in a name is spelled by some of its tokens. -/
theorem SegmentsForm.exists_infix {ts rest : List Token} {ss : List (NameSegment TypeExpr)}
    {s : NameSegment TypeExpr} (hs : s ∈ ss) {a : TypeExpr} (ha : a ∈ s.args) :
    SegmentsForm ts rest ss → ∃ us rest', us <:+: ts ∧ TypeForm us rest' a
  | .last segment _ => by
    obtain rfl := List.mem_singleton.1 hs
    exact segment.exists_infix ha
  | @SegmentsForm.more ts us rest d s' ss segment dot tail => by
    rcases List.mem_cons.1 hs with rfl | hs
    · obtain ⟨vs, rest', hvs, hform⟩ := segment.exists_infix ha
      exact ⟨vs, rest', hvs.trans (List.prefix_append ts _).isInfix, hform⟩
    · obtain ⟨vs, rest', hvs, hform⟩ := tail.exists_infix hs ha
      have hsuffix : us <:+: ts ++ d :: us := ⟨ts ++ [d], [], by simp⟩
      exact ⟨vs, rest', hvs.trans hsuffix, hform⟩

/-- Suffixes leave a type as it is or make it one that is no name. -/
theorem SuffixForm.eq_or_segments_eq_nil {start : Nat} {a e : TypeExpr} {ts rest : List Token}
    (h : SuffixForm start a ts rest e) : e = a ∨ e.segments = [] := by
  induction h with
  | done _ => exact .inl rfl
  | nullable _ _ ih =>
    rcases ih with rfl | ih
    · exact .inr rfl
    · exact .inr ih
  | array _ _ _ _ ih =>
    rcases ih with rfl | ih
    · exact .inr rfl
    · exact .inr ih
  | pointer _ _ _ ih => exact ih

/-- The type arguments of a type are spelled by some of its tokens. -/
theorem TypeForm.exists_infix {ts rest : List Token} {e a : TypeExpr} (h : TypeForm ts rest e)
    (ha : a ∈ e.typeArgs) : ∃ us rest', us <:+: ts ∧ TypeForm us rest' a := by
  cases h with
  | @mk ts us rest f e atom suffixes =>
    rcases suffixes.eq_or_segments_eq_nil with rfl | hnil
    · cases atom with
      | predefined _ => simp [TypeExpr.typeArgs, TypeExpr.segments] at ha
      | tuple _ _ _ => simp [TypeExpr.typeArgs, TypeExpr.segments] at ha
      | @path qs ts _ isGlobal first more qualifier segments =>
        have hts : ts <:+: qs ++ ts ++ us := ⟨qs, us, rfl⟩
        simp only [TypeExpr.typeArgs, TypeExpr.segments] at ha
        split at ha
        · next s hlast =>
          have hs : s ∈ more := by
            rw [List.getLast?_append] at hlast
            cases hmore : more.getLast? with
            | none =>
              rw [List.getLast?_eq_none_iff] at hmore
              exact absurd hmore segments.result_ne_nil
            | some s' =>
              rw [hmore] at hlast
              obtain rfl : s' = s := by simpa using hlast
              exact List.mem_of_getLast? hmore
          obtain ⟨vs, rest', hvs, hform⟩ := segments.exists_infix hs ha
          exact ⟨vs, rest', hvs.trans hts, hform⟩
        · simp at ha
    · simp [TypeExpr.typeArgs, hnil] at ha

theorem idents_subset {ts us : List Token} (h : ts <:+: us) : Token.idents ts ⊆ Token.idents us := by
  obtain ⟨as, bs, rfl⟩ := h
  intro i hi
  simp only [idents_append, List.mem_append]
  exact .inl (.inr hi)

/-! ## The words of names -/

theorem SegmentForm.mem_idents {ts rest : List Token} {s : NameSegment TypeExpr}
    (h : SegmentForm ts rest s) : (⟨s.name, s.span⟩ : Ident) ∈ Token.idents ts := by
  cases h with
  | plain word _ => exact mem_idents_iff.2 ⟨_, List.mem_cons_self, word, rfl⟩
  | generic word _ _ _ _ => exact mem_idents_iff.2 ⟨_, List.mem_cons_self, word, rfl⟩

/-- The words of a name are identifiers of its tokens. -/
theorem SegmentsForm.mem_idents {ts rest : List Token} {ss : List (NameSegment TypeExpr)}
    {s : NameSegment TypeExpr} (hs : s ∈ ss) :
    SegmentsForm ts rest ss → (⟨s.name, s.span⟩ : Ident) ∈ Token.idents ts
  | .last form _ => by
    obtain rfl := List.mem_singleton.1 hs
    exact form.mem_idents
  | @SegmentsForm.more ts us _ d s' ss form _ tail => by
    rcases List.mem_cons.1 hs with rfl | hs
    · exact idents_subset (List.prefix_append ts _).isInfix form.mem_idents
    · exact idents_subset ⟨ts ++ [d], [], by simp⟩ (tail.mem_idents hs)

theorem QualifierForm.mem_idents {ts rest : List Token} {isGlobal : Bool}
    {first : List (NameSegment TypeExpr)} (h : QualifierForm ts rest isGlobal first)
    {s : NameSegment TypeExpr} (hs : s ∈ first) : (⟨s.name, s.span⟩ : Ident) ∈ Token.idents ts := by
  cases h with
  | none _ => exact absurd hs (by simp)
  | root _ _ _ => exact absurd hs (by simp)
  | word word _ _ =>
    obtain rfl := List.mem_singleton.1 hs
    exact mem_idents_iff.2 ⟨_, List.mem_cons_self, word, rfl⟩

theorem TypeForm.mem_idents {ts rest : List Token} {e : TypeExpr} (h : TypeForm ts rest e)
    {s : NameSegment TypeExpr} (hs : s ∈ e.segments) :
    (⟨s.name, s.span⟩ : Ident) ∈ Token.idents ts := by
  cases h with
  | @mk ts us rest a e atom suffixes =>
    rcases suffixes.eq_or_segments_eq_nil with rfl | hnil
    · cases atom with
      | predefined _ => exact absurd hs (by simp [TypeExpr.segments])
      | tuple _ _ _ => exact absurd hs (by simp [TypeExpr.segments])
      | @path qs ts _ isGlobal first more qualifier segments =>
        rcases List.mem_append.1 hs with hs | hs
        · exact idents_subset ⟨[], ts ++ us, by simp⟩ (qualifier.mem_idents hs)
        · exact idents_subset ⟨qs, us, by simp⟩ (segments.mem_idents hs)
    · exact absurd hs (by simp [hnil])

/-- The words of a type and of the arguments in it are identifiers of its tokens. -/
theorem TypeForm.mem_idents_of_reached {ts rest : List Token} {e a : TypeExpr}
    (h : TypeForm ts rest e) (ha : a ∈ e.reached) {s : NameSegment TypeExpr} (hs : s ∈ a.segments) :
    (⟨s.name, s.span⟩ : Ident) ∈ Token.idents ts := by
  rw [TypeExpr.reached_eq] at ha
  rcases List.mem_cons.1 ha with rfl | ha
  · exact h.mem_idents hs
  · obtain ⟨b, hb, hab⟩ := List.mem_flatMap.1 ha
    have hlt := TypeExpr.sizeOf_lt_of_mem_typeArgs hb
    obtain ⟨us, rest', hus, hform⟩ := h.exists_infix hb
    exact idents_subset hus (hform.mem_idents_of_reached hab hs)
  termination_by sizeOf e

/-! ## Declarations -/

/-- Holds of a declaration whose parts stand at tokens of a list. -/
structure PlacedIn (ts : List Token) (d : TypeDecl) : Prop where
  idents : ∀ i ∈ d.idents, i ∈ Token.idents ts
  names : ∀ p ∈ d.typeParams, SpanIn ts p.nameSpan
  variances : ∀ p ∈ d.typeParams, ∀ v s, p.variance = some (v, s) → SpanIn ts s
  bases : ∀ b ∈ d.baseList, SpanIn ts b.span
  arguments : ∀ b ∈ d.baseList, ∀ a ∈ b.typeArgs, SpanIn ts a.span

theorem PlacedIn.mono {ts us : List Token} {d : TypeDecl} (h : PlacedIn ts d) (hs : ts <:+: us) :
    PlacedIn us d where
  idents := fun i hi => idents_subset hs (h.idents i hi)
  names := fun p hp => (h.names p hp).mono hs
  variances := fun p hp v s hv => (h.variances p hp v s hv).mono hs
  bases := fun b hb => (h.bases b hb).mono hs
  arguments := fun b hb a ha => (h.arguments b hb a ha).mono hs

theorem ParamForm.spanIn {ts rest : List Token} {p : TypeParam} (h : ParamForm ts rest p) :
    SpanIn ts p.nameSpan ∧ ∀ v s, p.variance = some (v, s) → SpanIn ts s := by
  cases h with
  | @mk as vs rest n attributes variance _ varianceForm _ =>
    refine ⟨spanIn_of_mem (by simp), ?_⟩
    rintro v s rfl
    cases varianceForm <;> exact spanIn_of_mem (by simp)

/-- The parts of a head stand at its tokens. -/
theorem HeaderForm.placedIn {ts rest : List Token} {h : Header} (hh : HeaderForm ts rest h)
    {attributes : List AttributeList} {modifiers : List String} {nested : List TypeDecl}
    {is : List Ident} {span : Span} {us : List Token} (hs : ts <:+: us)
    (his : ∀ i ∈ is, i ∈ Token.idents us) :
    PlacedIn us (h.declare attributes modifiers nested is span) := by
  cases hh with
  | @mk ks ps gs bs ws rest n kind typeParams listSpan baseList _ _ params _ bases _ =>
    have hps : ps <:+: us := .trans ⟨ks ++ [n], gs ++ (bs ++ ws), by simp⟩ hs
    have hbs : bs <:+: us := .trans ⟨ks ++ n :: (ps ++ gs), ws, by simp⟩ hs
    have hparam : ∀ p ∈ typeParams, ∃ vs rest', vs <:+: us ∧ ParamForm vs rest' p := by
      intro p hp
      cases params with
      | none _ => simp at hp
      | @some o c ts rest ps _ list _ =>
        obtain ⟨vs, rest', hvs, hform⟩ := list.exists_infix hp
        have hts : ts <:+: o :: (ts ++ [c]) := ⟨[o], [c], rfl⟩
        exact ⟨vs, rest', hvs.trans (hts.trans hps), hform⟩
    have hbase : ∀ b ∈ baseList, ∃ vs rest', vs <:+: us ∧ TypeForm vs rest' b := by
      intro b hb
      cases bases with
      | none _ => simp at hb
      | @some k ts rest es _ list =>
        obtain ⟨vs, rest', hvs, hform⟩ := list.exists_infix hb
        have hts : ts <:+: k :: ts := ⟨[k], [], by simp⟩
        cases hform with
        | @mk vs ws rest e type _ =>
          have hpre : vs <:+: vs ++ ws := (List.prefix_append vs ws).isInfix
          exact ⟨vs, _, hpre.trans (hvs.trans (hts.trans hbs)), type⟩
    refine ⟨his, ?_, ?_, ?_, ?_⟩
    · intro p hp
      obtain ⟨vs, rest', hvs, hform⟩ := hparam p hp
      exact hform.spanIn.1.mono hvs
    · intro p hp v s hv
      obtain ⟨vs, rest', hvs, hform⟩ := hparam p hp
      exact (hform.spanIn.2 v s hv).mono hvs
    · intro b hb
      obtain ⟨vs, rest', hvs, hform⟩ := hbase b hb
      exact hform.spanIn.mono hvs
    · intro b hb a ha
      obtain ⟨vs, rest', hvs, hform⟩ := hbase b hb
      obtain ⟨ws, rest'', hws, hform'⟩ := hform.exists_infix ha
      exact hform'.spanIn.mono (hws.trans hvs)

end SelfTypeLint.Grammar
