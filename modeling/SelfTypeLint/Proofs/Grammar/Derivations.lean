import SelfTypeLint.Proofs.Grammar.Types

/-!
# Types as a context-free grammar

The grammar of types without a look at what follows: `TypeDerivation ts e` says that the tokens `ts`
derive the type `e`. The forms of types, which do see the tokens that follow, are the derivations that
those tokens cannot extend, `TypeEnds`. Within a derivation nothing else has to be asked: a type there is
followed by a comma, a closing bracket or a word, and none of these goes on a type.
-/

namespace SelfTypeLint.Grammar

open Token

/-! ## The derivations -/

/-- Any number of suffixes after a type that begins at an offset. A pointer star leaves no trace. -/
inductive SuffixesDerivation (start : Nat) : TypeExpr → List Token → TypeExpr → Prop
  | nil {e : TypeExpr} : SuffixesDerivation start e [] e
  | nullable {e e' : TypeExpr} {q : Token} {ts : List Token} (question : q.kind = .question)
      (more : SuffixesDerivation start (.nullable e ⟨start, q.span.stop⟩) ts e') :
      SuffixesDerivation start e (q :: ts) e'
  | array {e e' : TypeExpr} {o b : Token} {cs ts : List Token} (opener : o.kind = .lbracket)
      (commas : ∀ t ∈ cs, t.kind = .comma) (closer : b.kind = .rbracket)
      (more : SuffixesDerivation start (.array e ⟨start, b.span.stop⟩) ts e') :
      SuffixesDerivation start e (o :: (cs ++ b :: ts)) e'
  | pointer {e e' : TypeExpr} {s : Token} {ts : List Token} (op : s.kind = .op) (star : s.text = "*")
      (more : SuffixesDerivation start e ts e') : SuffixesDerivation start e (s :: ts) e'

/-- An optional word before `::`: only a flag for `global`, a first segment for any other word. -/
inductive QualifierDerivation : List Token → Bool → List (NameSegment TypeExpr) → Prop
  | none : QualifierDerivation [] false []
  | root {t s : Token} (word : t.kind = .ident) (sign : s.kind = .colonColon)
      (root : identName t.text = "global") : QualifierDerivation [t, s] true []
  | word {t s : Token} (word : t.kind = .ident) (sign : s.kind = .colonColon)
      (other : identName t.text ≠ "global") :
      QualifierDerivation [t, s] false [⟨identName t.text, t.span, [], Option.none⟩]

/-- An optional name of an element. -/
inductive LabelDerivation : List Token → Prop
  | none : LabelDerivation []
  | some {t : Token} (word : t.kind = .ident) : LabelDerivation [t]

mutual

/-- A type before its suffixes. -/
inductive AtomDerivation : List Token → TypeExpr → Prop
  | predefined {t : Token} (word : t.kind = .predefined) :
      AtomDerivation [t] (.predefined t.text t.span)
  | tuple {o c : Token} {ts : List Token} {es : List TypeExpr} (opener : o.kind = .lparen)
      (elements : ElementsDerivation ts es) (closer : c.kind = .rparen) :
      AtomDerivation (o :: (ts ++ [c])) (.tuple es ⟨o.span.start, c.span.stop⟩)
  | path {qs ts : List Token} {isGlobal : Bool} {first more : List (NameSegment TypeExpr)}
      (qualifier : QualifierDerivation qs isGlobal first) (segments : SegmentsDerivation ts more) :
      AtomDerivation (qs ++ ts) (.path isGlobal (first ++ more) (spanOf (qs ++ ts)))

/-- A type. -/
inductive TypeDerivation : List Token → TypeExpr → Prop
  | mk {ts us : List Token} {a e : TypeExpr} (atom : AtomDerivation ts a)
      (suffixes : SuffixesDerivation (startOf ts) a us e) : TypeDerivation (ts ++ us) e

/-- The elements of a tuple, joined by commas. -/
inductive ElementsDerivation : List Token → List TypeExpr → Prop
  | last {ts ns : List Token} {e : TypeExpr} (type : TypeDerivation ts e)
      (label : LabelDerivation ns) : ElementsDerivation (ts ++ ns) [e]
  | more {ts ns us : List Token} {c : Token} {e : TypeExpr} {es : List TypeExpr}
      (type : TypeDerivation ts e) (label : LabelDerivation ns) (comma : c.kind = .comma)
      (tail : ElementsDerivation us es) : ElementsDerivation (ts ++ (ns ++ c :: us)) (e :: es)

/-- A word of a name: alone, with arguments, or with commas alone in their place. -/
inductive SegmentDerivation : List Token → NameSegment TypeExpr → Prop
  | plain {t : Token} (word : t.kind = .ident) :
      SegmentDerivation [t] ⟨identName t.text, t.span, [], none⟩
  | generic {t o c : Token} {ts : List Token} {args : List TypeExpr} (word : t.kind = .ident)
      (opener : o.kind = .lt) (arguments : TypesDerivation ts args) (closer : c.kind = .gt) :
      SegmentDerivation (t :: o :: (ts ++ [c]))
        ⟨identName t.text, t.span, args, some ⟨o.span.start, c.span.stop⟩⟩
  | unbound {t o c : Token} {cs : List Token} (word : t.kind = .ident) (opener : o.kind = .lt)
      (commas : ∀ k ∈ cs, k.kind = .comma) (closer : c.kind = .gt) :
      SegmentDerivation (t :: o :: (cs ++ [c]))
        ⟨identName t.text, t.span, [], some ⟨o.span.start, c.span.stop⟩⟩

/-- The words of a name, joined by dots. -/
inductive SegmentsDerivation : List Token → List (NameSegment TypeExpr) → Prop
  | last {ts : List Token} {s : NameSegment TypeExpr} (segment : SegmentDerivation ts s) :
      SegmentsDerivation ts [s]
  | more {ts us : List Token} {d : Token} {s : NameSegment TypeExpr}
      {ss : List (NameSegment TypeExpr)} (segment : SegmentDerivation ts s) (dot : d.kind = .dot)
      (tail : SegmentsDerivation us ss) : SegmentsDerivation (ts ++ d :: us) (s :: ss)

/-- Types joined by commas, at least one. -/
inductive TypesDerivation : List Token → List TypeExpr → Prop
  | last {ts : List Token} {e : TypeExpr} (type : TypeDerivation ts e) : TypesDerivation ts [e]
  | more {ts us : List Token} {c : Token} {e : TypeExpr} {es : List TypeExpr}
      (type : TypeDerivation ts e) (comma : c.kind = .comma) (tail : TypesDerivation us es) :
      TypesDerivation (ts ++ c :: us) (e :: es)

end

/-! ## What cannot extend a type -/

/-- The kind of the last of some tokens; that of the end of the file without any. -/
def lastKind (ts : List Token) : TokenKind := (ts.getLast?.map (·.kind)).getD .eof

@[simp] theorem lastKind_concat (ts : List Token) (t : Token) : lastKind (ts ++ [t]) = t.kind := by
  simp [lastKind]

@[simp] theorem lastKind_singleton (t : Token) : lastKind [t] = t.kind := rfl

theorem lastKind_append {us : List Token} (h : us ≠ []) (ts : List Token) :
    lastKind (ts ++ us) = lastKind us := by
  rw [lastKind, lastKind, List.getLast?_append, List.getLast?_eq_some_getLast h, Option.some_or]

theorem lastKind_cons {us : List Token} (h : us ≠ []) (t : Token) :
    lastKind (t :: us) = lastKind us :=
  lastKind_append h [t]

/-- Tokens between two brackets end as the second one does. -/
@[simp] theorem lastKind_cons_concat (o c : Token) (ts : List Token) :
    lastKind (o :: (ts ++ [c])) = c.kind :=
  lastKind_concat (o :: ts) c

/-- Holds where no token that goes on a name is next: arguments or a further word after a word, a
further word after arguments, and a first word's own sign. -/
structure NameEnds (ts rest : List Token) : Prop where
  arguments : lastKind ts = .ident → kindAt rest 0 ≠ .lt
  dot : lastKind ts = .ident ∨ lastKind ts = .gt → ¬ DotAt rest
  qualifier : lastKind ts = .ident → ts.length = 1 → kindAt rest 0 ≠ .colonColon

/-- Holds of the tokens after those of a type where they cannot extend it. -/
structure TypeEnds (ts rest : List Token) : Prop where
  suffix : NoSuffix rest
  name : NameEnds ts rest

theorem nameEnds_of_kindAt {ts rest : List Token} (hlt : kindAt rest 0 ≠ .lt)
    (hdot : kindAt rest 0 ≠ .dot) (hcolon : kindAt rest 0 ≠ .colonColon) : NameEnds ts rest :=
  ⟨fun _ => hlt, fun _ h => hdot h.1, fun _ _ => hcolon⟩

theorem nameEnds_of_lastKind {ts rest : List Token} (hident : lastKind ts ≠ .ident)
    (hgt : lastKind ts ≠ .gt) : NameEnds ts rest :=
  ⟨fun h => absurd h hident, fun h => (h.elim hident hgt).elim, fun h => absurd h hident⟩

/-- What follows a type within another one does not extend it. -/
theorem typeEnds_of_kindAt {ts rest : List Token} (h : kindAt rest 0 = .comma ∨
    kindAt rest 0 = .rparen ∨ kindAt rest 0 = .gt ∨ kindAt rest 0 = .ident) : TypeEnds ts rest := by
  rcases h with h | h | h | h
  all_goals
    refine ⟨⟨by simp [h], by simp [h], starAt_of_kind_ne (by simp [h])⟩, ?_⟩
    exact nameEnds_of_kindAt (by simp [h]) (by simp [h]) (by simp [h])

theorem typeEnds_nil (ts : List Token) : TypeEnds ts [] :=
  ⟨noSuffix_nil, nameEnds_of_kindAt (by simp) (by simp) (by simp)⟩

/-! ## Forms are derivations -/

theorem SuffixForm.derivation {start : Nat} {a e : TypeExpr} {ts rest : List Token}
    (h : SuffixForm start a ts rest e) : SuffixesDerivation start a ts e := by
  induction h with
  | done _ => exact .nil
  | nullable question _ ih => exact .nullable question ih
  | array opener commas closer _ ih => exact .array opener commas closer ih
  | pointer op star _ ih => exact .pointer op star ih

theorem QualifierForm.derivation {ts rest : List Token} {isGlobal : Bool}
    {first : List (NameSegment TypeExpr)} (h : QualifierForm ts rest isGlobal first) :
    QualifierDerivation ts isGlobal first := by
  cases h with
  | none _ => exact .none
  | root word sign root => exact .root word sign root
  | word word sign other => exact .word word sign other

theorem OptionalForm.derivation {ts rest : List Token} (h : OptionalForm .ident ts rest) :
    LabelDerivation ts := by
  cases h with
  | none _ => exact .none
  | some word => exact .some word

theorem TypeListForm.stop {ts rest : List Token} {es : List TypeExpr} :
    TypeListForm ts rest es → kindAt rest 0 ≠ .comma
  | .last _ stop => stop
  | .more _ _ tail => tail.stop

mutual

theorem AtomForm.derivation {ts rest : List Token} {e : TypeExpr} :
    AtomForm ts rest e → AtomDerivation ts e
  | .predefined word => .predefined word
  | .tuple opener elements closer => .tuple opener elements.derivation closer
  | .path qualifier segments => .path qualifier.derivation segments.derivation

theorem TypeForm.derivation {ts rest : List Token} {e : TypeExpr} :
    TypeForm ts rest e → TypeDerivation ts e
  | .mk atom suffixes => .mk atom.derivation suffixes.derivation

theorem ElementsForm.derivation {ts rest : List Token} {es : List TypeExpr} :
    ElementsForm ts rest es → ElementsDerivation ts es
  | .last type label _ => .last type.derivation label.derivation
  | .more type label comma tail => .more type.derivation label.derivation comma tail.derivation

theorem SegmentForm.derivation {ts rest : List Token} {s : NameSegment TypeExpr} :
    SegmentForm ts rest s → SegmentDerivation ts s
  | .plain word _ => .plain word
  | @SegmentForm.generic _ _ _ _ cs _ _ word opener arguments commas closer => by
    rcases arguments.derivation with ⟨rfl, rfl⟩ | ⟨list, stop⟩
    · exact .unbound word opener commas closer
    · -- no comma follows a list of types, so none is skipped after it
      have hcs : cs = [] := by
        cases cs with
        | nil => rfl
        | cons k cs => exact absurd (commas k List.mem_cons_self) stop
      subst hcs
      exact .generic word opener list closer

theorem SegmentsForm.derivation {ts rest : List Token} {ss : List (NameSegment TypeExpr)} :
    SegmentsForm ts rest ss → SegmentsDerivation ts ss
  | .last segment _ => .last segment.derivation
  | .more segment dot tail => .more segment.derivation dot tail.derivation

theorem ArgumentsForm.derivation {ts rest : List Token} {es : List TypeExpr} :
    ArgumentsForm ts rest es →
      (ts = [] ∧ es = []) ∨ (TypesDerivation ts es ∧ kindAt rest 0 ≠ .comma)
  | .none _ => .inl ⟨rfl, rfl⟩
  | .some list => .inr ⟨list.derivation, list.stop⟩

theorem TypeListForm.derivation {ts rest : List Token} {es : List TypeExpr} :
    TypeListForm ts rest es → TypesDerivation ts es
  | .last type _ => .last type.derivation
  | .more type comma tail => .more type.derivation comma tail.derivation

end

theorem SuffixForm.noSuffix {start : Nat} {a e : TypeExpr} {ts rest : List Token}
    (h : SuffixForm start a ts rest e) : NoSuffix rest := by
  induction h with
  | done stop => exact stop
  | nullable _ _ ih => exact ih
  | array _ _ _ _ ih => exact ih
  | pointer _ _ _ ih => exact ih

/-- Suffixes end in a sign of their own. -/
theorem SuffixesDerivation.lastKind_eq {start : Nat} {a e : TypeExpr} {ts : List Token}
    (h : SuffixesDerivation start a ts e) (hne : ts ≠ []) :
    lastKind ts = .question ∨ lastKind ts = .rbracket ∨ lastKind ts = .op := by
  induction h with
  | nil => exact absurd rfl hne
  | @nullable _ _ q ts question _ ih =>
    by_cases hts : ts = []
    · exact .inl (by simpa [hts] using question)
    · rw [lastKind_cons hts]; exact ih hts
  | @array _ _ o b cs ts _ _ closer _ ih =>
    rw [lastKind_cons (by simp), lastKind_append (by simp)]
    by_cases hts : ts = []
    · exact .inr (.inl (by simpa [hts] using closer))
    · rw [lastKind_cons hts]; exact ih hts
  | @pointer _ _ s ts op _ _ ih =>
    by_cases hts : ts = []
    · exact .inr (.inr (by simpa [hts] using op))
    · rw [lastKind_cons hts]; exact ih hts

theorem SegmentForm.arguments {ts rest : List Token} {s : NameSegment TypeExpr}
    (h : SegmentForm ts rest s) : lastKind ts = .ident → kindAt rest 0 ≠ .lt := by
  cases h with
  | plain _ stop => exact fun _ => stop
  | @generic t o c ts cs _ _ _ _ _ _ closer =>
    intro h
    rw [lastKind_cons (by simp), ← List.append_assoc, lastKind_cons_concat, closer] at h
    exact absurd h (by simp)

theorem SegmentsForm.ends {ts rest : List Token} {ss : List (NameSegment TypeExpr)} :
    SegmentsForm ts rest ss → (lastKind ts = .ident → kindAt rest 0 ≠ .lt) ∧ ¬ DotAt rest
  | .last segment stop => ⟨segment.arguments, stop⟩
  | .more (d := d) _ _ tail => by
    rw [lastKind_append (by simp), lastKind_cons tail.ne_nil]
    exact tail.ends

theorem AtomForm.nameEnds {ts rest : List Token} {e : TypeExpr} (h : AtomForm ts rest e) :
    NameEnds ts rest := by
  cases h with
  | predefined word => exact nameEnds_of_lastKind (by simp [word]) (by simp [word])
  | @tuple o c ts _ _ _ _ closer =>
    exact nameEnds_of_lastKind (by simp [closer]) (by simp [closer])
  | @path qs ts _ _ _ _ qualifier segments =>
    refine ⟨?_, fun _ => segments.ends.2, ?_⟩
    · rw [lastKind_append segments.ne_nil]
      exact segments.ends.1
    · intro _ hlen
      cases qualifier with
      | none stop =>
        obtain ⟨t, rfl⟩ := List.length_eq_one_iff.1 (by simpa using hlen)
        exact stop
      | root _ _ _ => simp [segments.ne_nil] at hlen
      | word _ _ _ => simp [segments.ne_nil] at hlen

/-- Whatever follows a type of the grammar cannot extend it. -/
theorem TypeForm.ends {ts rest : List Token} {e : TypeExpr} (h : TypeForm ts rest e) :
    TypeEnds ts rest := by
  cases h with
  | @mk ts us _ a _ atom suffixes =>
    refine ⟨suffixes.noSuffix, ?_⟩
    by_cases hus : us = []
    · subst hus
      simpa using atom.nameEnds
    · have hlast := suffixes.derivation.lastKind_eq hus
      rw [← lastKind_append hus ts] at hlast
      exact nameEnds_of_lastKind (by rcases hlast with h | h | h <;> simp [h])
        (by rcases hlast with h | h | h <;> simp [h])

/-! ## Derivations that end are forms -/

theorem SuffixesDerivation.form {start : Nat} {a e : TypeExpr} {ts rest : List Token}
    (h : SuffixesDerivation start a ts e) (stop : NoSuffix rest) : SuffixForm start a ts rest e := by
  induction h with
  | nil => exact .done stop
  | nullable question _ ih => exact .nullable question ih
  | array opener commas closer _ ih => exact .array opener commas closer ih
  | pointer op star _ ih => exact .pointer op star ih

theorem SuffixesDerivation.kindAt_eq {start : Nat} {a e : TypeExpr} {ts : List Token}
    (h : SuffixesDerivation start a ts e) (hne : ts ≠ []) :
    kindAt ts 0 = .question ∨ kindAt ts 0 = .lbracket ∨ kindAt ts 0 = .op := by
  cases h with
  | nil => exact absurd rfl hne
  | nullable question _ => exact .inl question
  | array opener _ _ _ => exact .inr (.inl opener)
  | pointer op _ _ => exact .inr (.inr op)

theorem LabelDerivation.form {ts rest : List Token} (h : LabelDerivation ts)
    (stop : kindAt rest 0 ≠ .ident) : OptionalForm .ident ts rest := by
  cases h with
  | none => exact .none stop
  | some word => exact .some word

/-- An element is followed by its name, or by what follows the name. -/
theorem LabelDerivation.typeEnds {ts ns rest : List Token} (h : LabelDerivation ns)
    (hrest : kindAt rest 0 = .comma ∨ kindAt rest 0 = .rparen) : TypeEnds ts (ns ++ rest) := by
  cases h with
  | none => exact typeEnds_of_kindAt (hrest.imp_right .inl)
  | some word => exact typeEnds_of_kindAt (.inr (.inr (.inr word)))

theorem SegmentDerivation.ne_nil {ts : List Token} {s : NameSegment TypeExpr}
    (h : SegmentDerivation ts s) : ts ≠ [] := by
  cases h <;> simp

theorem SegmentsDerivation.ne_nil {ts : List Token} {ss : List (NameSegment TypeExpr)}
    (h : SegmentsDerivation ts ss) : ts ≠ [] := by
  cases h with
  | last segment => exact segment.ne_nil
  | more _ _ _ => simp

theorem AtomDerivation.ne_nil {ts : List Token} {e : TypeExpr} (h : AtomDerivation ts e) :
    ts ≠ [] := by
  cases h with
  | predefined _ => simp
  | tuple _ _ _ => simp
  | path _ segments => simp [segments.ne_nil]

theorem SegmentDerivation.lastKind_eq {ts : List Token} {s : NameSegment TypeExpr}
    (h : SegmentDerivation ts s) : lastKind ts = .ident ∨ lastKind ts = .gt := by
  cases h with
  | plain word => exact .inl word
  | generic _ _ _ closer =>
    rw [lastKind_cons (by simp), lastKind_cons_concat]
    exact .inr closer
  | unbound _ _ _ closer =>
    rw [lastKind_cons (by simp), lastKind_cons_concat]
    exact .inr closer

/-- A name ends in a word or a closing angle. -/
theorem SegmentsDerivation.lastKind_eq {ts : List Token} {ss : List (NameSegment TypeExpr)} :
    SegmentsDerivation ts ss → lastKind ts = .ident ∨ lastKind ts = .gt
  | .last segment => segment.lastKind_eq
  | .more _ _ tail => by
    rw [lastKind_append (by simp), lastKind_cons tail.ne_nil]
    exact tail.lastKind_eq

/-- No sign of a qualifier stands within a name: after its first word comes an angle, a dot or the end. -/
theorem SegmentsDerivation.kindAt_one {ts : List Token} {ss : List (NameSegment TypeExpr)}
    (h : SegmentsDerivation ts ss) (rest : List Token) :
    (∃ t, ts = [t] ∧ t.kind = .ident) ∨ kindAt (ts ++ rest) 1 = .lt ∨
      kindAt (ts ++ rest) 1 = .dot := by
  cases h with
  | last segment =>
    cases segment with
    | plain word => exact .inl ⟨_, rfl, word⟩
    | generic _ opener _ _ => exact .inr (.inl opener)
    | unbound _ opener _ _ => exact .inr (.inl opener)
  | more segment dot _ =>
    cases segment with
    | plain _ => exact .inr (.inr dot)
    | generic _ opener _ _ => exact .inr (.inl opener)
    | unbound _ opener _ _ => exact .inr (.inl opener)

theorem QualifierDerivation.form {qs ts rest : List Token} {isGlobal : Bool}
    {first : List (NameSegment TypeExpr)} {ss : List (NameSegment TypeExpr)}
    (h : QualifierDerivation qs isGlobal first) (segments : SegmentsDerivation ts ss)
    (ends : NameEnds (qs ++ ts) rest) : QualifierForm qs (ts ++ rest) isGlobal first := by
  cases h with
  | none =>
    refine .none ?_
    rcases segments.kindAt_one rest with ⟨t, rfl, ht⟩ | h | h
    · exact ends.qualifier ht rfl
    · simp [h]
    · simp [h]
  | root word sign root => exact .root word sign root
  | word word sign other => exact .word word sign other

mutual

theorem AtomDerivation.form {ts rest : List Token} {e : TypeExpr} :
    AtomDerivation ts e → NameEnds ts rest → AtomForm ts rest e
  | .predefined word, _ => .predefined word
  | .tuple opener elements closer, _ => .tuple opener (elements.form closer) closer
  | @AtomDerivation.path qs _ _ _ _ qualifier segments, ends => by
    have hlast := lastKind_append segments.ne_nil qs
    refine .path (qualifier.form segments ends) (segments.form ?_ ?_)
    · exact fun h => ends.arguments (hlast.trans h)
    · exact ends.dot (by rw [hlast]; exact segments.lastKind_eq)

theorem TypeDerivation.form {ts rest : List Token} {e : TypeExpr} :
    TypeDerivation ts e → TypeEnds ts rest → TypeForm ts rest e
  | @TypeDerivation.mk ts us _ _ atom suffixes, ends => by
    refine .mk (atom.form ?_) (suffixes.form ends.suffix)
    by_cases hus : us = []
    · subst hus
      simpa using ends.name
    · have hkind := suffixes.kindAt_eq hus
      rw [← kindAt_append_left hus rest] at hkind
      rcases hkind with h | h | h <;> exact nameEnds_of_kindAt (by simp [h]) (by simp [h]) (by simp [h])

theorem ElementsDerivation.form {ts rest : List Token} {es : List TypeExpr} :
    ElementsDerivation ts es → kindAt rest 0 = .rparen → ElementsForm ts rest es
  | .last type label, stop =>
    .last (type.form (label.typeEnds (.inr stop))) (label.form (by simp [stop])) (by simp [stop])
  | .more type label comma tail, stop =>
    .more (type.form (label.typeEnds (.inl comma))) (label.form (by simp [comma])) comma
      (tail.form stop)

theorem SegmentDerivation.form {ts rest : List Token} {s : NameSegment TypeExpr} :
    SegmentDerivation ts s → (lastKind ts = .ident → kindAt rest 0 ≠ .lt) → SegmentForm ts rest s
  | .plain word, stop => .plain word (stop word)
  | .generic word opener arguments closer, _ =>
    @SegmentForm.generic _ _ _ _ [] _ _ word opener (.some (arguments.form closer)) (by simp) closer
  | @SegmentDerivation.unbound _ _ c cs word opener commas closer, _ => by
    have hstop : kindAt (cs ++ c :: rest) 0 = .gt ∨ kindAt (cs ++ c :: rest) 0 = .comma := by
      cases cs with
      | nil => exact .inl closer
      | cons k cs => exact .inr (commas k List.mem_cons_self)
    exact @SegmentForm.generic _ _ _ [] _ _ _ word opener (.none hstop) commas closer

theorem SegmentsDerivation.form {ts rest : List Token} {ss : List (NameSegment TypeExpr)} :
    SegmentsDerivation ts ss → (lastKind ts = .ident → kindAt rest 0 ≠ .lt) → ¬ DotAt rest →
      SegmentsForm ts rest ss
  | .last segment, harguments, hdot => .last (segment.form harguments) hdot
  | .more (d := d) segment dot tail, harguments, hdot => by
    rw [lastKind_append (by simp), lastKind_cons tail.ne_nil] at harguments
    exact .more (segment.form fun _ => by simp [dot]) dot (tail.form harguments hdot)

theorem TypesDerivation.form {ts rest : List Token} {es : List TypeExpr} :
    TypesDerivation ts es → kindAt rest 0 = .gt → TypeListForm ts rest es
  | .last type, stop => .last (type.form (typeEnds_of_kindAt (by simp [stop]))) (by simp [stop])
  | .more type comma tail, stop =>
    .more (type.form (typeEnds_of_kindAt (.inl comma))) comma (tail.form stop)

end

/-- The forms of types are the derivations that what follows cannot extend. -/
theorem typeForm_iff {ts rest : List Token} {e : TypeExpr} :
    TypeForm ts rest e ↔ TypeDerivation ts e ∧ TypeEnds ts rest :=
  ⟨fun h => ⟨h.derivation, h.ends⟩, fun h => h.1.form h.2⟩

/-! ## What can extend a type -/

theorem SuffixesDerivation.append {start : Nat} {a b e : TypeExpr} {ts us : List Token}
    (h : SuffixesDerivation start a ts b) (h' : SuffixesDerivation start b us e) :
    SuffixesDerivation start a (ts ++ us) e := by
  induction h with
  | nil => exact h'
  | nullable question _ ih => exact .nullable question (ih h')
  | @array _ _ o b cs ts opener commas closer _ ih =>
    rw [List.cons_append, List.append_assoc, List.cons_append]
    exact .array opener commas closer (ih h')
  | pointer op star _ ih => exact .pointer op star (ih h')

theorem TypeDerivation.append {ts us : List Token} {a e : TypeExpr} (h : TypeDerivation ts a)
    (h' : SuffixesDerivation (startOf ts) a us e) : TypeDerivation (ts ++ us) e := by
  cases h with
  | @mk ts vs _ _ atom suffixes =>
    rw [List.append_assoc]
    rw [startOf_append atom.ne_nil] at h'
    exact .mk atom (suffixes.append h')

/-- A type that ends as a name does is a name. -/
theorem TypeDerivation.segments {ts : List Token} {e : TypeExpr} (h : TypeDerivation ts e)
    (hlast : lastKind ts = .ident ∨ lastKind ts = .gt) :
    ∃ qs us isGlobal first ss, ts = qs ++ us ∧ QualifierDerivation qs isGlobal first ∧
      SegmentsDerivation us ss := by
  cases h with
  | @mk ts us a _ atom suffixes =>
    by_cases hus : us = []
    · subst hus
      rw [List.append_nil] at hlast ⊢
      cases atom with
      | predefined word => simp [word] at hlast
      | tuple _ _ closer => simp [closer] at hlast
      | path qualifier segments => exact ⟨_, _, _, _, _, rfl, qualifier, segments⟩
    · rw [lastKind_append hus] at hlast
      rcases suffixes.lastKind_eq hus with h | h | h <;> simp [h] at hlast

/-- A name that ends in a word can go on with arguments of it. -/
theorem SegmentsDerivation.arguments {ts : List Token} {ss : List (NameSegment TypeExpr)}
    {o c : Token} (ho : o.kind = .lt) (hc : c.kind = .gt) :
    SegmentsDerivation ts ss → lastKind ts = .ident → ∃ ss', SegmentsDerivation (ts ++ [o, c]) ss'
  | .last (.plain word), _ => ⟨_, .last (@SegmentDerivation.unbound _ _ _ [] word ho (by simp) hc)⟩
  | .last (.generic _ _ _ closer), hlast => by
    rw [lastKind_cons (by simp), lastKind_cons_concat, closer] at hlast
    exact absurd hlast (by simp)
  | .last (.unbound _ _ _ closer), hlast => by
    rw [lastKind_cons (by simp), lastKind_cons_concat, closer] at hlast
    exact absurd hlast (by simp)
  | .more segment dot tail, hlast => by
    rw [lastKind_append (by simp), lastKind_cons tail.ne_nil] at hlast
    obtain ⟨ss', h⟩ := tail.arguments ho hc hlast
    rw [List.append_assoc, List.cons_append]
    exact ⟨_, .more segment dot h⟩

/-- A name can go on with a further word. -/
theorem SegmentsDerivation.concat {ts : List Token} {ss : List (NameSegment TypeExpr)}
    {d t : Token} (hd : d.kind = .dot) (ht : t.kind = .ident) :
    SegmentsDerivation ts ss → ∃ ss', SegmentsDerivation (ts ++ [d, t]) ss'
  | .last segment => ⟨_, .more segment hd (.last (.plain ht))⟩
  | .more segment dot tail => by
    obtain ⟨ss', h⟩ := tail.concat hd ht
    rw [List.append_assoc, List.cons_append]
    exact ⟨_, .more segment dot h⟩

/-- What goes on a type where `TypeEnds` fails. -/
theorem cases_of_not_typeEnds {ts rest : List Token} (h : ¬ TypeEnds ts rest) :
    kindAt rest 0 = .question ∨
    (kindAt rest 0 = .lbracket ∧ (kindAt rest 1 = .rbracket ∨ kindAt rest 1 = .comma)) ∨
    starAt rest = true ∨
    (lastKind ts = .ident ∧ kindAt rest 0 = .lt) ∨
    ((lastKind ts = .ident ∨ lastKind ts = .gt) ∧ DotAt rest) ∨
    (lastKind ts = .ident ∧ ts.length = 1 ∧ kindAt rest 0 = .colonColon) := by
  refine Classical.byContradiction fun hnone => h ?_
  simp only [not_or, not_and] at hnone
  obtain ⟨hquestion, hbrackets, hstar, harguments, hdot, hqualifier⟩ := hnone
  exact ⟨⟨hquestion, hbrackets, by simpa using hstar⟩, ⟨harguments, hdot, hqualifier⟩⟩

theorem exists_cons_of_kindAt {ts : List Token} {k : TokenKind} (h : kindAt ts 0 = k)
    (hk : k ≠ .eof) : ∃ t us, ts = t :: us ∧ t.kind = k := by
  cases ts with
  | nil => exact absurd h.symm hk
  | cons t us => exact ⟨t, us, rfl, h⟩

/-- A name is a type. -/
theorem SegmentsDerivation.type {qs ts : List Token} {isGlobal : Bool}
    {first ss : List (NameSegment TypeExpr)} (h : SegmentsDerivation ts ss)
    (qualifier : QualifierDerivation qs isGlobal first) : ∃ e, TypeDerivation (qs ++ ts) e := by
  have := TypeDerivation.mk (.path qualifier h) .nil
  rw [List.append_nil] at this
  exact ⟨_, this⟩

/-- Where the tokens that follow can extend a type, the first of them do begin an extension. -/
theorem TypeDerivation.exists_extension {ts rest : List Token} {e : TypeExpr}
    (h : TypeDerivation ts e) (hends : ¬ TypeEnds ts rest) :
    ∃ us vs e', us ≠ [] ∧ us <+: rest ∧ TypeDerivation (ts ++ (us ++ vs)) e' := by
  rcases cases_of_not_typeEnds hends with hq | ⟨ho, hnext⟩ | hstar | ⟨hlast, hlt⟩ | ⟨hlast, hdot, hword⟩
    | ⟨hlast, hlen, hsign⟩
  · obtain ⟨q, rest, rfl, hq⟩ := exists_cons_of_kindAt hq (by simp)
    exact ⟨[q], [], _, by simp, ⟨rest, rfl⟩, h.append (.nullable hq .nil)⟩
  · obtain ⟨o, rest, rfl, ho⟩ := exists_cons_of_kindAt ho (by simp)
    rcases hnext with hb | hk
    · obtain ⟨b, rest, rfl, hb⟩ := exists_cons_of_kindAt hb (by simp)
      exact ⟨[o, b], [], _, by simp, ⟨rest, rfl⟩,
        h.append (@SuffixesDerivation.array _ _ _ _ _ [] _ ho (by simp) hb .nil)⟩
    · obtain ⟨k, rest, rfl, hk⟩ := exists_cons_of_kindAt hk (by simp)
      exact ⟨[o, k], [⟨.rbracket, ⟨0, 0⟩, "]"⟩], _, by simp, ⟨rest, rfl⟩,
        h.append (@SuffixesDerivation.array _ _ _ _ _ [k] _ ho (by simpa using hk) rfl .nil)⟩
  · cases rest with
    | nil => simp [starAt] at hstar
    | cons s rest =>
      simp only [starAt, List.head?_cons, Option.any_some, Bool.and_eq_true, decide_eq_true_eq,
        beq_iff_eq] at hstar
      exact ⟨[s], [], _, by simp, ⟨rest, rfl⟩, h.append (.pointer hstar.1 hstar.2 .nil)⟩
  · obtain ⟨o, rest, rfl, ho⟩ := exists_cons_of_kindAt hlt (by simp)
    obtain ⟨qs, us, isGlobal, first, ss, rfl, qualifier, segments⟩ := h.segments (.inl hlast)
    rw [lastKind_append segments.ne_nil] at hlast
    obtain ⟨ss', hss⟩ := segments.arguments (c := ⟨.gt, ⟨0, 0⟩, ">"⟩) ho rfl hlast
    obtain ⟨e', he⟩ := hss.type qualifier
    exact ⟨[o], [_], e', by simp, ⟨rest, rfl⟩, by rw [List.append_assoc]; exact he⟩
  · obtain ⟨d, rest, rfl, hd⟩ := exists_cons_of_kindAt hdot (by simp)
    obtain ⟨t, rest, rfl, ht⟩ := exists_cons_of_kindAt hword (by simp)
    obtain ⟨qs, us, isGlobal, first, ss, rfl, qualifier, segments⟩ := h.segments hlast
    obtain ⟨ss', hss⟩ := segments.concat hd ht
    obtain ⟨e', he⟩ := hss.type qualifier
    exact ⟨[d, t], [], e', by simp, ⟨rest, rfl⟩, by rw [List.append_assoc]; exact he⟩
  · obtain ⟨s, rest, rfl, hs⟩ := exists_cons_of_kindAt hsign (by simp)
    obtain ⟨t, rfl⟩ := List.length_eq_one_iff.1 hlen
    have word : SegmentsDerivation [t] _ := .last (.plain hlast)
    by_cases hroot : identName t.text = "global"
    · obtain ⟨e', he⟩ := word.type (.root hlast hs hroot)
      exact ⟨[s], [t], e', by simp, ⟨rest, rfl⟩, he⟩
    · obtain ⟨e', he⟩ := word.type (.word hlast hs hroot)
      exact ⟨[s], [t], e', by simp, ⟨rest, rfl⟩, he⟩

end SelfTypeLint.Grammar
