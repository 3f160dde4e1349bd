import SelfTypeLint.Proofs.Reader.Moves

/-!
# The grammar of types and attribute lists

What tokens spell a type or an attribute list, without an order of reading: `TypeForm ts rest e` says
that the tokens `ts` spell the type `e` where the tokens `rest` follow. The tokens that follow matter
only as far as a longer form begins with them, and never beyond the second.
-/

namespace SelfTypeLint.Grammar

open Token

/-- Holds where a pointer star is next. -/
def starAt (ts : List Token) : Bool := ts.head?.any fun t => t.kind = .op && t.text == "*"

/-- Holds where no suffix of a type is next. -/
structure NoSuffix (rest : List Token) : Prop where
  question : kindAt rest 0 ≠ .question
  brackets : kindAt rest 0 = .lbracket → kindAt rest 1 ≠ .rbracket ∧ kindAt rest 1 ≠ .comma
  star : starAt rest = false

theorem starAt_of_kind_ne {rest : List Token} (h : kindAt rest 0 ≠ .op) : starAt rest = false := by
  cases rest with
  | nil => rfl
  | cons t ts => simp [starAt, show t.kind ≠ .op from h]

theorem noSuffix_nil : NoSuffix [] := ⟨by simp, by simp, rfl⟩

/-- The suffixes of a type that begins at an offset. -/
inductive SuffixForm (start : Nat) :
    TypeExpr → List Token → List Token → TypeExpr → Prop
  | done {e : TypeExpr} {rest : List Token} (stop : NoSuffix rest) : SuffixForm start e [] rest e
  | nullable {e e' : TypeExpr} {q : Token} {ts rest : List Token} (question : q.kind = .question)
      (more : SuffixForm start (.nullable e ⟨start, q.span.stop⟩) ts rest e') :
      SuffixForm start e (q :: ts) rest e'
  | array {e e' : TypeExpr} {o b : Token} {cs ts rest : List Token} (opener : o.kind = .lbracket)
      (commas : ∀ t ∈ cs, t.kind = .comma) (closer : b.kind = .rbracket)
      (more : SuffixForm start (.array e ⟨start, b.span.stop⟩) ts rest e') :
      SuffixForm start e (o :: (cs ++ b :: ts)) rest e'
  | pointer {e e' : TypeExpr} {s : Token} {ts rest : List Token} (op : s.kind = .op)
      (star : s.text = "*") (more : SuffixForm start e ts rest e') :
      SuffixForm start e (s :: ts) rest e'

/-- The word before `::` at the head of a name, if there is one. -/
inductive QualifierForm : List Token → List Token → Bool → List (NameSegment TypeExpr) → Prop
  | none {rest : List Token} (stop : kindAt rest 1 ≠ .colonColon) : QualifierForm [] rest false []
  | root {t s : Token} {rest : List Token} (word : t.kind = .ident)
      (sign : s.kind = .colonColon) (root : identName t.text = "global") :
      QualifierForm [t, s] rest true []
  | word {t s : Token} {rest : List Token} (word : t.kind = .ident)
      (sign : s.kind = .colonColon) (other : identName t.text ≠ "global") :
      QualifierForm [t, s] rest false [⟨identName t.text, t.span, [], Option.none⟩]

/-- One token of a kind, if it is next. -/
inductive OptionalForm (k : TokenKind) : List Token → List Token → Prop
  | none {rest : List Token} (stop : kindAt rest 0 ≠ k) : OptionalForm k [] rest
  | some {t : Token} {rest : List Token} (kind : t.kind = k) : OptionalForm k [t] rest

theorem OptionalForm.kind_eq {k : TokenKind} {ts rest : List Token} (h : OptionalForm k ts rest) :
    ∀ t ∈ ts, t.kind = k := by
  cases h with
  | none _ => simp
  | some kind => simpa using kind

/-- Holds where a dot and a further word of a name are next. -/
def DotAt (rest : List Token) : Prop := kindAt rest 0 = .dot ∧ kindAt rest 1 = .ident

mutual

/-- A type before its suffixes. -/
inductive AtomForm : List Token → List Token → TypeExpr → Prop
  | predefined {t : Token} {rest : List Token} (word : t.kind = .predefined) :
      AtomForm [t] rest (.predefined t.text t.span)
  | tuple {o c : Token} {ts rest : List Token} {es : List TypeExpr} (opener : o.kind = .lparen)
      (elements : ElementsForm ts (c :: rest) es) (closer : c.kind = .rparen) :
      AtomForm (o :: (ts ++ [c])) rest (.tuple es ⟨o.span.start, c.span.stop⟩)
  | path {qs ts rest : List Token} {isGlobal : Bool} {first more : List (NameSegment TypeExpr)}
      (qualifier : QualifierForm qs (ts ++ rest) isGlobal first)
      (segments : SegmentsForm ts rest more) :
      AtomForm (qs ++ ts) rest (.path isGlobal (first ++ more) (spanOf (qs ++ ts)))

/-- A type. -/
inductive TypeForm : List Token → List Token → TypeExpr → Prop
  | mk {ts us rest : List Token} {a e : TypeExpr} (atom : AtomForm ts (us ++ rest) a)
      (suffixes : SuffixForm (startOf ts) a us rest e) : TypeForm (ts ++ us) rest e

/-- The elements of a tuple. -/
inductive ElementsForm : List Token → List Token → List TypeExpr → Prop
  | last {ts ns rest : List Token} {e : TypeExpr} (type : TypeForm ts (ns ++ rest) e)
      (label : OptionalForm .ident ns rest) (stop : kindAt rest 0 ≠ .comma) :
      ElementsForm (ts ++ ns) rest [e]
  | more {ts ns us rest : List Token} {c : Token} {e : TypeExpr} {es : List TypeExpr}
      (type : TypeForm ts (ns ++ c :: (us ++ rest)) e) (label : OptionalForm .ident ns (c :: (us ++ rest)))
      (comma : c.kind = .comma) (tail : ElementsForm us rest es) :
      ElementsForm (ts ++ (ns ++ c :: us)) rest (e :: es)

/-- A word of a name with its arguments. -/
inductive SegmentForm : List Token → List Token → NameSegment TypeExpr → Prop
  | plain {t : Token} {rest : List Token} (word : t.kind = .ident) (stop : kindAt rest 0 ≠ .lt) :
      SegmentForm [t] rest ⟨identName t.text, t.span, [], none⟩
  | generic {t o c : Token} {ts cs rest : List Token} {args : List TypeExpr}
      (word : t.kind = .ident) (opener : o.kind = .lt)
      (arguments : ArgumentsForm ts (cs ++ c :: rest) args) (commas : ∀ k ∈ cs, k.kind = .comma)
      (closer : c.kind = .gt) :
      SegmentForm (t :: o :: (ts ++ (cs ++ [c]))) rest
        ⟨identName t.text, t.span, args, some ⟨o.span.start, c.span.stop⟩⟩

/-- The words of a name. -/
inductive SegmentsForm : List Token → List Token → List (NameSegment TypeExpr) → Prop
  | last {ts rest : List Token} {s : NameSegment TypeExpr} (segment : SegmentForm ts rest s)
      (stop : ¬ DotAt rest) : SegmentsForm ts rest [s]
  | more {ts us rest : List Token} {d : Token} {s : NameSegment TypeExpr}
      {ss : List (NameSegment TypeExpr)} (segment : SegmentForm ts (d :: (us ++ rest)) s)
      (dot : d.kind = .dot) (tail : SegmentsForm us rest ss) :
      SegmentsForm (ts ++ d :: us) rest (s :: ss)

/-- The arguments of a generic name; none before a comma or the closing angle. -/
inductive ArgumentsForm : List Token → List Token → List TypeExpr → Prop
  | none {rest : List Token} (stop : kindAt rest 0 = .gt ∨ kindAt rest 0 = .comma) :
      ArgumentsForm [] rest []
  | some {ts rest : List Token} {es : List TypeExpr} (list : TypeListForm ts rest es) :
      ArgumentsForm ts rest es

/-- Types joined by commas. -/
inductive TypeListForm : List Token → List Token → List TypeExpr → Prop
  | last {ts rest : List Token} {e : TypeExpr} (type : TypeForm ts rest e)
      (stop : kindAt rest 0 ≠ .comma) : TypeListForm ts rest [e]
  | more {ts us rest : List Token} {c : Token} {e : TypeExpr} {es : List TypeExpr}
      (type : TypeForm ts (c :: (us ++ rest)) e) (comma : c.kind = .comma)
      (tail : TypeListForm us rest es) : TypeListForm (ts ++ c :: us) rest (e :: es)

end

/-- A group of brackets after its opening one. -/
def Group (closer : TokenKind) (ts : List Token) : Prop :=
  balancedLength? [closer] ts = some ts.length

/-- Whether a group is closed is seen from its own tokens. -/
theorem balancedLength?_take {stack : List TokenKind} {ts : List Token} {n : Nat}
    (h : balancedLength? stack ts = some n) :
    n ≤ ts.length ∧ balancedLength? stack (ts.take n) = some n := by
  induction ts generalizing stack n with
  | nil =>
    cases stack with
    | nil =>
      obtain rfl := Option.some.inj h
      exact ⟨Nat.le_refl _, rfl⟩
    | cons top stack => simp [balancedLength?] at h
  | cons t ts ih =>
    cases stack with
    | nil =>
      obtain rfl := Option.some.inj h
      exact ⟨Nat.zero_le _, rfl⟩
    | cons top stack =>
      rw [balancedLength?] at h
      obtain ⟨m, hm, rfl⟩ := Option.map_eq_some_iff.1 h
      obtain ⟨hle, htake⟩ := ih hm
      refine ⟨by simpa using hle, ?_⟩
      rw [List.take_succ_cons, balancedLength?, htake]
      rfl

theorem balancedLength?_append {stack : List TokenKind} {ts : List Token}
    (h : balancedLength? stack ts = some ts.length) (rest : List Token) :
    balancedLength? stack (ts ++ rest) = some ts.length := by
  induction ts generalizing stack with
  | nil =>
    cases stack with
    | nil => simp [balancedLength?]
    | cons top stack => simp [balancedLength?] at h
  | cons t ts ih =>
    cases stack with
    | nil => simp [balancedLength?] at h
    | cons top stack =>
      rw [balancedLength?] at h
      rw [List.cons_append, balancedLength?]
      obtain ⟨m, hm, he⟩ := Option.map_eq_some_iff.1 h
      have hm' : m = ts.length := by simpa using he
      rw [ih (hm' ▸ hm)]
      rfl

/-- A group that an opening bracket of a kind begins, if it is next. -/
inductive GroupForm (k : TokenKind) : List Token → List Token → Prop
  | none {rest : List Token} (stop : kindAt rest 0 ≠ k) : GroupForm k [] rest
  | group {o : Token} {ts rest : List Token} (opener : o.kind = k) (group : Group k.closer ts) :
      GroupForm k (o :: ts) rest

/-- The attributes of a list. -/
inductive AttributesForm : List Token → List Token → List Attribute → Prop
  | none {rest : List Token} (stop : kindAt rest 0 = .rbracket) : AttributesForm [] rest []
  | last {ts us rest : List Token} {e : TypeExpr} (type : TypeForm ts (us ++ rest) e)
      (call : GroupForm .lparen us rest) (stop : kindAt rest 0 ≠ .comma) :
      AttributesForm (ts ++ us) rest [⟨e, spanOf (ts ++ us)⟩]
  | more {ts us vs rest : List Token} {c : Token} {e : TypeExpr} {as : List Attribute}
      (type : TypeForm ts (us ++ c :: (vs ++ rest)) e) (call : GroupForm .lparen us (c :: (vs ++ rest)))
      (comma : c.kind = .comma) (tail : AttributesForm vs rest as) :
      AttributesForm (ts ++ (us ++ c :: vs)) rest (⟨e, spanOf (ts ++ us)⟩ :: as)

/-- The word before a colon at the head of an attribute list, if there is one. -/
inductive TargetForm : List Token → List Token → Option String → Prop
  | none {rest : List Token} (stop : ¬ (kindAt rest 0 = .ident ∧ kindAt rest 1 = .colon)) :
      TargetForm [] rest Option.none
  | word {t s : Token} {rest : List Token} (word : t.kind = .ident) (sign : s.kind = .colon) :
      TargetForm [t, s] rest (some t.text)

/-- Attribute lists. -/
inductive AttributeListsForm : List Token → List Token → List AttributeList → Prop
  | none {rest : List Token} (stop : kindAt rest 0 ≠ .lbracket) : AttributeListsForm [] rest []
  | cons {o c : Token} {ts us vs rest : List Token} {target : Option String}
      {as : List Attribute} {ls : List AttributeList} (opener : o.kind = .lbracket)
      (head : TargetForm ts (us ++ c :: (vs ++ rest)) target)
      (attributes : AttributesForm us (c :: (vs ++ rest)) as) (closer : c.kind = .rbracket)
      (tail : AttributeListsForm vs rest ls) :
      AttributeListsForm (o :: (ts ++ (us ++ c :: vs))) rest
        (⟨target, as, ⟨o.span.start, c.span.stop⟩⟩ :: ls)

/-! ## What types begin with -/

mutual

theorem AtomForm.ne_nil {ts rest : List Token} {e : TypeExpr} (h : AtomForm ts rest e) :
    ts ≠ [] := by
  cases h with
  | predefined _ => simp
  | tuple _ _ _ => simp
  | path _ segments =>
    have := segments.ne_nil
    simp [this]

theorem SegmentsForm.ne_nil {ts rest : List Token} {ss : List (NameSegment TypeExpr)}
    (h : SegmentsForm ts rest ss) : ts ≠ [] := by
  cases h with
  | last segment _ => cases segment <;> simp
  | more _ _ _ => simp

end

theorem SegmentForm.ne_nil {ts rest : List Token} {s : NameSegment TypeExpr}
    (h : SegmentForm ts rest s) : ts ≠ [] := by
  cases h <;> simp

theorem TypeForm.ne_nil {ts rest : List Token} {e : TypeExpr} (h : TypeForm ts rest e) :
    ts ≠ [] := by
  cases h with
  | mk atom _ => simp [atom.ne_nil]

theorem SegmentsForm.result_ne_nil {ts rest : List Token} {ss : List (NameSegment TypeExpr)}
    (h : SegmentsForm ts rest ss) : ss ≠ [] := by
  cases h <;> simp

/-- A name begins with a word. -/
theorem SegmentsForm.kindAt_eq {ts rest : List Token} {ss : List (NameSegment TypeExpr)}
    (h : SegmentsForm ts rest ss) : kindAt ts 0 = .ident := by
  cases h with
  | last segment _ =>
    cases segment with
    | plain word _ => exact word
    | generic word _ _ _ _ => exact word
  | more segment _ _ =>
    cases segment with
    | plain word _ => exact word
    | generic word _ _ _ _ => exact word

/-- A type begins with a keyword type, an opening parenthesis or a word. -/
theorem TypeForm.kindAt_eq {ts rest : List Token} {e : TypeExpr} (h : TypeForm ts rest e) :
    kindAt ts 0 = .predefined ∨ kindAt ts 0 = .lparen ∨ kindAt ts 0 = .ident := by
  cases h with
  | mk atom _ =>
    rw [kindAt_append_left atom.ne_nil]
    cases atom with
    | predefined word => exact .inl word
    | tuple opener _ _ => exact .inr (.inl opener)
    | path qualifier segments =>
      right
      right
      cases qualifier with
      | none _ => exact segments.kindAt_eq
      | root word _ _ => exact word
      | word word _ _ => exact word

theorem TypeListForm.ne_nil {ts rest : List Token} {es : List TypeExpr}
    (h : TypeListForm ts rest es) : ts ≠ [] := by
  cases h with
  | last type _ => exact type.ne_nil
  | more _ _ _ => simp

theorem TypeListForm.kindAt_eq {ts rest : List Token} {es : List TypeExpr}
    (h : TypeListForm ts rest es) :
    kindAt ts 0 = .predefined ∨ kindAt ts 0 = .lparen ∨ kindAt ts 0 = .ident := by
  cases h with
  | last type _ => exact type.kindAt_eq
  | more type _ _ =>
    rw [kindAt_append_left type.ne_nil]
    exact type.kindAt_eq

/-! ## Where types stand -/

/-- Holds of a type whose span is that of the first of some tokens. Only the stars of pointers can
follow them. -/
def Covers (ts : List Token) (e : TypeExpr) : Prop :=
  ∃ us vs, ts = us ++ vs ∧ us ≠ [] ∧ e.span = spanOf us ∧ ∀ t ∈ vs, t.kind = .op ∧ t.text = "*"

theorem covers_of_span_eq {ts : List Token} {e : TypeExpr} (hne : ts ≠ [])
    (h : e.span = spanOf ts) : Covers ts e :=
  ⟨ts, [], (List.append_nil ts).symm, hne, h, by simp⟩

private theorem covers_to {ps us : List Token} {b : Token} {e : TypeExpr} (hne : ps ≠ [])
    (h : e.span = ⟨startOf ps, b.span.stop⟩) : Covers (ps ++ us ++ [b]) e := by
  apply covers_of_span_eq (by simp)
  rw [h, spanOf, stopOf_concat, List.append_assoc, startOf_append hne]

/-- Suffixes of a type that begins with some tokens make a type that begins with them. -/
theorem SuffixForm.covers {ps ts rest : List Token} {a e : TypeExpr}
    (h : SuffixForm (startOf ps) a ts rest e) (ha : Covers ps a) : Covers (ps ++ ts) e := by
  generalize hs : startOf ps = start at h
  have hne : ps ≠ [] := by
    obtain ⟨us, vs, rfl, hus, -, -⟩ := ha
    simp [hus]
  induction h generalizing ps with
  | done _ => rwa [List.append_nil]
  | @nullable e e' q ts rest hq _ ih =>
    have hstart : startOf (ps ++ [] ++ [q]) = start := by
      rw [List.append_assoc, startOf_append hne, hs]
    have := ih (covers_to hne (by rw [hs]; rfl)) hstart (by simp)
    simpa using this
  | @array e e' o b cs ts rest ho hcs hb _ ih =>
    have hstart : startOf (ps ++ (o :: cs) ++ [b]) = start := by
      rw [List.append_assoc, startOf_append hne, hs]
    have := ih (covers_to hne (by rw [hs]; rfl)) hstart (by simp)
    simpa using this
  | @pointer e e' s ts rest op star _ ih =>
    obtain ⟨us, vs, rfl, hus, he, hvs⟩ := ha
    have hstart : startOf (us ++ vs ++ [s]) = start := by
      rw [startOf_append hne, hs]
    have hstars : ∀ t ∈ vs ++ [s], t.kind = .op ∧ t.text = "*" :=
      List.forall_mem_append.2 ⟨hvs, List.forall_mem_singleton.2 ⟨op, star⟩⟩
    have := ih ⟨us, vs ++ [s], by simp, hus, he, hstars⟩ hstart (by simp)
    simpa using this

theorem AtomForm.span_eq {ts rest : List Token} {e : TypeExpr} (h : AtomForm ts rest e) :
    e.span = spanOf ts := by
  cases h with
  | predefined _ => rfl
  | tuple _ _ _ => rw [spanOf, ← List.cons_append, stopOf_concat]; rfl
  | path _ _ => rfl

/-- A type stands where its first tokens do. -/
theorem TypeForm.covers {ts rest : List Token} {e : TypeExpr} (h : TypeForm ts rest e) :
    Covers ts e := by
  cases h with
  | mk atom suffixes => exact suffixes.covers (covers_of_span_eq atom.ne_nil atom.span_eq)

theorem TypeForm.span_start {ts rest : List Token} {e : TypeExpr} (h : TypeForm ts rest e) :
    e.span.start = startOf ts := by
  obtain ⟨us, vs, rfl, hus, he, -⟩ := h.covers
  rw [he, startOf_append hus]
  rfl

/-- The first attribute list begins where the lists do. -/
theorem AttributeListsForm.start_eq {ts rest : List Token} {ls : List AttributeList}
    (h : AttributeListsForm ts rest ls) :
    ls.head?.map (·.span.start) = ts.head?.map (·.span.start) := by
  cases h with
  | none _ => rfl
  | cons _ _ _ _ _ => rfl

end SelfTypeLint.Grammar
