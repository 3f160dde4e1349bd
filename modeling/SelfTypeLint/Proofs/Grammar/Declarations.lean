import SelfTypeLint.Proofs.Grammar.Types

/-!
# The grammar of declarations

What tokens spell the declarations of a file without faults. The members of a type that the tree does
not keep are runs of tokens whose end their brackets tell. `BodyForm ts rest nested is` says that the
tokens `ts` hold the nested types `nested`, and besides them the identifiers `is`.
-/

namespace SelfTypeLint.Grammar

open Token Read

/-! ## Headers of types -/

/-- Items joined by commas. -/
inductive ListForm {α : Type} (form : List Token → List Token → α → Prop) :
    List Token → List Token → List α → Prop
  | last {ts rest : List Token} {a : α} (item : form ts rest a) (stop : kindAt rest 0 ≠ .comma) :
      ListForm form ts rest [a]
  | more {ts us rest : List Token} {c : Token} {a : α} {as : List α}
      (item : form ts (c :: (us ++ rest)) a) (comma : c.kind = .comma)
      (tail : ListForm form us rest as) : ListForm form (ts ++ c :: us) rest (a :: as)

/-- The modifiers of a declaration. -/
def ModifiersForm (ts rest : List Token) : Prop :=
  leadingModifiers (ts ++ rest) = ts.map (·.text)

/-- Holds where a type declaration begins, after attributes and modifiers. -/
def TypeAt (ts : List Token) : Prop :=
  kindAt ts 0 = .kwClass ∨ kindAt ts 0 = .kwStruct ∨ kindAt ts 0 = .kwInterface ∨
    (wordAt "record" ts = true ∧
      (kindAt ts 1 = .ident ∨ kindAt ts 1 = .kwClass ∨ kindAt ts 1 = .kwStruct))

/-- The words that say which kind of type is declared. -/
inductive KindForm : List Token → List Token → TypeKind → Prop
  | classType {t : Token} {rest : List Token} (word : t.kind = .kwClass) :
      KindForm [t] rest .classType
  | structType {t : Token} {rest : List Token} (word : t.kind = .kwStruct) :
      KindForm [t] rest .structType
  | interfaceType {t : Token} {rest : List Token} (word : t.kind = .kwInterface) :
      KindForm [t] rest .interfaceType
  | record {t : Token} {rest : List Token} (word : wordAt "record" [t] = true)
      (name : kindAt rest 0 = .ident) : KindForm [t] rest .recordType
  | recordClass {t u : Token} {rest : List Token} (word : wordAt "record" [t] = true)
      (second : u.kind = .kwClass) : KindForm [t, u] rest .recordType
  | recordStruct {t u : Token} {rest : List Token} (word : wordAt "record" [t] = true)
      (second : u.kind = .kwStruct) : KindForm [t, u] rest .recordStructType

/-- The variance of a type parameter, if one is written. -/
inductive VarianceForm : List Token → List Token → Option (Variance × Span) → Prop
  | none {rest : List Token} (stop : kindAt rest 0 ≠ .kwIn ∧ kindAt rest 0 ≠ .kwOut) :
      VarianceForm [] rest Option.none
  | contravariant {t : Token} {rest : List Token} (word : t.kind = .kwIn) :
      VarianceForm [t] rest (some (.contravariant, t.span))
  | covariant {t : Token} {rest : List Token} (word : t.kind = .kwOut) :
      VarianceForm [t] rest (some (.covariant, t.span))

/-- A type parameter. -/
inductive ParamForm : List Token → List Token → TypeParam → Prop
  | mk {as vs rest : List Token} {n : Token} {attributes : List AttributeList}
      {variance : Option (Variance × Span)}
      (attributesForm : AttributeListsForm as (vs ++ n :: rest) attributes)
      (varianceForm : VarianceForm vs (n :: rest) variance) (word : n.kind = .ident) :
      ParamForm (as ++ (vs ++ [n])) rest
        { attributes, variance, name := identName n.text, nameSpan := n.span
          span := spanOf (as ++ (vs ++ [n])) }

/-- The type parameters of a declaration with the span of their list, if it has one. -/
inductive ParamsForm : List Token → List Token → List TypeParam → Option Span → Prop
  | none {rest : List Token} (stop : kindAt rest 0 ≠ .lt) : ParamsForm [] rest [] Option.none
  | some {o c : Token} {ts rest : List Token} {ps : List TypeParam} (opener : o.kind = .lt)
      (list : ListForm ParamForm ts (c :: rest) ps) (closer : c.kind = .gt) :
      ParamsForm (o :: (ts ++ [c])) rest ps (some ⟨o.span.start, c.span.stop⟩)

/-- A base type with optional arguments for its constructor. -/
inductive BaseForm : List Token → List Token → TypeExpr → Prop
  | mk {ts us rest : List Token} {e : TypeExpr} (type : TypeForm ts (us ++ rest) e)
      (call : GroupForm .lparen us rest) : BaseForm (ts ++ us) rest e

/-- The base types of a declaration. -/
inductive BasesForm : List Token → List Token → List TypeExpr → Prop
  | none {rest : List Token} (stop : kindAt rest 0 ≠ .colon) : BasesForm [] rest []
  | some {k : Token} {ts rest : List Token} {es : List TypeExpr} (colon : k.kind = .colon)
      (list : ListForm BaseForm ts rest es) : BasesForm (k :: ts) rest es

/-- Holds where the constraints of one clause end. -/
def ClauseEnd (rest : List Token) : Prop :=
  kindAt rest 0 = .lbrace ∨ kindAt rest 0 = .semi ∨ kindAt rest 0 = .eof ∨ kindAt rest 0 = .arrow ∨
    wordAt "where" rest = true

/-- The constraints after the word `where`. -/
inductive ClauseForm : List Token → List Token → Prop
  | done {rest : List Token} (stop : ClauseEnd rest) : ClauseForm [] rest
  | group {o : Token} {us ts rest : List Token} (opener : o.kind = .lparen)
      (group : Group .rparen us) (tail : ClauseForm ts rest) : ClauseForm (o :: (us ++ ts)) rest
  | token {t : Token} {ts rest : List Token} (inside : ¬ ClauseEnd [t]) (plain : t.kind ≠ .lparen)
      (tail : ClauseForm ts rest) : ClauseForm (t :: ts) rest

/-- The constraint clauses of a declaration. -/
inductive ConstraintsForm : List Token → List Token → Prop
  | none {rest : List Token} (stop : wordAt "where" rest = false) : ConstraintsForm [] rest
  | cons {w : Token} {ts us rest : List Token} (word : wordAt "where" [w] = true)
      (clause : ClauseForm ts (us ++ rest)) (tail : ConstraintsForm us rest) :
      ConstraintsForm (w :: (ts ++ us)) rest

/-- What the head of a type declaration says. -/
structure Header where
  kind : TypeKind
  name : Ident
  typeParams : List TypeParam
  typeParamListSpan : Option Span
  baseList : List TypeExpr

/-- The declaration with a head. -/
def Header.declare (h : Header) (attributes : List AttributeList) (modifiers : List String)
    (nested : List TypeDecl) (idents : List Ident) (span : Span) : TypeDecl :=
  { kind := h.kind, attributes, modifiers, name := h.name.name, nameSpan := h.name.span
    typeParams := h.typeParams, typeParamListSpan := h.typeParamListSpan
    baseList := h.baseList, nested, idents, span }

/-- The head of a type declaration, from the word that says its kind. -/
inductive HeaderForm : List Token → List Token → Header → Prop
  | mk {ks ps gs bs ws rest : List Token} {n : Token} {kind : TypeKind}
      {typeParams : List TypeParam} {listSpan : Option Span} {baseList : List TypeExpr}
      (kindForm : KindForm ks (n :: (ps ++ (gs ++ (bs ++ (ws ++ rest))))) kind)
      (word : n.kind = .ident)
      (params : ParamsForm ps (gs ++ (bs ++ (ws ++ rest))) typeParams listSpan)
      (call : GroupForm .lparen gs (bs ++ (ws ++ rest)))
      (bases : BasesForm bs (ws ++ rest) baseList) (constraints : ConstraintsForm ws rest) :
      HeaderForm (ks ++ n :: (ps ++ (gs ++ (bs ++ ws)))) rest
        ⟨kind, ⟨identName n.text, n.span⟩, typeParams, listSpan, baseList⟩

theorem KindForm.ne_nil {ts rest : List Token} {kind : TypeKind} (h : KindForm ts rest kind) :
    ts ≠ [] := by
  cases h <;> simp

/-- A head has a word for its kind and a name. -/
theorem HeaderForm.two_le_length {ts rest : List Token} {header : Header}
    (h : HeaderForm ts rest header) : 2 ≤ ts.length := by
  cases h with
  | mk kindForm _ _ _ _ _ =>
    have := List.length_pos_iff.2 kindForm.ne_nil
    simp only [List.length_append, List.length_cons]
    omega

/-- A type declaration begins with the word for its kind. -/
theorem kindAt_of_typeAt {ts : List Token} (h : TypeAt ts) : kindAt ts 0 = .kwClass ∨
    kindAt ts 0 = .kwStruct ∨ kindAt ts 0 = .kwInterface ∨ kindAt ts 0 = .ident := by
  rcases h with h | h | h | ⟨h, -⟩
  · exact .inl h
  · exact .inr (.inl h)
  · exact .inr (.inr (.inl h))
  · cases ts with
    | nil => simp [wordAt] at h
    | cons t ts => exact .inr (.inr (.inr (kind_of_wordAt (wordAt_singleton.trans h))))

theorem ParamForm.ne_nil {ts rest : List Token} {p : TypeParam} (h : ParamForm ts rest p) :
    ts ≠ [] := by
  cases h
  simp

theorem BaseForm.ne_nil {ts rest : List Token} {e : TypeExpr} (h : BaseForm ts rest e) :
    ts ≠ [] := by
  cases h with
  | mk type _ => simp [type.ne_nil]

/-! ## Bodies of types -/

/-- A run of tokens through a semicolon outside of brackets. -/
def StatementForm (ts rest : List Token) : Prop := statementLength 0 (ts ++ rest) = ts.length

/-- A member of a body that is neither a type nor an enumeration or delegate. -/
def PlainForm (ts rest : List Token) : Prop := memberLength 0 (ts ++ rest) = ts.length

/-- An enumeration. -/
inductive EnumForm : List Token → List Token → Prop
  | mk {e : Token} {us gs ss rest : List Token} (word : e.kind = .kwEnum)
      (head : ∀ t ∈ us, t.kind ≠ .lbrace ∧ t.kind ≠ .semi)
      (stop : ∀ t, (gs ++ (ss ++ rest)).head? = some t → t.kind = .lbrace ∨ t.kind = .semi)
      (group : GroupForm .lbrace gs (ss ++ rest)) (semi : OptionalForm .semi ss rest) :
      EnumForm (e :: (us ++ (gs ++ ss))) rest

/-- A member of a body that is no type, with the identifiers that it leaves. -/
inductive OtherForm : List Token → List Token → List Ident → Prop
  | enum {ts rest : List Token} (form : EnumForm ts rest) : OtherForm ts rest (idents ts)
  | delegate {ts rest : List Token} (word : kindAt (ts ++ rest) 0 = .kwDelegate)
      (form : StatementForm ts rest) : OtherForm ts rest []
  | plain {ts rest : List Token} (noType : ¬ TypeAt (ts ++ rest))
      (noEnum : kindAt (ts ++ rest) 0 ≠ .kwEnum) (noDelegate : kindAt (ts ++ rest) 0 ≠ .kwDelegate)
      (form : PlainForm ts rest) : OtherForm ts rest (idents ts)

/-- Holds where a member of a body begins. -/
def MemberAt (ts : List Token) : Prop :=
  kindAt ts 0 ≠ .rbrace ∧ kindAt ts 0 ≠ .eof ∧ kindAt ts 0 ≠ .semi

/-- A statement that does not begin with its end has tokens. -/
theorem StatementForm.ne_nil {ts rest : List Token} (h : StatementForm ts rest)
    (hm : MemberAt (ts ++ rest)) : ts ≠ [] := by
  rintro rfl
  cases rest with
  | nil => exact hm.2.1 rfl
  | cons t rest =>
    have h1 : t.kind ≠ .rbrace := hm.1
    have h2 : t.kind ≠ .semi := hm.2.2
    simp only [StatementForm, List.nil_append, statementLength, h1, h2, false_and, if_false,
      List.length_nil] at h
    split at h
    · omega
    · split at h <;> omega

theorem PlainForm.ne_nil {ts rest : List Token} (h : PlainForm ts rest)
    (hm : MemberAt (ts ++ rest)) : ts ≠ [] := by
  rintro rfl
  cases rest with
  | nil => exact hm.2.1 rfl
  | cons t rest =>
    have h1 : t.kind ≠ .rbrace := hm.1
    have h2 : t.kind ≠ .semi := hm.2.2
    simp only [PlainForm, List.nil_append, memberLength, h1, h2, false_and, if_false,
      List.length_nil] at h
    split at h
    · omega
    · split at h <;> omega

/-- A member that begins has tokens. -/
theorem OtherForm.ne_nil {ts rest : List Token} {is : List Ident} (h : OtherForm ts rest is)
    (hm : MemberAt (ts ++ rest)) : ts ≠ [] := by
  cases h with
  | enum form => cases form; simp
  | delegate _ form => exact form.ne_nil hm
  | plain _ _ _ form => exact form.ne_nil hm

mutual

/-- A type declaration from the word that says its kind, after what stands in front of it. -/
inductive DeclForm : Nat → List AttributeList → List String → List Token → List Token →
    TypeDecl → Prop
  | mk {start : Nat} {attributes : List AttributeList} {modifiers : List String}
      {hs bs rest : List Token} {header : Header} {nested : List TypeDecl} {is : List Ident}
      (head : HeaderForm hs (bs ++ rest) header) (block : BlockForm bs rest nested is) :
      DeclForm start attributes modifiers (hs ++ bs) rest
        (header.declare attributes modifiers nested (idents hs ++ is) ⟨start, stopOf 0 bs⟩)

/-- The body of a type declaration, or the semicolon in its place. -/
inductive BlockForm : List Token → List Token → List TypeDecl → List Ident → Prop
  | semi {s : Token} {rest : List Token} (semi : s.kind = .semi) : BlockForm [s] rest [] []
  | braces {o c : Token} {ts ss rest : List Token} {nested : List TypeDecl} {is : List Ident}
      (opener : o.kind = .lbrace) (body : BodyForm ts (c :: (ss ++ rest)) nested is)
      (closer : c.kind = .rbrace) (semi : OptionalForm .semi ss rest) :
      BlockForm (o :: (ts ++ c :: ss)) rest nested is

/-- The members of a body. -/
inductive BodyForm : List Token → List Token → List TypeDecl → List Ident → Prop
  | done {rest : List Token} (stop : kindAt rest 0 = .rbrace ∨ kindAt rest 0 = .eof) :
      BodyForm [] rest [] []
  | semi {s : Token} {ts rest : List Token} {nested : List TypeDecl} {is : List Ident}
      (semi : s.kind = .semi) (tail : BodyForm ts rest nested is) :
      BodyForm (s :: ts) rest nested is
  | type {as ms ds ts rest : List Token} {attributes : List AttributeList} {d : TypeDecl}
      {nested : List TypeDecl} {is : List Ident}
      (start : MemberAt (as ++ (ms ++ (ds ++ (ts ++ rest)))))
      (attributesForm : AttributeListsForm as (ms ++ (ds ++ (ts ++ rest))) attributes)
      (modifiers : ModifiersForm ms (ds ++ (ts ++ rest)))
      (decl : DeclForm (startOf (as ++ (ms ++ ds))) attributes (ms.map (·.text)) ds (ts ++ rest) d)
      (tail : BodyForm ts rest nested is) :
      BodyForm (as ++ (ms ++ (ds ++ ts))) rest (d :: nested) (idents (as ++ ms) ++ is)
  | other {as ms us ts rest : List Token} {attributes : List AttributeList}
      {nested : List TypeDecl} {js is : List Ident}
      (start : MemberAt (as ++ (ms ++ (us ++ (ts ++ rest)))))
      (attributesForm : AttributeListsForm as (ms ++ (us ++ (ts ++ rest))) attributes)
      (modifiers : ModifiersForm ms (us ++ (ts ++ rest))) (member : OtherForm us (ts ++ rest) js)
      (tail : BodyForm ts rest nested is) :
      BodyForm (as ++ (ms ++ (us ++ ts))) rest nested (idents (as ++ ms) ++ (js ++ is))

end

/-- A declaration begins where a type is declared. -/
theorem DeclForm.typeAt {start : Nat} {attributes : List AttributeList} {modifiers : List String}
    {ts rest : List Token} {d : TypeDecl} (h : DeclForm start attributes modifiers ts rest d) :
    TypeAt (ts ++ rest) := by
  cases h with
  | mk head _ =>
    cases head with
    | mk kindForm word _ _ _ _ =>
      cases kindForm with
      | classType word => exact .inl word
      | structType word => exact .inr (.inl word)
      | interfaceType word => exact .inr (.inr (.inl word))
      | record word name => exact .inr (.inr (.inr ⟨word, .inl name⟩))
      | recordClass word second => exact .inr (.inr (.inr ⟨word, .inr (.inl second)⟩))
      | recordStruct word second => exact .inr (.inr (.inr ⟨word, .inr (.inr second)⟩))

theorem DeclForm.ne_nil {start : Nat} {attributes : List AttributeList} {modifiers : List String}
    {ts rest : List Token} {d : TypeDecl} (h : DeclForm start attributes modifiers ts rest d) :
    ts ≠ [] := by
  cases h with
  | mk head _ =>
    have := head.two_le_length
    intro hnil
    obtain ⟨rfl, rfl⟩ := List.append_eq_nil_iff.1 hnil
    simp at this

theorem BlockForm.ne_nil {ts rest : List Token} {nested : List TypeDecl} {is : List Ident}
    (h : BlockForm ts rest nested is) : ts ≠ [] := by
  cases h <;> simp

end SelfTypeLint.Grammar
