import SelfTypeLint.Proofs.Grammar.Declarations

/-!
# The grammar of files

What tokens spell the members of a file without faults. A using directive may name something by any
type; then its target is the text of the file at that place, which `slice` gives. The identifiers that
stand outside of type declarations are collected on the way.
-/

namespace SelfTypeLint.Grammar

open Token Read

/-- Holds where a using directive begins. -/
def UsingAt (ts : List Token) : Prop :=
  kindAt ts 0 = .kwUsing ∨ (wordAt "global" ts = true ∧ kindAt ts 1 = .kwUsing)

/-- Holds where a directive for an external alias begins. -/
def ExternAt (ts : List Token) : Prop :=
  (∃ t, ts.head? = some t ∧ t.kind = .modifier ∧ t.text = "extern") ∧ kindAt ts 1 = .ident

/-- The word `global` of a using directive, if it is written. -/
inductive GlobalForm : List Token → Bool → Prop
  | none : GlobalForm [] false
  | word {g : Token} (word : wordAt "global" [g] = true) : GlobalForm [g] true

/-- What a using directive says before its target. -/
inductive UsingKindForm : List Token → List Token → UsingKind → Option String → Prop
  | members {s : Token} {rest : List Token} (word : s.kind = .kwStatic) :
      UsingKindForm [s] rest .ofMembers none
  | aliased {t e : Token} {rest : List Token} (word : t.kind = .ident) (sign : e.kind = .eq) :
      UsingKindForm [t, e] rest .ofAlias (some (identName t.text))
  | space {rest : List Token} (noMembers : kindAt rest 0 ≠ .kwStatic)
      (noAlias : ¬ (kindAt rest 0 = .ident ∧ kindAt rest 1 = .eq)) :
      UsingKindForm [] rest .ofNamespace none

/-- A using directive. -/
inductive UsingForm (slice : Span → String) : List Token → List Token → UsingDirective → Prop
  | mk {gs ks ts rest : List Token} {w s : Token} {isGlobal : Bool} {kind : UsingKind}
      {newName : Option String} {e : TypeExpr} (global : GlobalForm gs isGlobal)
      (word : w.kind = .kwUsing) (kindForm : UsingKindForm ks (ts ++ s :: rest) kind newName)
      (target : TypeForm ts (s :: rest) e) (semi : s.kind = .semi) :
      UsingForm slice (gs ++ w :: (ks ++ (ts ++ [s]))) rest
        { kind, isGlobal, newName, target := e.dottedName?.getD (slice e.span)
          targetSpan := e.span, span := spanOf (gs ++ w :: (ks ++ (ts ++ [s]))) }

/-- The words of a dotted name after some that are read. -/
inductive DottedForm : String → Span → List Token → List Token → String → Span → Prop
  | done {name : String} {span : Span} {rest : List Token} (stop : ¬ DotAt rest) :
      DottedForm name span [] rest name span
  | more {name name' : String} {span span' : Span} {d t : Token} {ts rest : List Token}
      (dot : d.kind = .dot) (word : t.kind = .ident)
      (tail : DottedForm (name ++ "." ++ identName t.text) ⟨span.start, t.span.stop⟩ ts rest
        name' span') : DottedForm name span (d :: t :: ts) rest name' span'

/-- Holds where a namespace or type declaration begins in a file. -/
structure DeclarationAt (ts : List Token) : Prop where
  member : MemberAt ts
  noUsing : ¬ UsingAt ts
  noExtern : ¬ ExternAt ts

/-- Holds where attribute lists with targets are followed by no declaration. -/
structure NoDeclaration (rest : List Token) : Prop where
  noType : ¬ TypeAt rest
  noSpace : kindAt rest 0 ≠ .kwNamespace
  noEnum : kindAt rest 0 ≠ .kwEnum
  noDelegate : kindAt rest 0 ≠ .kwDelegate

mutual

/-- The members of a file or namespace. -/
inductive MembersForm (slice : Span → String) : List Token → List Token → List UsingDirective →
    List Member → List Ident → Prop
  | done {rest : List Token} (stop : kindAt rest 0 = .eof ∨ kindAt rest 0 = .rbrace) :
      MembersForm slice [] rest [] [] []
  | semi {s : Token} {ts rest : List Token} {us : List UsingDirective} {ms : List Member}
      {is : List Ident} (semi : s.kind = .semi) (tail : MembersForm slice ts rest us ms is) :
      MembersForm slice (s :: ts) rest us ms is
  | using {ts vs rest : List Token} {u : UsingDirective} {us : List UsingDirective}
      {ms : List Member} {is : List Ident} (directive : UsingForm slice ts (vs ++ rest) u)
      (tail : MembersForm slice vs rest us ms is) :
      MembersForm slice (ts ++ vs) rest (u :: us) ms (idents ts ++ is)
  | external {ts vs rest : List Token} {us : List UsingDirective} {ms : List Member}
      {is : List Ident} (start : ExternAt (ts ++ (vs ++ rest)))
      (form : StatementForm ts (vs ++ rest)) (tail : MembersForm slice vs rest us ms is) :
      MembersForm slice (ts ++ vs) rest us ms (idents ts ++ is)
  | member {ts vs rest : List Token} {m : Option Member} {us : List UsingDirective}
      {ms : List Member} {js is : List Ident} (start : DeclarationAt (ts ++ (vs ++ rest)))
      (member : FileMemberForm slice ts (vs ++ rest) m js)
      (tail : MembersForm slice vs rest us ms is) :
      MembersForm slice (ts ++ vs) rest us (m.toList ++ ms) (js ++ is)

/-- A namespace or type declaration, or what the tree does not keep. -/
inductive FileMemberForm (slice : Span → String) : List Token → List Token → Option Member →
    List Ident → Prop
  | type {as ms ds rest : List Token} {attributes : List AttributeList} {d : TypeDecl}
      (attributesForm : AttributeListsForm as (ms ++ (ds ++ rest)) attributes)
      (modifiers : ModifiersForm ms (ds ++ rest))
      (decl : DeclForm (startOf (as ++ (ms ++ ds))) attributes (ms.map (·.text)) ds rest d) :
      FileMemberForm slice (as ++ (ms ++ ds)) rest (some (.type d)) (idents (as ++ ms))
  | space {as ms ns rest : List Token} {attributes : List AttributeList} {n : NamespaceDecl}
      {is : List Ident} (attributesForm : AttributeListsForm as (ms ++ (ns ++ rest)) attributes)
      (modifiers : ModifiersForm ms (ns ++ rest))
      (space : SpaceForm slice (startOf (as ++ (ms ++ ns))) ns rest n is) :
      FileMemberForm slice (as ++ (ms ++ ns)) rest (some (.space n)) (idents (as ++ ms) ++ is)
  | enum {as ms es rest : List Token} {attributes : List AttributeList}
      (attributesForm : AttributeListsForm as (ms ++ (es ++ rest)) attributes)
      (modifiers : ModifiersForm ms (es ++ rest)) (enum : EnumForm es rest) :
      FileMemberForm slice (as ++ (ms ++ es)) rest none (idents (as ++ (ms ++ es)))
  | delegate {as ms ds rest : List Token} {attributes : List AttributeList}
      (attributesForm : AttributeListsForm as (ms ++ (ds ++ rest)) attributes)
      (modifiers : ModifiersForm ms (ds ++ rest)) (word : kindAt (ds ++ rest) 0 = .kwDelegate)
      (form : StatementForm ds rest) :
      FileMemberForm slice (as ++ (ms ++ ds)) rest none (idents (as ++ ms))
  | attributes {as rest : List Token} {attributes : List AttributeList}
      (attributesForm : AttributeListsForm as rest attributes) (noModifiers : ModifiersForm [] rest)
      (stop : NoDeclaration rest) (some : attributes ≠ [])
      (targets : ∀ l ∈ attributes, l.target.isSome = true) :
      FileMemberForm slice as rest none (idents as)

/-- A namespace from its keyword. -/
inductive SpaceForm (slice : Span → String) : Nat → List Token → List Token → NamespaceDecl →
    List Ident → Prop
  | file {start : Nat} {k t s : Token} {ns ts rest : List Token} {name : String} {span : Span}
      {us : List UsingDirective} {ms : List Member} {is : List Ident} (word : k.kind = .kwNamespace)
      (first : t.kind = .ident)
      (dotted : DottedForm (identName t.text) t.span ns (s :: (ts ++ rest)) name span)
      (semi : s.kind = .semi) (members : MembersForm slice ts rest us ms is) :
      SpaceForm slice start (k :: t :: (ns ++ s :: ts)) rest
        { name, nameSpan := span, fileScoped := true, usings := us, members := ms
          span := ⟨start, stopOf s.span.stop ts⟩, bodyStart := s.span.stop }
        (idents (t :: ns) ++ is)
  | braces {start : Nat} {k t o c : Token} {ns ts ss rest : List Token} {name : String}
      {span : Span} {us : List UsingDirective} {ms : List Member} {is : List Ident}
      (word : k.kind = .kwNamespace) (first : t.kind = .ident)
      (dotted : DottedForm (identName t.text) t.span ns (o :: (ts ++ c :: (ss ++ rest))) name span)
      (opener : o.kind = .lbrace) (members : MembersForm slice ts (c :: (ss ++ rest)) us ms is)
      (closer : c.kind = .rbrace) (semi : OptionalForm .semi ss rest) :
      SpaceForm slice start (k :: t :: (ns ++ o :: (ts ++ c :: ss))) rest
        { name, nameSpan := span, fileScoped := false, usings := us, members := ms
          span := ⟨start, stopOf c.span.stop ss⟩, bodyStart := o.span.stop }
        (idents (t :: ns) ++ is)

end

/-- Members end before a closing brace or at the end. -/
theorem MembersForm.stop {slice : Span → String} {ts rest : List Token}
    {us : List UsingDirective} {ms : List Member} {is : List Ident} :
    MembersForm slice ts rest us ms is → kindAt rest 0 = .eof ∨ kindAt rest 0 = .rbrace
  | .done stop => stop
  | .semi _ tail => tail.stop
  | .using _ tail => tail.stop
  | .external _ _ tail => tail.stop
  | .member _ _ tail => tail.stop

theorem UsingForm.at {slice : Span → String} {ts rest : List Token} {u : UsingDirective}
    (h : UsingForm slice ts rest u) : ts ≠ [] ∧ UsingAt (ts ++ rest) ∧ MemberAt (ts ++ rest) := by
  cases h with
  | mk global word _ _ _ =>
    cases global with
    | none =>
      refine ⟨by simp, .inl word, ?_⟩
      simp [MemberAt, word]
    | @word g h =>
      have hk := kind_of_wordAt h
      refine ⟨by simp, .inr ⟨wordAt_singleton.symm.trans h, word⟩, ?_⟩
      simp [MemberAt, hk]

theorem SpaceForm.word {slice : Span → String} {start : Nat} {ts rest : List Token}
    {n : NamespaceDecl} {is : List Ident} (h : SpaceForm slice start ts rest n is) :
    ts ≠ [] ∧ kindAt (ts ++ rest) 0 = .kwNamespace := by
  cases h with
  | file word _ _ _ _ => exact ⟨by simp, word⟩
  | braces word _ _ _ _ _ _ => exact ⟨by simp, word⟩

theorem FileMemberForm.ne_nil {slice : Span → String} {ts rest : List Token} {m : Option Member}
    {is : List Ident} (h : FileMemberForm slice ts rest m is) : ts ≠ [] := by
  cases h with
  | type _ _ decl => simp [decl.ne_nil]
  | space _ _ space => simp [(SpaceForm.word space).1]
  | enum _ _ enum =>
    cases enum
    simp
  | delegate _ _ word form =>
    have := form.ne_nil ⟨by simp [word], by simp [word], by simp [word]⟩
    simp [this]
  | attributes attributesForm _ _ some _ =>
    rintro rfl
    cases attributesForm
    exact some rfl

end SelfTypeLint.Grammar
