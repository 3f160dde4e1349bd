import Mathlib.Data.List.Find
import SelfTypeLint.Proofs.Symbol.OwnName

/-!
# The types around a declaration

Where a type is among those around a declaration, the declaration is nested in one of the type's. A name
that stands for a parameter stands for one of the innermost type that has a parameter of the name.
-/

namespace SelfTypeLint

namespace SymbolTable

variable {t : SymbolTable} {i o : TypeId}

/-- What is further out than a type is around it. -/
theorem around_of_split {as bs : List TypeId} (h : t.typeChain i = as ++ o :: bs) :
    ∀ a ∈ as, t.Around a o := by
  induction i using Nat.strongRecOn generalizing as with
  | ind i ih =>
    intro a ha
    have hall : o ∈ t.typeChain i := by
      rw [h]
      simp
    cases as with
    | nil => exact absurd ha List.not_mem_nil
    | cons c as =>
      rw [typeChain] at h
      split at h
      · next outer _ =>
        split at h
        · next hlt =>
          obtain ⟨rfl, hrest⟩ := List.cons.inj h
          rcases List.mem_cons.1 ha with rfl | ha
          · exact around_of_mem_typeChain hall
          · exact ih outer hlt hrest a ha
        · simp at h
      · simp at h

/-- Where a type is around that of a declaration, the declaration is nested in one of the type. -/
theorem Faithful.exists_around {trees : List SyntaxTree} (h : t.Faithful trees) {tree : SyntaxTree}
    (htree : tree ∈ trees) {d : TypeDecl} (hd : d ∈ tree.typeDecls)
    (hi : t.declaredType? tree.file d.nameSpan = some i) (ho : t.Around i o) :
    ∃ f ∈ tree.typeDecls, t.declaredType? tree.file f.nameSpan = some o ∧ d ∈ f.withNested := by
  induction ho using Relation.ReflTransGen.head_induction_on generalizing d with
  | refl => exact ⟨d, hd, hi, d.mem_withNested_self⟩
  | head hstep _ ih =>
    obtain ⟨s, hs, hcontaining⟩ := hstep
    obtain ⟨container, i', s', hstands, hi', hs', hkey, -⟩ := h.declared tree htree d hd
    obtain rfl := Option.some.inj (hi.symm.trans hi')
    obtain rfl := Option.some.inj (hs.symm.trans hs')
    have hcontainer : s.key.container = container := congrArg TypeKey.container hkey
    rw [TypeSymbol.key, hcontaining] at hcontainer
    cases hstands with
    | space htop =>
      obtain ⟨m, -, hm⟩ := List.mem_flatMap.1 htop
      obtain ⟨name, hname⟩ := Member.exists_space_of_mem_tops hm
      exact absurd (hcontainer.trans hname) (by simp)
    | @type e _ _ he hnested houter =>
      obtain rfl := Container.type.inj hcontainer
      obtain ⟨f, hf, hfo, hef⟩ := ih he houter
      refine ⟨f, hf, hfo, (TypeDecl.withNested_sublist f hef).subset ?_⟩
      exact TypeDecl.mem_withNested_of_nested hnested d.mem_withNested_self

/-! ## Parameters by name -/

/-- The first parameter of a type with a name. -/
def formalNamed? (t : SymbolTable) (name : String) (i : TypeId) : Option TypeParamId := do
  let symbol ← t.typeSymbol? i
  symbol.typeParams.find? fun p => (t.typeParam? p).any (·.name == name)

/-- What is found is a parameter of the type with the name. -/
theorem Faithful.formalNamed?_eq_some {trees : List SyntaxTree} (h : t.Faithful trees) {name : String}
    {j : TypeParamId} (hj : t.formalNamed? name i = some j) :
    ∃ p, t.typeParam? j = some p ∧ p.owner = i ∧ p.name = name := by
  obtain ⟨s, hs, hfind⟩ := Option.bind_eq_some_iff.1 hj
  obtain ⟨k, hk⟩ := List.mem_iff_getElem?.1 (List.mem_of_find?_eq_some hfind)
  obtain ⟨p, hp, howner, -⟩ := h.formal i s k j hs hk
  have hname := List.find?_some hfind
  rw [hp, Option.any_some, beq_iff_eq] at hname
  exact ⟨p, hp, howner, hname⟩

/-- Parameters of a type that have one name in one table just if they have another in the other are found
alike by these names. -/
theorem formalNamed?_congr {t' : SymbolTable} {name name' : String}
    (hparams : (t'.typeSymbol? i).map (·.typeParams) = (t.typeSymbol? i).map (·.typeParams))
    (hnames : ∀ s, t.typeSymbol? i = some s → ∀ j ∈ s.typeParams,
      (t'.typeParam? j).any (·.name == name') = (t.typeParam? j).any (·.name == name)) :
    t'.formalNamed? name' i = t.formalNamed? name i := by
  rw [formalNamed?, formalNamed?]
  cases hs : t.typeSymbol? i with
  | none =>
    rw [hs, Option.map_none, Option.map_eq_none_iff] at hparams
    rw [hparams]
    rfl
  | some s =>
    rw [hs, Option.map_some, Option.map_eq_some_iff] at hparams
    obtain ⟨s', hs', heq⟩ := hparams
    rw [hs']
    simp only [Option.bind_eq_bind, Option.bind_some, heq]
    exact List.find?_congr fun j hj => hnames s hs j hj

end SymbolTable

namespace Scope

/-- In a declaration a name stands for the parameter that it is in the innermost type that has one of the
name. -/
theorem typeParam?_ofDecl (t : SymbolTable) (tree : SyntaxTree) (d : TypeDecl) (owner : TypeId)
    (name : String) : (ofDecl t tree d owner).typeParam? name =
      (t.typeChain owner).findSome? (t.formalNamed? name) := rfl

/-- A name that means a parameter stands for it. -/
theorem asParam?_of_resolve {s : Scope} {isGlobal : Bool} {segments : List (NameSegment TypeExpr)}
    {span : Span} {j : TypeParamId} (h : s.resolve (.path isGlobal segments span) = .param j) :
    s.asParam? isGlobal segments = some j := by
  rw [resolve_path] at h
  split at h
  · next hj => rw [hj, TypeRef.param.inj h]
  · split at h <;> exact absurd h (by simp)

end Scope

end SelfTypeLint
