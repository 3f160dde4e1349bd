import SelfTypeLint.Proofs.Symbol.Faithful

/-!
# Paths of types

A type is told by the types and the namespace around it. Its number depends on the order in which types
are declared, its path does not: a table finds the members of a container by their paths, and the
qualified name and the number of parameters are read off the path.
-/

namespace SelfTypeLint

/-- A type by what it stands in. -/
inductive TypePath
  | top (space name : String) (arity : Nat)
  | inner (outer : TypePath) (name : String) (arity : Nat)
  deriving DecidableEq

namespace TypePath

/-- The number of type parameters. -/
def arity : TypePath → Nat
  | top _ _ arity | inner _ _ arity => arity

/-- The simple name. -/
def name : TypePath → String
  | top _ name _ | inner _ name _ => name

/-- The qualified name. -/
def fullName : TypePath → String
  | top space name _ => Dotted.join space name
  | inner outer name _ => outer.fullName ++ "." ++ name

end TypePath

namespace SymbolTable

/-- The path of the type with a number. A type has a smaller number than those in it. -/
def path? (t : SymbolTable) (i : TypeId) : Option TypePath := do
  let s ← t.typeSymbol? i
  match s.containingType with
  | none => some (.top s.space s.name s.typeParams.length)
  | some o => if o < i then (t.path? o).map (.inner · s.name s.typeParams.length) else none
  termination_by i

/-- The path of the owner of a parameter, and its place among the owner's parameters. -/
def paramPath? (t : SymbolTable) (j : TypeParamId) : Option (TypePath × Nat) := do
  let p ← t.typeParam? j
  (t.path? p.owner).map (·, p.ordinal)

variable {t : SymbolTable} {parts : List Part} {i j o : TypeId} {s : TypeSymbol} {p q : TypePath}

theorem lt_size_of_path? (hp : t.path? i = some p) : i < t.types.size := by
  rw [path?] at hp
  obtain ⟨s, hs, -⟩ := Option.bind_eq_some_iff.1 hp
  exact lt_size_of_getElem? hs

theorem path?_eq_top (hs : t.typeSymbol? i = some s) (ho : s.containingType = none) :
    t.path? i = some (.top s.space s.name s.typeParams.length) := by
  rw [path?, hs]
  simp [ho]

theorem Records.path?_eq_inner (h : t.Records parts) (hs : t.typeSymbol? i = some s)
    (ho : s.containingType = some o) :
    t.path? i = (t.path? o).map (.inner · s.name s.typeParams.length) := by
  rw [path?, hs]
  simp [ho, h.outer i s o hs ho]

/-- Every type has a path. -/
theorem Records.exists_path (h : t.Records parts) (hi : i < t.types.size) :
    ∃ p, t.path? i = some p := by
  induction i using Nat.strongRecOn with
  | ind i ih =>
    have hs : t.typeSymbol? i = some t.types[i] := Array.getElem?_eq_getElem hi
    cases ho : t.types[i].containingType with
    | none => exact ⟨_, path?_eq_top hs ho⟩
    | some o =>
      have hlt := h.outer i _ o hs ho
      obtain ⟨p, hp⟩ := ih o hlt (Nat.lt_trans hlt hi)
      exact ⟨_, by rw [h.path?_eq_inner hs ho, hp, Option.map_some]⟩

/-- What the last step of a path says of the type's symbol. -/
theorem Records.symbol_of_path (h : t.Records parts) (hp : t.path? i = some p) :
    ∃ s, t.typeSymbol? i = some s ∧ s.name = p.name ∧ s.typeParams.length = p.arity ∧
      match p with
      | .top space _ _ => s.containingType = none ∧ s.space = space
      | .inner outer _ _ => ∃ o, s.containingType = some o ∧ t.path? o = some outer := by
  obtain ⟨s, hs⟩ : ∃ s, t.typeSymbol? i = some s :=
    ⟨_, Array.getElem?_eq_getElem (lt_size_of_path? hp)⟩
  refine ⟨s, hs, ?_⟩
  cases ho : s.containingType with
  | none =>
    rw [path?_eq_top hs ho] at hp
    obtain rfl := Option.some.inj hp
    exact ⟨rfl, rfl, rfl, rfl⟩
  | some o =>
    rw [h.path?_eq_inner hs ho] at hp
    obtain ⟨outer, houter, rfl⟩ := Option.map_eq_some_iff.1 hp
    exact ⟨rfl, rfl, o, rfl, houter⟩

/-- A type of a namespace is found by its name. -/
theorem Records.member?_space_iff (h : t.Records parts) {space name : String} {arity : Nat} :
    t.member? (.space space) name arity = some i ↔ t.path? i = some (.top space name arity) := by
  constructor
  · intro hi
    obtain ⟨s, hs, hkey⟩ := (h.members _ i).1 hi
    obtain ⟨hcontainer, rfl, rfl⟩ := TypeKey.mk.inj hkey
    cases ho : s.containingType with
    | none =>
      rw [ho] at hcontainer
      rw [path?_eq_top hs ho, Container.space.inj hcontainer]
    | some o =>
      rw [ho] at hcontainer
      exact absurd hcontainer (by simp)
  · intro hp
    obtain ⟨s, hs, hname, harity, ho, hspace⟩ := h.symbol_of_path hp
    refine (h.members _ i).2 ⟨s, hs, ?_⟩
    rw [TypeSymbol.key, ho, hname, harity, hspace]
    rfl

/-- Types are told apart by their paths. -/
theorem Records.eq_of_path (h : t.Records parts) (hi : t.path? i = some p)
    (hj : t.path? j = some p) : i = j := by
  induction p generalizing i j with
  | top space name arity =>
    have := h.member?_space_iff.2 hi
    rw [h.member?_space_iff.2 hj] at this
    exact (Option.some.inj this).symm
  | inner outer name arity ih =>
    obtain ⟨s, hs, hname, harity, o, ho, houter⟩ := h.symbol_of_path hi
    obtain ⟨s', hs', hname', harity', o', ho', houter'⟩ := h.symbol_of_path hj
    have hkey : s.key = s'.key := by
      rw [TypeSymbol.key, TypeSymbol.key, ho, ho', hname, hname', harity, harity',
        ih houter houter']
    have hfound := (h.members _ i).2 ⟨s, hs, rfl⟩
    rw [hkey, (h.members _ j).2 ⟨s', hs', rfl⟩] at hfound
    exact (Option.some.inj hfound).symm

/-- A type nested in another one is found by its name. -/
theorem Records.member?_type_iff (h : t.Records parts) (hq : t.path? o = some q) {name : String}
    {arity : Nat} :
    t.member? (.type o) name arity = some i ↔ t.path? i = some (.inner q name arity) := by
  constructor
  · intro hi
    obtain ⟨s, hs, hkey⟩ := (h.members _ i).1 hi
    obtain ⟨hcontainer, rfl, rfl⟩ := TypeKey.mk.inj hkey
    cases ho : s.containingType with
    | none =>
      rw [ho] at hcontainer
      exact absurd hcontainer (by simp)
    | some o' =>
      rw [ho] at hcontainer
      rw [h.path?_eq_inner hs ho, Container.type.inj hcontainer, hq, Option.map_some]
  · intro hp
    obtain ⟨s, hs, hname, harity, o', ho, houter⟩ := h.symbol_of_path hp
    refine (h.members _ i).2 ⟨s, hs, ?_⟩
    rw [TypeSymbol.key, ho, hname, harity, h.eq_of_path houter hq]
    rfl

/-- Nothing is nested in what is no type. -/
theorem Records.member?_type_eq_none (h : t.Records parts) (ho : t.path? o = none) (name : String)
    (arity : Nat) : t.member? (.type o) name arity = none := by
  by_contra hne
  obtain ⟨i, hi⟩ := Option.ne_none_iff_exists'.1 hne
  obtain ⟨s, hs, hkey⟩ := (h.members _ i).1 hi
  have hcontainer := congrArg TypeKey.container hkey
  cases hc : s.containingType with
  | none => simp [TypeSymbol.key, hc] at hcontainer
  | some o' =>
    obtain rfl : o' = o := by simpa [TypeSymbol.key, hc] using hcontainer
    obtain ⟨q, hq⟩ := h.exists_path (Nat.lt_trans (h.outer i s o' hs hc) (lt_size_of_getElem? hs))
    rw [ho] at hq
    exact absurd hq (by simp)

theorem Records.fullName_of_path (h : t.Records parts) (hp : t.path? i = some p)
    (hs : t.typeSymbol? i = some s) : s.fullName = p.fullName := by
  induction p generalizing i s with
  | top space name arity =>
    obtain ⟨s', hs', hname, -, ho, hspace⟩ := h.symbol_of_path hp
    obtain rfl := Option.some.inj (hs.symm.trans hs')
    rw [h.fullName i s hs, ho, Option.bind_none, TypeSymbol.qualifiedName, hname, hspace]
    rfl
  | inner outer name arity ih =>
    obtain ⟨s', hs', hname, -, o, ho, houter⟩ := h.symbol_of_path hp
    obtain rfl := Option.some.inj (hs.symm.trans hs')
    obtain ⟨so, hso, -⟩ := h.symbol_of_path houter
    rw [h.fullName i s hs, ho, Option.bind_some, fullName?, hso, Option.map_some, ih houter hso,
      TypeSymbol.qualifiedName, hname]
    rfl

/-! ## Parameters -/

/-- A type has a parameter at a place just if the parameter's path says so. -/
theorem Records.typeParams_iff (h : t.Records parts) (hp : t.path? i = some p)
    (hs : t.typeSymbol? i = some s) {k : Nat} {x : TypeParamId} :
    s.typeParams[k]? = some x ↔ t.paramPath? x = some (p, k) := by
  constructor
  · intro hx
    obtain ⟨symbol, hsymbol, rfl, rfl⟩ := h.formal i s k x hs hx
    rw [paramPath?, show t.typeParam? x = some symbol from hsymbol]
    simp [hp]
  · intro hx
    rw [paramPath?] at hx
    obtain ⟨symbol, hsymbol, hx⟩ := Option.bind_eq_some_iff.1 hx
    obtain ⟨q, hq, heq⟩ := Option.map_eq_some_iff.1 hx
    obtain ⟨rfl, rfl⟩ := Prod.mk.inj heq
    obtain ⟨-, s', hs', hk⟩ := h.param x symbol hsymbol
    obtain rfl := h.eq_of_path hq hp
    obtain rfl := Option.some.inj (hs.symm.trans hs')
    exact hk

/-- Parameters are told apart by their paths. -/
theorem Records.eq_of_paramPath (h : t.Records parts) {x y : TypeParamId} {a : TypePath × Nat}
    (hx : t.paramPath? x = some a) (hy : t.paramPath? y = some a) : x = y := by
  obtain ⟨p, k⟩ := a
  have hpath : ∃ i, t.path? i = some p := by
    rw [paramPath?] at hx
    obtain ⟨symbol, -, hx⟩ := Option.bind_eq_some_iff.1 hx
    obtain ⟨q, hq, heq⟩ := Option.map_eq_some_iff.1 hx
    exact ⟨_, (Prod.mk.inj heq).1 ▸ hq⟩
  obtain ⟨i, hi⟩ := hpath
  obtain ⟨s, hs, -⟩ := h.symbol_of_path hi
  have hfirst := (h.typeParams_iff hi hs).2 hx
  rw [(h.typeParams_iff hi hs).2 hy] at hfirst
  exact (Option.some.inj hfirst).symm

end SymbolTable

end SelfTypeLint
