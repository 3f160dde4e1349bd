import SelfTypeLint.Proofs.Symbol.Origins

/-!
# Tables of trees in another order

The numbers of types and parameters, and the order of what a table lists, depend on the order of the
trees that it is made of. Nothing else does: between the tables of some trees and of the same trees in
another order there are renumberings of types and parameters, and up to these the tables find the same
types for names, and say the same of types and parameters.
-/

namespace SelfTypeLint

/-- A place under a renumbering of files. -/
def Location.renumber (σ : FileId → FileId) (l : Location) : Location := ⟨σ l.file, l.span⟩

/-- The tree of another file with the same declarations. -/
def SyntaxTree.refile (t : SyntaxTree) (file : FileId) : SyntaxTree := { t with file }

theorem Member.mem_tops_refile {file : FileId} (file' : FileId) {space : String} {m : Member}
    {container : Container} {d : TypeDecl} (h : ⟨file, container, d⟩ ∈ m.tops file space) :
    ⟨file', container, d⟩ ∈ m.tops file' space := by
  match m with
  | .type e =>
    rw [tops_type] at h ⊢
    obtain ⟨-, rfl, rfl⟩ := Standing.mk.inj (List.mem_singleton.1 h)
    exact List.mem_singleton.2 rfl
  | .space n =>
    rw [tops_space] at h ⊢
    obtain ⟨m, hm, hd⟩ := List.mem_flatMap.1 h
    have hlt : sizeOf m < 1 + sizeOf n :=
      Nat.lt_trans (List.sizeOf_lt_of_mem hm) (Nat.lt_add_left 1 n.sizeOf_members_lt)
    exact List.mem_flatMap.2 ⟨m, hm, mem_tops_refile file' hd⟩
  termination_by sizeOf m
  decreasing_by simpa using hlt

/-- Declarations have the same paths in another file. -/
theorem Located.refile {tree : SyntaxTree} {p : TypePath} {d : TypeDecl} (h : Located tree p d)
    (file : FileId) : Located (tree.refile file) p d := by
  induction h with
  | top htop =>
    obtain ⟨m, hm, hd⟩ := List.mem_flatMap.1 htop
    exact .top (List.mem_flatMap.2 ⟨m, hm, m.mem_tops_refile file hd⟩)
  | inner _ hd ih => exact .inner ih hd

/-- Numbers that are told apart by what they stand for can be exchanged for others that stand for the
same. -/
theorem exists_renumbering {α : Type} (key key' : Nat → Option α) (size : Nat)
    (hapart : ∀ i j a, key i = some a → key j = some a → i = j)
    (hsize : ∀ i a, key' i = some a → i < size)
    (htotal : ∀ i a, key i = some a → ∃ i', key' i' = some a) :
    ∃ f : Nat → Nat, (∀ i j, f i = f j → i = j) ∧ ∀ i, key' (f i) = key i := by
  have hchoice : ∀ i, ∃ i', key' i' = key i ∧ (key i = none → i' = size + i) := by
    intro i
    cases hi : key i with
    | none =>
      refine ⟨size + i, ?_, fun _ => rfl⟩
      by_contra hne
      obtain ⟨a, ha⟩ := Option.ne_none_iff_exists'.1 hne
      have := hsize _ a ha
      omega
    | some a =>
      obtain ⟨i', hi'⟩ := htotal i a hi
      exact ⟨i', hi', fun h => absurd h (by simp)⟩
  choose f hf hnone using hchoice
  refine ⟨f, fun i j hij => ?_, hf⟩
  have hkeys : key i = key j := by rw [← hf i, hij, hf j]
  cases hi : key i with
  | none =>
    have h1 := hnone i hi
    have h2 := hnone j (hkeys ▸ hi)
    omega
  | some a => exact hapart i j a hi (hkeys ▸ hi)

namespace SymbolTable

/-- Holds of lists of the same trees in some orders, where files are renumbered. -/
structure Reorders (σ : FileId → FileId) (trees trees' : List SyntaxTree) : Prop where
  injective : ∀ i j, σ i = σ j → i = j
  mem : ∀ tree', tree' ∈ trees' ↔ ∃ tree ∈ trees, tree' = tree.refile (σ tree.file)

section

variable {trees trees' : List SyntaxTree} {σ : FileId → FileId} (hσ : Reorders σ trees trees')
  (hapart : (declaredSites trees).Nodup) (hapart' : (declaredSites trees').Nodup)

include hσ

theorem Reorders.mem_refile {tree : SyntaxTree} (htree : tree ∈ trees) :
    tree.refile (σ tree.file) ∈ trees' := (hσ.mem _).2 ⟨tree, htree, rfl⟩

/-- The same paths are declared in trees in another order. -/
theorem Reorders.exists_located_iff {p : TypePath} :
    (∃ tree ∈ trees', ∃ d, Located tree p d) ↔ ∃ tree ∈ trees, ∃ d, Located tree p d := by
  constructor
  · rintro ⟨tree', htree', d, hd⟩
    obtain ⟨tree, htree, rfl⟩ := (hσ.mem tree').1 htree'
    exact ⟨tree, htree, d, hd.refile tree.file⟩
  · rintro ⟨tree, htree, d, hd⟩
    exact ⟨_, hσ.mem_refile htree, d, hd.refile _⟩

include hapart hapart'

theorem Reorders.exists_path_iff {p : TypePath} :
    (∃ i, (bind trees').path? i = some p) ↔ ∃ i, (bind trees).path? i = some p := by
  rw [SymbolTable.exists_path_iff hapart, SymbolTable.exists_path_iff hapart',
    hσ.exists_located_iff]

end

/-! ## Types and parameters under their new numbers -/

/-- Holds of renumberings of the types and the parameters of one table to those of another one with the
same paths. -/
structure Renumbers (f : TypeId → TypeId) (g : TypeParamId → TypeParamId) (t t' : SymbolTable) :
    Prop where
  typeInjective : ∀ i j, f i = f j → i = j
  paramInjective : ∀ i j, g i = g j → i = j
  path : ∀ i, t'.path? (f i) = t.path? i
  paramPath : ∀ j, t'.paramPath? (g j) = t.paramPath? j
  /-- Every type of the new table has an old number. -/
  onto : ∀ i' p, t'.path? i' = some p → ∃ i, t.path? i = some p

theorem exists_of_paramPath {t : SymbolTable} {j : TypeParamId} {p : TypePath} {k : Nat}
    (h : t.paramPath? j = some (p, k)) :
    ∃ x, t.typeParam? j = some x ∧ t.path? x.owner = some p ∧ x.ordinal = k := by
  rw [paramPath?] at h
  obtain ⟨x, hx, h⟩ := Option.bind_eq_some_iff.1 h
  obtain ⟨q, hq, heq⟩ := Option.map_eq_some_iff.1 h
  obtain ⟨rfl, rfl⟩ := Prod.mk.inj heq
  exact ⟨x, hx, hq, rfl⟩

theorem Records.exists_paramPath_iff {t : SymbolTable} {parts : List Part} (h : t.Records parts)
    {p : TypePath} {k : Nat} :
    (∃ j, t.paramPath? j = some (p, k)) ↔ (∃ i, t.path? i = some p) ∧ k < p.arity := by
  constructor
  · rintro ⟨j, hj⟩
    obtain ⟨x, hx, hp, rfl⟩ := exists_of_paramPath hj
    obtain ⟨s, hs, -, harity, -⟩ := h.symbol_of_path hp
    have hk := (h.typeParams_iff hp hs).2 hj
    exact ⟨⟨_, hp⟩, harity ▸ (List.getElem?_eq_some_iff.1 hk).1⟩
  · rintro ⟨⟨i, hi⟩, hk⟩
    obtain ⟨s, hs, -, harity, -⟩ := h.symbol_of_path hi
    exact ⟨_, (h.typeParams_iff hi hs).1 (List.getElem?_eq_getElem (harity ▸ hk))⟩

/-- Between the tables of trees in two orders there are renumberings. -/
theorem Reorders.exists_renumbers {trees trees' : List SyntaxTree} {σ : FileId → FileId}
    (hσ : Reorders σ trees trees') (hapart : (declaredSites trees).Nodup)
    (hapart' : (declaredSites trees').Nodup) : ∃ f g, Renumbers f g (bind trees) (bind trees') := by
  obtain ⟨parts, hrecords, -⟩ := exists_records_bind trees
  obtain ⟨parts', hrecords', -⟩ := exists_records_bind trees'
  have hpaths : ∀ p, (∃ i, (bind trees').path? i = some p) ↔ ∃ i, (bind trees).path? i = some p :=
    fun p => hσ.exists_path_iff hapart hapart'
  obtain ⟨f, hf, hpath⟩ := exists_renumbering (bind trees).path? (bind trees').path? _
    (fun i j p hi hj => hrecords.eq_of_path hi hj) (fun i p hi => lt_size_of_path? hi)
    fun i p hi => (hpaths p).2 ⟨i, hi⟩
  have hsize : ∀ (j : TypeParamId) (a : TypePath × Nat), (bind trees').paramPath? j = some a →
      j < (bind trees').params.size := by
    intro j a hj
    obtain ⟨x, hx, -⟩ := exists_of_paramPath (p := a.1) (k := a.2) hj
    exact (Array.getElem?_eq_some_iff.1 hx).1
  have htotal : ∀ (j : TypeParamId) (a : TypePath × Nat), (bind trees).paramPath? j = some a →
      ∃ j', (bind trees').paramPath? j' = some a := by
    intro j a hj
    rw [hrecords'.exists_paramPath_iff, hpaths, ← hrecords.exists_paramPath_iff]
    exact ⟨j, hj⟩
  obtain ⟨g, hg, hparamPath⟩ := exists_renumbering (bind trees).paramPath? (bind trees').paramPath? _
    (fun i j a hi hj => hrecords.eq_of_paramPath hi hj) hsize htotal
  exact ⟨f, g, hf, hg, hpath, hparamPath, fun i' p hp => (hpaths p).1 ⟨i', hp⟩⟩

namespace Renumbers

variable {f : TypeId → TypeId} {g : TypeParamId → TypeParamId} {t t' : SymbolTable}
  {parts parts' : List Part} (h : Renumbers f g t t') (ht : t.Records parts) (ht' : t'.Records parts')

include h ht ht'

omit ht in
/-- What finds types by their paths finds the renumbered types. -/
theorem eq_map_of_path {p : TypePath} {found found' : Option TypeId}
    (hfound : ∀ i, found = some i ↔ t.path? i = some p)
    (hfound' : ∀ i, found' = some i ↔ t'.path? i = some p) : found' = found.map f := by
  ext i'
  rw [hfound', Option.map_eq_some_iff]
  constructor
  · intro hi'
    obtain ⟨i, hi⟩ := h.onto i' p hi'
    exact ⟨i, (hfound i).2 hi, ht'.eq_of_path ((h.path i).trans hi) hi'⟩
  · rintro ⟨i, hi, rfl⟩
    exact (h.path i).trans ((hfound i).1 hi)

theorem member? (container : Container) (name : String) (arity : Nat) :
    t'.member? (container.map f) name arity = (t.member? container name arity).map f := by
  cases container with
  | space space =>
    exact h.eq_map_of_path ht' (fun i => ht.member?_space_iff) fun i => ht'.member?_space_iff
  | type o =>
    cases ho : t.path? o with
    | none =>
      rw [Container.map, ht.member?_type_eq_none ho, ht'.member?_type_eq_none ((h.path o).trans ho)]
      rfl
    | some q =>
      exact h.eq_map_of_path ht' (fun i => ht.member?_type_iff ho) fun i =>
        ht'.member?_type_iff ((h.path o).trans ho)

/-- A type keeps what its symbol says of it. -/
theorem typeSymbol? {i : TypeId} {s : TypeSymbol} (hs : t.typeSymbol? i = some s) :
    ∃ s', t'.typeSymbol? (f i) = some s' ∧ s'.name = s.name ∧ s'.fullName = s.fullName ∧
      s'.typeParams = s.typeParams.map g ∧ s'.containingType = s.containingType.map f := by
  obtain ⟨p, hp⟩ := ht.exists_path (lt_size_of_getElem? hs)
  have hp' := (h.path i).trans hp
  obtain ⟨s₀, hs₀, hname, harity, houter⟩ := ht.symbol_of_path hp
  obtain rfl := Option.some.inj (hs.symm.trans hs₀)
  obtain ⟨s', hs', hname', harity', houter'⟩ := ht'.symbol_of_path hp'
  refine ⟨s', hs', hname'.trans hname.symm,
    (ht'.fullName_of_path hp' hs').trans (ht.fullName_of_path hp hs).symm, ?_, ?_⟩
  · refine List.ext_getElem? fun k => ?_
    rw [List.getElem?_map]
    cases hk : s.typeParams[k]? with
    | none =>
      rw [List.getElem?_eq_none_iff, harity] at hk
      rw [Option.map_none, List.getElem?_eq_none_iff, harity']
      exact hk
    | some j =>
      rw [Option.map_some, ht'.typeParams_iff hp' hs', h.paramPath, ← ht.typeParams_iff hp hs]
      exact hk
  · cases p with
    | top space name arity => rw [houter.1, houter'.1, Option.map_none]
    | inner outer name arity =>
      obtain ⟨o, ho, hpath⟩ := houter
      obtain ⟨o', ho', hpath'⟩ := houter'
      rw [ho, ho', Option.map_some, ht'.eq_of_path hpath' ((h.path o).trans hpath)]

theorem typeSymbol?_eq_none {i : TypeId} (hs : t.typeSymbol? i = none) :
    t'.typeSymbol? (f i) = none := by
  by_contra hne
  obtain ⟨s', hs'⟩ := Option.ne_none_iff_exists'.1 hne
  obtain ⟨p, hp⟩ := ht'.exists_path (lt_size_of_getElem? hs')
  obtain ⟨s, hs'', -⟩ := ht.symbol_of_path ((h.path i).symm.trans hp)
  rw [hs] at hs''
  exact absurd hs'' (by simp)

theorem typeChain (i : TypeId) : t'.typeChain (f i) = (t.typeChain i).map f := by
  induction i using Nat.strongRecOn with
  | ind i ih =>
    rw [SymbolTable.typeChain, SymbolTable.typeChain]
    cases hs : t.typeSymbol? i with
    | none => rw [h.typeSymbol?_eq_none ht ht' hs]; rfl
    | some s =>
      obtain ⟨s', hs', -, -, -, houter⟩ := h.typeSymbol? ht ht' hs
      rw [hs', Option.bind_some, Option.bind_some, houter]
      cases ho : s.containingType with
      | none => rfl
      | some o =>
        have hlt := ht.outer i s o hs ho
        have hlt' : f o < f i := ht'.outer (f i) s' (f o) hs' (by rw [houter, ho, Option.map_some])
        simp only [Option.map_some, hlt, hlt', if_true, List.map_cons, ih o hlt]

/-- A parameter keeps its owner and its place. -/
theorem typeParam? {j : TypeParamId} {p : TypeParamSymbol} (hp : t.typeParam? j = some p) :
    ∃ p', t'.typeParam? (g j) = some p' ∧ p'.id = g j ∧ p'.owner = f p.owner ∧
      p'.ordinal = p.ordinal := by
  obtain ⟨-, s, hs, hk⟩ := ht.param j p hp
  obtain ⟨q, hq⟩ := ht.exists_path (lt_size_of_getElem? hs)
  have hpath := (h.paramPath j).trans ((ht.typeParams_iff hq hs).1 hk)
  obtain ⟨p', hp', howner, hordinal⟩ := exists_of_paramPath hpath
  exact ⟨p', hp', (ht'.param _ p' hp').1, ht'.eq_of_path howner ((h.path _).trans hq), hordinal⟩

omit ht in
theorem typeParam?_eq_none {j : TypeParamId} (hp : t.typeParam? j = none) :
    t'.typeParam? (g j) = none := by
  by_contra hne
  obtain ⟨p', hp'⟩ := Option.ne_none_iff_exists'.1 hne
  obtain ⟨-, s', hs', hk⟩ := ht'.param _ p' hp'
  obtain ⟨q, hq⟩ := ht'.exists_path (lt_size_of_getElem? hs')
  have hpath := (h.paramPath j).symm.trans ((ht'.typeParams_iff hq hs').1 hk)
  obtain ⟨p, hp'', -⟩ := exists_of_paramPath hpath
  rw [hp] at hp''
  exact absurd hp'' (by simp)

end Renumbers

end SymbolTable

end SelfTypeLint
