import Mathlib.Data.List.Nodup
import SelfTypeLint.Proofs.Reader.Spans
import SelfTypeLint.Proofs.Symbol.Declared
import SelfTypeLint.Proofs.Workspace.Documents

/-!
# Faithful symbol tables

The table of a workspace says of its trees what they say: numbers and indices agree, owners come before
what they own, each declaration and each parameter has its symbol, declarations share one just if they
are parts of one type, and a symbol's places are those of its parts.

The trees of a workspace declare their types and parameters at different places, so what the table
records of a place is what looking it up gives.
-/

namespace SelfTypeLint

namespace SymbolTable

/-- Holds of a declaration that stands in a container of a tree: a namespace, or the type of the
declaration around it. -/
inductive StandsIn (t : SymbolTable) (tree : SyntaxTree) : Container → TypeDecl → Prop
  | space {container : Container} {d : TypeDecl} (h : ⟨tree.file, container, d⟩ ∈ tree.tops) :
    StandsIn t tree container d
  | type {e d : TypeDecl} {outer : TypeId} (he : e ∈ tree.typeDecls) (hd : d ∈ e.nested)
    (houter : t.declaredType? tree.file e.nameSpan = some outer) : StandsIn t tree (.type outer) d

/-- Holds of a table that says of some trees what they say. -/
structure Faithful (t : SymbolTable) (trees : List SyntaxTree) : Prop where
  /-- A type is known by its index. -/
  typeId : ∀ (i : TypeId) (s : TypeSymbol), t.typeSymbol? i = some s → s.id = i
  /-- A type is named after what it stands in. -/
  fullName : ∀ (i : TypeId) (s : TypeSymbol), t.typeSymbol? i = some s →
    s.fullName = s.qualifiedName (s.containingType.bind t.fullName?)
  /-- A type comes after the type that it stands in. -/
  outer : ∀ (i : TypeId) (s : TypeSymbol) (o : TypeId), t.typeSymbol? i = some s →
    s.containingType = some o → o < i
  /-- A parameter is known by its index, and its owner has it at its place. -/
  param : ∀ (j : TypeParamId) (p : TypeParamSymbol), t.typeParam? j = some p →
    p.id = j ∧ ∃ s, t.typeSymbol? p.owner = some s ∧ s.typeParams[p.ordinal]? = some j
  /-- What a type has at a place is a parameter that it owns. -/
  formal : ∀ (i : TypeId) (s : TypeSymbol) (k : Nat) (j : TypeParamId),
    t.typeSymbol? i = some s → s.typeParams[k]? = some j →
    ∃ p, t.typeParam? j = some p ∧ p.owner = i ∧ p.ordinal = k
  /-- Each declaration has the symbol of a type with its container, name and arity, and each of its
  parameters the one that the type has at that place. -/
  declared : ∀ tree ∈ trees, ∀ d ∈ tree.typeDecls, ∃ container i s, StandsIn t tree container d ∧
    t.declaredType? tree.file d.nameSpan = some i ∧ t.typeSymbol? i = some s ∧
    s.key = ⟨container, d.name, d.arity⟩ ∧
    ∀ (k : Nat) (q : TypeParam), d.typeParams[k]? = some q → ∃ j,
      t.declaredTypeParam? tree.file q.nameSpan = some j ∧ s.typeParams[k]? = some j
  /-- Two declarations have one symbol just if they agree in container, name and arity. -/
  same : ∀ tree ∈ trees, ∀ tree' ∈ trees, ∀ d ∈ tree.typeDecls, ∀ d' ∈ tree'.typeDecls,
    ∀ container container', StandsIn t tree container d → StandsIn t tree' container' d' →
    (t.declaredType? tree.file d.nameSpan = t.declaredType? tree'.file d'.nameSpan ↔
      container = container' ∧ d.name = d'.name ∧ d.arity = d'.arity)
  /-- The places of a type are the names of its declarations, each once. -/
  locations : ∀ (i : TypeId) (s : TypeSymbol), t.typeSymbol? i = some s → s.locations.Nodup ∧
    ∀ l, l ∈ s.locations ↔ ∃ tree ∈ trees, ∃ d ∈ tree.typeDecls,
      t.declaredType? tree.file d.nameSpan = some i ∧ l = ⟨tree.file, d.nameSpan⟩
  /-- The places of a parameter are the names that declare it, each once. -/
  paramLocations : ∀ (j : TypeParamId) (p : TypeParamSymbol), t.typeParam? j = some p →
    p.locations.Nodup ∧ ∀ l, l ∈ p.locations ↔ ∃ tree ∈ trees, ∃ d ∈ tree.typeDecls,
      ∃ q ∈ d.typeParams, t.declaredTypeParam? tree.file q.nameSpan = some j ∧
        l = ⟨tree.file, q.nameSpan⟩

section

variable {t : SymbolTable} {trees : List SyntaxTree} {tree : SyntaxTree} {n : TypeDecl}
  {j : TypeId}

/-- The type of a nested declaration comes after that of the one around it. -/
theorem Faithful.lt_of_nested (h : t.Faithful trees) (htree : tree ∈ trees) {d : TypeDecl}
    {i : TypeId} (hd : d ∈ tree.typeDecls) (hn : n ∈ d.nested)
    (hi : t.declaredType? tree.file d.nameSpan = some i)
    (hj : t.declaredType? tree.file n.nameSpan = some j) : i < j := by
  have hmem : n ∈ tree.typeDecls := tree.mem_typeDecls_of_withNested hd
    (TypeDecl.mem_withNested_of_nested hn n.mem_withNested_self)
  obtain ⟨container, j', s, hstands, hj', hs, hkey, -⟩ := h.declared tree htree n hmem
  obtain rfl : j = j' := Option.some.inj (hj.symm.trans hj')
  obtain ⟨rfl, -⟩ := (h.same tree htree tree htree n hmem n hmem _ _ hstands
    (.type hd hn hi)).1 rfl
  have hcontainer : s.key.container = .type i := congrArg TypeKey.container hkey
  unfold TypeSymbol.key at hcontainer
  dsimp only at hcontainer
  split at hcontainer
  · next outer houter =>
    obtain rfl := Container.type.inj hcontainer
    exact h.outer j s _ hs houter
  · exact absurd hcontainer (by simp)

/-- A declaration nested in another one, however deep, is of a later type. -/
theorem Faithful.eq_or_lt_of_withNested (h : t.Faithful trees) (htree : tree ∈ trees)
    {d : TypeDecl} {i : TypeId} (hd : d ∈ tree.typeDecls) (hn : n ∈ d.withNested)
    (hi : t.declaredType? tree.file d.nameSpan = some i)
    (hj : t.declaredType? tree.file n.nameSpan = some j) : n = d ∨ i < j := by
  rw [TypeDecl.withNested_eq] at hn
  rcases List.mem_cons.1 hn with rfl | hn
  · exact .inl rfl
  · obtain ⟨m, hm, hnm⟩ := List.mem_flatMap.1 hn
    have hlt := TypeDecl.sizeOf_lt_of_mem_nested hm
    have hmem : m ∈ tree.typeDecls := tree.mem_typeDecls_of_withNested hd
      (TypeDecl.mem_withNested_of_nested hm m.mem_withNested_self)
    obtain ⟨-, k, -, -, hk, -⟩ := h.declared tree htree m hmem
    have hik := h.lt_of_nested htree hd hm hi hk
    rcases h.eq_or_lt_of_withNested htree hmem hnm hk hj with rfl | hkj
    · exact .inr (Option.some.inj (hk.symm.trans hj) ▸ hik)
    · exact .inr (Nat.lt_trans hik hkj)
  termination_by sizeOf d

end

/-! ## Binding trees -/

theorem types_initial (i : TypeId) :
    initial.types[i]? = (predefinedTypes[i]?).map fun x => predefinedSymbol i x.2 := by
  rw [initial]
  simp only [List.getElem?_toArray, List.getElem?_map, List.getElem?_zipIdx, Option.map_map]
  cases predefinedTypes[i]? with
  | none => rfl
  | some x => simp

/-- The table that trees are declared in is made of no parts. -/
theorem records_initial : initial.Records [] := by
  have hsymbol : ∀ {i s}, initial.types[i]? = some s →
      ∃ x, predefinedTypes[i]? = some x ∧ s = predefinedSymbol i x.2 := by
    intro i s hs
    rw [types_initial] at hs
    obtain ⟨x, hx, rfl⟩ := Option.map_eq_some_iff.1 hs
    exact ⟨x, hx, rfl⟩
  have hmembers : ∀ x ∈ predefinedTypes.zipIdx,
      initial.members.lookup ⟨.space "System", x.1.2, 0⟩ = some x.2 := by decide
  have hlisted : ∀ x ∈ initial.members, ∃ y, predefinedTypes[x.2]? = some y ∧
      x.1 = ⟨.space "System", y.2, 0⟩ := by
    intro x hx
    obtain ⟨y, hy, rfl⟩ := List.mem_map.1 hx
    exact ⟨y.1, List.mem_zipIdx_iff_getElem?.1 hy, rfl⟩
  constructor
  case typeId =>
    intro i s hs
    obtain ⟨x, -, rfl⟩ := hsymbol hs
    rfl
  case fullName =>
    intro i s hs
    obtain ⟨x, -, rfl⟩ := hsymbol hs
    rfl
  case outer =>
    intro i s o hs ho
    obtain ⟨x, -, rfl⟩ := hsymbol hs
    exact absurd ho (by simp [predefinedSymbol])
  case param => intro j p hp; simp [initial] at hp
  case formal =>
    intro i s k j hs hk
    obtain ⟨x, -, rfl⟩ := hsymbol hs
    simp [predefinedSymbol] at hk
  case members =>
    intro key i
    constructor
    · intro h
      obtain ⟨as, bs, hall, -⟩ := List.lookup_eq_some_iff.1 h
      obtain ⟨y, hy, rfl⟩ := hlisted (key, i) (by rw [hall]; simp)
      exact ⟨_, by rw [types_initial, hy]; rfl, rfl⟩
    · rintro ⟨s, hs, rfl⟩
      obtain ⟨x, hx, rfl⟩ := hsymbol hs
      exact hmembers (x, i) (List.mem_zipIdx_iff_getElem?.2 hx)
  case keys => simp
  case decls => simp [initial]
  case paramDecls => simp [initial]
  case locations =>
    intro i s hs
    obtain ⟨x, -, rfl⟩ := hsymbol hs
    rfl
  case paramLocations => intro j p hp; simp [initial] at hp

/-- The table of some trees is made of one part for each of their declarations. -/
theorem exists_records_declareTrees (trees : List SyntaxTree) :
    ∃ parts, (declareTrees trees).Records parts ∧ Declares (trees.flatMap SyntaxTree.tops) parts := by
  have hspace : ∀ x ∈ trees.flatMap SyntaxTree.tops, ∀ o, x.container = .type o →
      o < initial.types.size := by
    intro x hx o ho
    obtain ⟨tree, -, hx⟩ := List.mem_flatMap.1 hx
    obtain ⟨m, -, hx⟩ := List.mem_flatMap.1 hx
    obtain ⟨name, hname⟩ := Member.exists_space_of_mem_tops hx
    exact absurd (hname.symm.trans ho) (by simp)
  obtain ⟨parts, hrecords, hdeclares, -⟩ := adds_foldl
    (fun tree _ => adds_declareTree tree) initial [] records_initial hspace
  exact ⟨parts, hrecords, hdeclares⟩

/-- An attribute of a parameter leaves everything else as it is. -/
theorem Records.addAttribute {t : SymbolTable} {parts : List Part} (h : t.Records parts)
    (param : TypeParamId) (marker : TypeId) : (t.addAttribute param marker).Records parts := by
  have hparams : ∀ {j : TypeParamId} {p' : TypeParamSymbol},
      (t.addAttribute param marker).params[j]? = some p' →
      ∃ p : TypeParamSymbol, t.params[j]? = some p ∧ p'.id = p.id ∧ p'.owner = p.owner ∧ p'.ordinal = p.ordinal ∧
        p'.locations = p.locations := by
    intro j p' hp'
    simp only [SymbolTable.addAttribute, Array.getElem?_modify] at hp'
    split at hp'
    · obtain ⟨p, hp, rfl⟩ := Option.map_eq_some_iff.1 hp'
      refine ⟨p, hp, ?_⟩
      split <;> exact ⟨rfl, rfl, rfl, rfl⟩
    · exact ⟨p', hp', rfl, rfl, rfl, rfl⟩
  refine ⟨h.typeId, h.fullName, h.outer, ?param, ?formal, h.members, h.keys, h.decls, h.paramDecls,
    h.locations, ?paramLocations⟩
  case param =>
    intro j p' hp'
    obtain ⟨p, hp, hid, howner, hordinal, -⟩ := hparams hp'
    rw [hid, howner, hordinal]
    exact h.param j p hp
  case formal =>
    intro i s k j hs hk
    obtain ⟨p, hp, howner, hordinal⟩ := h.formal i s k j hs hk
    have hsome : ∃ p', (t.addAttribute param marker).params[j]? = some p' := by
      simp only [SymbolTable.addAttribute, Array.getElem?_modify, hp]
      split <;> exact ⟨_, rfl⟩
    obtain ⟨p', hp'⟩ := hsome
    obtain ⟨q, hq, -, howner', hordinal', -⟩ := hparams hp'
    obtain rfl := Option.some.inj (hp.symm.trans hq)
    exact ⟨p', hp', howner'.trans howner, hordinal'.trans hordinal⟩
  case paramLocations =>
    intro j p' hp'
    obtain ⟨p, hp, -, howner, hordinal, hlocations⟩ := hparams hp'
    rw [howner, hordinal, hlocations]
    exact h.paramLocations j p hp

theorem exists_records_bind (trees : List SyntaxTree) :
    ∃ parts, (bind trees).Records parts ∧ Declares (trees.flatMap SyntaxTree.tops) parts := by
  obtain ⟨parts, hrecords, hdeclares⟩ := exists_records_declareTrees trees
  refine ⟨parts, ?_, hdeclares⟩
  rw [bind]
  generalize trees.flatMap (declareTrees trees).attributesOf = attributes
  generalize declareTrees trees = t at hrecords ⊢
  induction attributes generalizing t with
  | nil => exact hrecords
  | cons a rest ih => exact ih _ (hrecords.addAttribute a.1 a.2)

/-! ## Looking places up -/

/-- The places where trees declare types and parameters. -/
def declaredSites (trees : List SyntaxTree) : List NameSite :=
  trees.flatMap fun tree => tree.typeDecls.flatMap fun d =>
    d.declared.map fun i => ⟨tree.file, i.span⟩

/-- The places that a part declares something at. -/
def sitesOf (p : Part) : List NameSite := p.decl.declared.map fun i => ⟨p.file, i.span⟩

theorem mem_sitesOf_self (p : Part) : ⟨p.file, p.decl.nameSpan⟩ ∈ sitesOf p :=
  List.mem_map.2 ⟨_, List.mem_cons_self, rfl⟩

theorem mem_sitesOf_param {p : Part} {q : TypeParam} (hq : q ∈ p.decl.typeParams) :
    ⟨p.file, q.nameSpan⟩ ∈ sitesOf p :=
  List.mem_map.2 ⟨⟨q.name, q.nameSpan⟩,
    List.mem_cons_of_mem _ (List.mem_map.2 ⟨q, hq, rfl⟩), rfl⟩

theorem lookup_eq_some_of_mem {α β : Type} [DecidableEq α] {l : List (α × β)} {a : α} {b : β}
    (hmem : (a, b) ∈ l) (hone : ∀ c, (a, c) ∈ l → c = b) : l.lookup a = some b := by
  cases hlookup : l.lookup a with
  | none => exact absurd rfl (bne_iff_ne.1 (List.lookup_eq_none_iff.1 hlookup (a, b) hmem))
  | some c =>
    obtain ⟨as, bs, rfl, -⟩ := List.lookup_eq_some_iff.1 hlookup
    rw [hone c (by simp)]

section

variable {t : SymbolTable} {trees : List SyntaxTree} {parts : List Part}

/-- The parts of the trees are their declarations. -/
theorem Declares.mem_iff (h : Declares (trees.flatMap SyntaxTree.tops) parts) {file : FileId}
    {d : TypeDecl} : (∃ p ∈ parts, p.file = file ∧ p.decl = d) ↔
      ∃ tree ∈ trees, d ∈ tree.typeDecls ∧ tree.file = file := by
  have hlisted : (file, d) ∈ parts.map (fun p => (p.file, p.decl)) ↔
      (file, d) ∈ trees.flatMap fun tree => tree.typeDecls.map fun d => (tree.file, d) := by
    rw [h.listed, Standing.sites_flatMap]
    simp only [SyntaxTree.sites_tops]
  simpa [and_comm] using hlisted

theorem Declares.sites_eq (h : Declares (trees.flatMap SyntaxTree.tops) parts) :
    parts.flatMap sitesOf = declaredSites trees := by
  have hparts : parts.flatMap sitesOf = (parts.map fun p => (p.file, p.decl)).flatMap fun x =>
      x.2.declared.map fun i => NameSite.mk x.1 i.span := by
    rw [List.flatMap_map]
    rfl
  rw [hparts, h.listed, Standing.sites_flatMap, declaredSites, List.flatMap_assoc]
  simp only [SyntaxTree.sites_tops, List.flatMap_map]

/-- Looking a part's place up gives its type. -/
theorem Records.declaredType? (h : t.Records parts) (hsites : (parts.flatMap sitesOf).Nodup)
    {p : Part} (hp : p ∈ parts) : t.declaredType? p.file p.decl.nameSpan = some p.type := by
  refine lookup_eq_some_of_mem ((h.decls _ _).2 ⟨p, hp, rfl, rfl⟩) fun i hi => ?_
  obtain ⟨q, hq, hsite, rfl⟩ := (h.decls _ _).1 hi
  rw [eq_of_nodup_flatMap hsites hp hq (mem_sitesOf_self p) (hsite ▸ mem_sitesOf_self q)]

/-- Looking up the place of a part's parameter gives the parameter that its type has there. -/
theorem Records.declaredTypeParam? (h : t.Records parts) (hsites : (parts.flatMap sitesOf).Nodup)
    {p : Part} (hp : p ∈ parts) {k : Nat} {q : TypeParam} (hq : p.decl.typeParams[k]? = some q)
    {s : TypeSymbol} (hs : t.types[p.type]? = some s) {j : TypeParamId}
    (hj : s.typeParams[k]? = some j) : t.declaredTypeParam? p.file q.nameSpan = some j := by
  refine lookup_eq_some_of_mem ((h.paramDecls _ _).2 ⟨p, hp, k, q, s, hq, rfl, hs, hj⟩)
    fun j' hj' => ?_
  obtain ⟨p', hp', k', q', s', hq', hsite, hs', hk'⟩ := (h.paramDecls _ _).1 hj'
  have hmem := mem_sitesOf_param (List.mem_of_getElem? hq)
  obtain rfl := eq_of_nodup_flatMap hsites hp hp' hmem
    (hsite ▸ mem_sitesOf_param (List.mem_of_getElem? hq'))
  obtain rfl := Option.some.inj (hs.symm.trans hs')
  have hown := (List.nodup_flatMap.1 hsites).1 p hp
  rw [sitesOf, TypeDecl.declared, List.map_cons, List.map_map] at hown
  have hspans := (List.nodup_cons.1 hown).2
  have hk : (p.decl.typeParams.map fun q => NameSite.mk p.file q.nameSpan)[k]? =
      (p.decl.typeParams.map fun q => NameSite.mk p.file q.nameSpan)[k']? := by
    rw [List.getElem?_map, List.getElem?_map, hq, hq']
    exact congrArg some hsite
  have hlt : k < p.decl.typeParams.length := (List.getElem?_eq_some_iff.1 hq).1
  obtain rfl := (List.getElem?_inj (by simpa using hlt) hspans).1 hk
  exact Option.some.inj (hk'.symm.trans hj)

/-- A declaration that stands in a container is a part of a type there. -/
theorem StandsIn.exists_part (hdeclares : Declares (trees.flatMap SyntaxTree.tops) parts)
    (h : t.Records parts) (hsites : (parts.flatMap sitesOf).Nodup) {tree : SyntaxTree}
    (htree : tree ∈ trees) {container : Container} {d : TypeDecl}
    (hd : StandsIn t tree container d) : ∃ p ∈ parts, p.toStanding = ⟨tree.file, container, d⟩ := by
  cases hd with
  | space htop => exact hdeclares.outermost _ (List.mem_flatMap.2 ⟨tree, htree, htop⟩)
  | @type e _ outer he hd houter =>
    have hsite : (tree.file, e) ∈ Standing.sites (trees.flatMap SyntaxTree.tops) := by
      rw [Standing.sites_flatMap]
      refine List.mem_flatMap.2 ⟨tree, htree, ?_⟩
      rw [SyntaxTree.sites_tops]
      exact List.mem_map_of_mem he
    obtain ⟨p, hp, q, hq, hpe, hstands⟩ := hdeclares.nested _ hsite d hd
    obtain ⟨hfile, rfl⟩ := Prod.mk.inj hpe
    have hown := h.declaredType? hsites hp
    rw [hfile, houter] at hown
    obtain rfl := Option.some.inj hown
    exact ⟨q, hq, hstands⟩

/-- A declaration of a tree stands in a namespace or is nested in another one. -/
theorem mem_tops_or_nested {tree : SyntaxTree} {d : TypeDecl} (hd : d ∈ tree.typeDecls) :
    (∃ container, ⟨tree.file, container, d⟩ ∈ tree.tops) ∨ ∃ e ∈ tree.typeDecls, d ∈ e.nested := by
  have hsite := List.mem_map_of_mem (f := fun d => (tree.file, d)) hd
  rw [← SyntaxTree.sites_tops] at hsite
  obtain ⟨⟨file, container, top⟩, hx, hin⟩ := List.mem_flatMap.1 hsite
  obtain ⟨d', hd', heq⟩ := List.mem_map.1 hin
  obtain ⟨rfl, rfl⟩ := Prod.mk.inj heq
  rcases TypeDecl.eq_or_nested_of_mem_withNested top hd' with rfl | ⟨e, he, hnested⟩
  · exact .inl ⟨container, hx⟩
  · have hsite' : (tree.file, e) ∈ Standing.sites tree.tops :=
      List.mem_flatMap.2 ⟨_, hx, List.mem_map_of_mem he⟩
    rw [SyntaxTree.sites_tops] at hsite'
    obtain ⟨e', he', heq'⟩ := List.mem_map.1 hsite'
    exact .inr ⟨e, (Prod.mk.inj heq').2 ▸ he', hnested⟩

/-- What parts make of a table whose places are all different is faithful to their trees. -/
theorem Records.faithful (h : t.Records parts)
    (hdeclares : Declares (trees.flatMap SyntaxTree.tops) parts)
    (hnodup : (declaredSites trees).Nodup) : t.Faithful trees := by
  have hsites : (parts.flatMap sitesOf).Nodup := hdeclares.sites_eq ▸ hnodup
  have hpart : ∀ tree ∈ trees, ∀ d ∈ tree.typeDecls,
      ∃ container, StandsIn t tree container d := by
    intro tree htree d hd
    rcases mem_tops_or_nested hd with ⟨container, htop⟩ | ⟨e, he, hnested⟩
    · exact ⟨container, .space htop⟩
    · obtain ⟨p, hp, hfile, rfl⟩ := hdeclares.mem_iff.2 ⟨tree, htree, he, rfl⟩
      exact ⟨.type p.type, .type he hnested (hfile ▸ h.declaredType? hsites hp)⟩
  constructor
  case typeId => exact h.typeId
  case fullName => exact h.fullName
  case outer => exact h.outer
  case param => exact h.param
  case formal => exact h.formal
  case declared =>
    intro tree htree d hd
    obtain ⟨container, hstands⟩ := hpart tree htree d hd
    obtain ⟨p, hp, hplace⟩ := hstands.exists_part hdeclares h hsites htree
    obtain ⟨hfile, rfl, rfl⟩ := Standing.mk.inj hplace
    obtain ⟨s, hs, hkey⟩ := h.keys p hp
    refine ⟨_, p.type, s, hstands, hfile ▸ h.declaredType? hsites hp, hs, hkey, ?_⟩
    intro k q hq
    have hlen : s.typeParams.length = p.decl.typeParams.length := congrArg TypeKey.arity hkey
    have hlt : k < s.typeParams.length := hlen ▸ (List.getElem?_eq_some_iff.1 hq).1
    have hj := List.getElem?_eq_getElem hlt
    exact ⟨_, hfile ▸ h.declaredTypeParam? hsites hp hq hs hj, hj⟩
  case same =>
    intro tree htree tree' htree' d _ d' _ container container' hd hd'
    obtain ⟨p, hp, hplace⟩ := hd.exists_part hdeclares h hsites htree
    obtain ⟨p', hp', hplace'⟩ := hd'.exists_part hdeclares h hsites htree'
    obtain ⟨hfile, rfl, rfl⟩ := Standing.mk.inj hplace
    obtain ⟨hfile', rfl, rfl⟩ := Standing.mk.inj hplace'
    rw [← hfile, ← hfile', h.declaredType? hsites hp, h.declaredType? hsites hp']
    obtain ⟨s, hs, hkey⟩ := h.keys p hp
    obtain ⟨s', hs', hkey'⟩ := h.keys p' hp'
    constructor
    · intro htype
      rw [← Option.some.inj htype] at hs'
      obtain rfl := Option.some.inj (hs.symm.trans hs')
      exact TypeKey.mk.inj (hkey.symm.trans hkey')
    · rintro ⟨hcontainer, hname, harity⟩
      have hsame : p.key = p'.key := by rw [Part.key, Part.key, hcontainer, hname, harity]
      have htype := (h.members p.key p.type).2 ⟨s, hs, hkey⟩
      rw [hsame, (h.members p'.key p'.type).2 ⟨s', hs', hkey'⟩] at htype
      exact htype.symm
  case locations =>
    intro i s hs
    rw [h.locations i s hs]
    constructor
    · refine List.Pairwise.map _ ?_ ((List.nodup_flatMap.1 hsites).2.filter _)
      intro p q hdisjoint hplace
      obtain ⟨hfile, hspan⟩ := Location.mk.inj hplace
      have hq := mem_sitesOf_self q
      rw [← hfile, ← hspan] at hq
      exact hdisjoint (mem_sitesOf_self p) hq
    · intro l
      simp only [List.mem_map, List.mem_filter, decide_eq_true_eq]
      constructor
      · rintro ⟨p, ⟨hp, rfl⟩, rfl⟩
        obtain ⟨tree, htree, hd, hfile⟩ := hdeclares.mem_iff.1 ⟨p, hp, rfl, rfl⟩
        refine ⟨tree, htree, p.decl, hd, hfile ▸ h.declaredType? hsites hp, ?_⟩
        rw [hfile]
        rfl
      · rintro ⟨tree, htree, d, hd, htype, rfl⟩
        obtain ⟨p, hp, hfile, rfl⟩ := hdeclares.mem_iff.2 ⟨tree, htree, hd, rfl⟩
        rw [← hfile, h.declaredType? hsites hp] at htype
        refine ⟨p, ⟨hp, Option.some.inj htype⟩, ?_⟩
        rw [← hfile]
        rfl
  case paramLocations =>
    intro j s hs
    rw [h.paramLocations j s hs]
    obtain ⟨-, owner, howner, hj⟩ := h.param j s hs
    constructor
    · refine List.Pairwise.filterMap _ ?_ ((List.nodup_flatMap.1 hsites).2.filter _)
      intro p q hdisjoint l hl l' hl' hplace
      obtain ⟨a, ha, rfl⟩ := Option.map_eq_some_iff.1 hl
      obtain ⟨b, hb, rfl⟩ := Option.map_eq_some_iff.1 hl'
      obtain ⟨hfile, hspan⟩ := Location.mk.inj hplace
      have hq := mem_sitesOf_param (List.mem_of_getElem? hb)
      rw [← hfile, ← hspan] at hq
      exact hdisjoint (mem_sitesOf_param (List.mem_of_getElem? ha)) hq
    · intro l
      simp only [List.mem_filterMap, List.mem_filter, decide_eq_true_eq]
      constructor
      · rintro ⟨p, ⟨hp, htype⟩, hl⟩
        obtain ⟨q, hq, rfl⟩ := Option.map_eq_some_iff.1 hl
        obtain ⟨tree, htree, hd, hfile⟩ := hdeclares.mem_iff.1 ⟨p, hp, rfl, rfl⟩
        rw [← htype] at howner
        refine ⟨tree, htree, p.decl, hd, q, List.mem_of_getElem? hq, ?_, by rw [hfile]⟩
        exact hfile ▸ h.declaredTypeParam? hsites hp hq howner hj
      · rintro ⟨tree, htree, d, hd, q, hq, hid, rfl⟩
        obtain ⟨p, hp, hfile, rfl⟩ := hdeclares.mem_iff.2 ⟨tree, htree, hd, rfl⟩
        obtain ⟨k, hk⟩ := List.mem_iff_getElem?.1 hq
        obtain ⟨s', hs', hkey⟩ := h.keys p hp
        have hlen : s'.typeParams.length = p.decl.typeParams.length := congrArg TypeKey.arity hkey
        have hlt : k < s'.typeParams.length := hlen ▸ (List.getElem?_eq_some_iff.1 hk).1
        have hj' := List.getElem?_eq_getElem hlt
        rw [← hfile, h.declaredTypeParam? hsites hp hk hs' hj'] at hid
        obtain ⟨s'', hs'', hown, hordinal⟩ := h.formal p.type s' k _ hs' hj'
        rw [Option.some.inj hid] at hs''
        obtain rfl := Option.some.inj (hs.symm.trans hs'')
        refine ⟨p, ⟨hp, hown.symm⟩, ?_⟩
        rw [Part.paramPlace?, hordinal, hk, ← hfile]
        rfl

end

/-- The table of trees whose places are all different is faithful to them. -/
theorem faithful_bind {trees : List SyntaxTree} (hnodup : (declaredSites trees).Nodup) :
    (bind trees).Faithful trees := by
  obtain ⟨parts, hrecords, hdeclares⟩ := exists_records_bind trees
  exact hrecords.faithful hdeclares hnodup

end SymbolTable

namespace Workspace

/-- Each document has a number of its own. -/
theorem nodup_ids (sources : List SourceText) : ((build sources).documents.map (·.id)).Nodup := by
  have heq : (build sources).documents.map (·.id) = sources.zipIdx.map Prod.snd := by
    rw [build, List.map_map]
    rfl
  rw [heq, List.zipIdx_map_snd]
  exact List.nodup_range'

/-- The trees of a workspace declare types and parameters at different places. -/
theorem nodup_declaredSites (sources : List SourceText) :
    (SymbolTable.declaredSites ((build sources).documents.map (·.tree))).Nodup := by
  have hfile : ∀ d ∈ (build sources).documents, d.tree.file = d.id := by
    intro d hd
    obtain ⟨-, htree, -⟩ := ofSource_of_document? (mem_documents_iff.1 hd)
    rw [htree]
    rfl
  rw [SymbolTable.declaredSites, List.flatMap_map]
  refine List.nodup_flatMap.2 ⟨?_, ?_⟩
  · intro d hd
    obtain ⟨-, htree, -⟩ := ofSource_of_document? (mem_documents_iff.1 hd)
    have hspans := SyntaxTree.nodup_declared_read d.id d.text
    rw [← htree] at hspans
    have hinjective : Function.Injective (NameSite.mk d.tree.file) :=
      fun _ _ h => (NameSite.mk.inj h).2
    simpa [List.map_flatMap, Function.comp_def] using hspans.map hinjective
  · refine (List.pairwise_map.1 (nodup_ids sources)).imp_of_mem fun {d e} hd he hne => ?_
    intro site hsite hsite'
    obtain ⟨a, -, ha⟩ := List.mem_flatMap.1 hsite
    obtain ⟨b, -, hb⟩ := List.mem_flatMap.1 hsite'
    obtain ⟨i, -, rfl⟩ := List.mem_map.1 ha
    obtain ⟨i', -, hi'⟩ := List.mem_map.1 hb
    rw [← hfile d hd, ← hfile e he] at hne
    exact hne (NameSite.mk.inj hi').1.symm

/-- The symbols of every workspace are faithful to its trees. -/
theorem faithful_build (sources : List SourceText) :
    (build sources).symbols.Faithful ((build sources).documents.map (·.tree)) :=
  SymbolTable.faithful_bind (nodup_declaredSites sources)

end Workspace

end SelfTypeLint
