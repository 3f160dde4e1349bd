import SelfTypeLint.Proofs.Symbol.Attributes
import SelfTypeLint.Proofs.Tree.Enclosing

/-!
# The namespaces of symbols

The symbol of a declaration has the namespace that the declaration stands in. A nested type has that of
the type around it: what a step of declaring keeps is `Housed`, and the container that it declares in
belongs to the namespace of the step.
-/

namespace SelfTypeLint

/-- What is nested in an outermost declaration of a tree is a declaration of the tree. -/
theorem SyntaxTree.mem_typeDecls_of_top {tree : SyntaxTree} {x : Standing} (hx : x ∈ tree.tops)
    {d : TypeDecl} (hd : d ∈ x.decl.withNested) : d ∈ tree.typeDecls := by
  have hsite : (x.file, d) ∈ Standing.sites tree.tops :=
    List.mem_flatMap.2 ⟨x, hx, List.mem_map_of_mem hd⟩
  rw [sites_tops] at hsite
  obtain ⟨e, he, heq⟩ := List.mem_map.1 hsite
  exact (Prod.mk.inj heq).2 ▸ he

namespace SymbolTable

/-- Holds of a table in which every type has the namespace of the type around it. -/
structure Housed (t : SymbolTable) : Prop where
  found : ∀ (key : TypeKey) (i : TypeId), t.members.lookup key = some i →
    ∃ s, t.types[i]? = some s ∧ s.key.container = key.container
  nested : ∀ (i : TypeId) (s : TypeSymbol) (o : TypeId), t.types[i]? = some s →
    s.containingType = some o → ∃ s', t.types[o]? = some s' ∧ s'.space = s.space

/-- Holds of a type that has a namespace. -/
def InSpace (t : SymbolTable) (space : String) (i : TypeId) : Prop :=
  ∃ s, t.types[i]? = some s ∧ s.space = space

/-- Holds of a container that belongs to a namespace. -/
def Belongs (t : SymbolTable) (space : String) : Container → Prop
  | .space name => name = space
  | .type o => t.InSpace space o

/-- Holds of a table with the types of another one in their namespaces. -/
def Keeps (t t' : SymbolTable) : Prop :=
  ∀ (space : String) (i : TypeId), t.InSpace space i → t'.InSpace space i

theorem Keeps.trans {t t' t'' : SymbolTable} (h : Keeps t t') (h' : Keeps t' t'') : Keeps t t'' :=
  fun space i hi => h' space i (h space i hi)

theorem Keeps.belongs {t t' : SymbolTable} (h : Keeps t t') {space : String} {container : Container}
    (hc : t.Belongs space container) : t'.Belongs space container := by
  cases container with
  | space name => exact hc
  | type o => exact h space o hc

theorem TypeSymbol.container_key (s : TypeSymbol) : s.key.container =
    match s.containingType with
    | some outer => .type outer
    | none => .space s.space := rfl

section

variable {t : SymbolTable} {container : Container} {space : String} {d : TypeDecl}

/-- A type in a container has the namespace that the container belongs to. -/
theorem Housed.inSpace (h : t.Housed) {i : TypeId} {s : TypeSymbol} (hs : t.types[i]? = some s)
    (hkey : s.key.container = container) (hc : t.Belongs space container) : t.InSpace space i := by
  refine ⟨s, hs, ?_⟩
  rw [TypeSymbol.container_key] at hkey
  cases ho : s.containingType with
  | none =>
    rw [ho] at hkey
    subst hkey
    exact hc
  | some o =>
    rw [ho] at hkey
    subst hkey
    obtain ⟨s', hs', hsame⟩ := h.nested i s o hs ho
    obtain ⟨s'', hs'', rfl⟩ := hc
    obtain rfl := Option.some.inj (hs'.symm.trans hs'')
    exact hsame.symm

theorem members_addPart (t : SymbolTable) (file : FileId) (id : TypeId) (d : TypeDecl) :
    (t.addPart file id d).members = t.members := by
  rw [addPart, foldl_addParamPart_eq]

theorem keeps_addPart (t : SymbolTable) (file : FileId) (id : TypeId) (d : TypeDecl) :
    Keeps t (t.addPart file id d) := by
  rintro space i ⟨s, hs, rfl⟩
  have hplaced := types_addPart t file id d i
  rw [hs] at hplaced
  exact ⟨_, hplaced, rfl⟩

theorem Housed.addPart (h : t.Housed) (file : FileId) (id : TypeId) (d : TypeDecl) :
    (t.addPart file id d).Housed where
  found := by
    intro key i hi
    rw [members_addPart] at hi
    obtain ⟨s, hs, hkey⟩ := h.found key i hi
    have hplaced := types_addPart t file id d i
    rw [hs] at hplaced
    exact ⟨_, hplaced, hkey⟩
  nested := by
    intro i s' o hs' ho
    rw [types_addPart] at hs'
    obtain ⟨s, hs, rfl⟩ := Option.map_eq_some_iff.1 hs'
    exact keeps_addPart t file id d s.space o (h.nested i s o hs ho)

theorem keeps_addType (t : SymbolTable) (container : Container) (space : String) (d : TypeDecl) :
    Keeps t (t.addType container space d) := by
  rintro space' i ⟨s, hs, hspace⟩
  exact ⟨s, (types_addType_of_lt (lt_size_of_getElem? hs)).trans hs, hspace⟩

theorem inSpace_addType (t : SymbolTable) (container : Container) (space : String) (d : TypeDecl) :
    (t.addType container space d).InSpace space t.types.size :=
  ⟨t.newType container space d, by rw [types_addType, if_pos rfl], rfl⟩

theorem Housed.addType (h : t.Housed) (hc : t.Belongs space container) (d : TypeDecl) :
    (t.addType container space d).Housed := by
  have hkeeps := keeps_addType t container space d
  constructor
  case found =>
    intro key i hi
    rw [addType_eq, List.lookup_cons] at hi
    split at hi
    · next heq =>
      obtain rfl := beq_iff_eq.1 heq
      obtain rfl := Option.some.inj hi
      refine ⟨_, by rw [types_addType, if_pos rfl], ?_⟩
      rw [key_newType]
      cases container with
      | type o => rfl
      | space name => rw [show name = space from hc]
    · obtain ⟨s, hs, hkey⟩ := h.found key i hi
      exact ⟨s, (types_addType_of_lt (lt_size_of_getElem? hs)).trans hs, hkey⟩
  case nested =>
    intro i s o hs ho
    rw [types_addType] at hs
    split at hs
    · obtain rfl := Option.some.inj hs
      cases container with
      | type outer =>
        obtain rfl := Option.some.inj ho
        exact hkeeps space _ hc
      | space name => exact absurd ho (by simp [newType, outer?])
    · exact hkeeps _ o (h.nested i s o hs ho)

/-- A declared part is of a type in the namespace that its container belongs to. -/
theorem Housed.declarePart (h : t.Housed) (hc : t.Belongs space container) (file : FileId)
    (d : TypeDecl) : ∃ id t', t.declarePart file container space d = (id, t') ∧ t'.Housed ∧
      Keeps t t' ∧ t'.InSpace space id := by
  rw [SymbolTable.declarePart]
  split
  · next id hid =>
    obtain ⟨s, hs, hkey⟩ := h.found _ id hid
    exact ⟨id, _, rfl, h.addPart file id d, keeps_addPart t file id d,
      keeps_addPart t file id d space id (h.inSpace hs hkey hc)⟩
  · exact ⟨_, _, rfl, (h.addType hc d).addPart file _ d,
      (keeps_addType t container space d).trans (keeps_addPart _ file _ d),
      keeps_addPart _ file _ d space _ (inSpace_addType t container space d)⟩

/-- Steps that keep namespaces, one after another. -/
theorem Housed.foldl {α : Type} {f : SymbolTable → α → SymbolTable} (as : List α) (h : t.Housed)
    (hstep : ∀ a ∈ as, ∀ u, u.Housed → Keeps t u → (f u a).Housed ∧ Keeps u (f u a)) :
    (as.foldl f t).Housed ∧ Keeps t (as.foldl f t) := by
  refine List.foldlRecOn as f (motive := fun u => u.Housed ∧ Keeps t u)
    ⟨h, fun _ _ hi => hi⟩ fun u hu a ha => ?_
  obtain ⟨hhoused, hkeeps⟩ := hstep a ha u hu.1 hu.2
  exact ⟨hhoused, hu.2.trans hkeeps⟩

end

/-- Declaring a type with all that is nested in it keeps namespaces. -/
theorem Housed.declareType {t : SymbolTable} (h : t.Housed) {container : Container} {space : String}
    (hc : t.Belongs space container) (file : FileId) (d : TypeDecl) :
    (declareType file space container t d).Housed ∧
      Keeps t (declareType file space container t d) := by
  obtain ⟨id, t', hpart, hhoused, hkeeps, hid⟩ := h.declarePart hc file d
  have hbelongs : t'.Belongs space (.type id) := hid
  have hnested := hhoused.foldl (f := SymbolTable.declareType file space (.type id)) d.nested
    fun n hn u hu hkept =>
      have hlt := TypeDecl.sizeOf_lt_of_mem_nested hn
      hu.declareType (hkept.belongs hbelongs) file n
  rw [declareType_eq, hpart]
  exact ⟨hnested.1, hkeeps.trans hnested.2⟩
  termination_by sizeOf d

/-- Declaring a member keeps namespaces. -/
theorem Housed.declareMember {t : SymbolTable} (h : t.Housed) (file : FileId) (space : String) (m : Member) :
    (declareMember file space t m).Housed ∧ Keeps t (declareMember file space t m) := by
  match m with
  | .type d =>
    rw [declareMember_type]
    have hbelongs : t.Belongs space (.space space) := rfl
    exact h.declareType hbelongs file d
  | .space n =>
    rw [declareMember_space]
    have hspace : (t.declareSpace (Dotted.join space n.name)).Housed := ⟨h.found, h.nested⟩
    exact hspace.foldl n.members fun m hm u hu _ =>
      have hlt : sizeOf m < 1 + sizeOf n :=
        Nat.lt_trans (List.sizeOf_lt_of_mem hm) (Nat.lt_add_left 1 n.sizeOf_members_lt)
      hu.declareMember file _ m
  termination_by sizeOf m
  decreasing_by simpa using hlt

theorem housed_initial : initial.Housed where
  found := by
    intro key i hi
    obtain ⟨s, hs, rfl⟩ := (records_initial.members key i).1 hi
    exact ⟨s, hs, rfl⟩
  nested := by
    intro i s o hs ho
    rw [types_initial] at hs
    obtain ⟨x, -, rfl⟩ := Option.map_eq_some_iff.1 hs
    exact absurd ho (by simp [predefinedSymbol])

/-- The table of some trees has every type in the namespace of the type around it. -/
theorem housed_bind (trees : List SyntaxTree) : (bind trees).Housed := by
  have htrees : (declareTrees trees).Housed := by
    refine List.foldlRecOn trees _ housed_initial fun t ht tree _ => ?_
    obtain ⟨hfound, hnested⟩ := (ht.foldl tree.members fun m _ u hu _ =>
      hu.declareMember tree.file "" m).1
    exact ⟨hfound, hnested⟩
  obtain ⟨params, hbind⟩ := exists_params_foldl_addAttribute
    (trees.flatMap (declareTrees trees).attributesOf) (declareTrees trees)
  rw [bind, hbind]
  exact ⟨htrees.found, htrees.nested⟩

/-! ## The namespaces of declarations -/

/-- The full name of the innermost of some namespaces, in another one. -/
def spaceName (space : String) (ns : List NamespaceDecl) : String :=
  (ns.map (·.name)).foldl Dotted.join space

/-- A declaration in some namespaces is nested in one that stands in the innermost of them. -/
theorem exists_top_of_within {d : TypeDecl} {ms : List Member} {ns : List NamespaceDecl}
    (h : Within d ms ns) (file : FileId) (space : String) :
    ∃ e, ⟨file, .space (spaceName space ns), e⟩ ∈ ms.flatMap (Member.tops file space) ∧
      d ∈ e.withNested := by
  induction h generalizing space with
  | @type _ e he hd =>
    refine ⟨e, List.mem_flatMap.2 ⟨_, he, ?_⟩, hd⟩
    rw [Member.tops_type]
    exact List.mem_singleton.2 rfl
  | @space _ n _ hn _ ih =>
    obtain ⟨e, he, hd⟩ := ih (Dotted.join space n.name)
    refine ⟨e, List.mem_flatMap.2 ⟨_, hn, ?_⟩, hd⟩
    rw [Member.tops_space]
    exact he

section

variable {t : SymbolTable} {trees : List SyntaxTree} {tree : SyntaxTree} {d : TypeDecl}

/-- The symbol of a declaration is in the container that the declaration stands in, with its name and
arity. -/
theorem Faithful.exists_symbol (h : t.Faithful trees) (htree : tree ∈ trees)
    (hd : d ∈ tree.typeDecls) {container : Container} (hstands : StandsIn t tree container d) :
    ∃ i s, t.declaredType? tree.file d.nameSpan = some i ∧ t.typeSymbol? i = some s ∧
      s.key = ⟨container, d.name, d.arity⟩ := by
  obtain ⟨container', i, s, hstands', hi, hs, hkey, -⟩ := h.declared tree htree d hd
  obtain ⟨rfl, -⟩ := (h.same tree htree tree htree d hd d hd _ _ hstands hstands').1 rfl
  exact ⟨i, s, hi, hs, hkey⟩

/-- A declaration nested in another one, however deep, is of a type in the same namespace. -/
theorem Housed.inSpace_of_withNested (hhoused : t.Housed) (h : t.Faithful trees)
    (htree : tree ∈ trees) {e : TypeDecl} (he : e ∈ tree.typeDecls) (hd : d ∈ e.withNested)
    {space : String} {i : TypeId} (hi : t.declaredType? tree.file e.nameSpan = some i)
    (hspace : t.InSpace space i) :
    ∃ j, t.declaredType? tree.file d.nameSpan = some j ∧ t.InSpace space j := by
  rw [TypeDecl.withNested_eq] at hd
  rcases List.mem_cons.1 hd with rfl | hd
  · exact ⟨i, hi, hspace⟩
  · obtain ⟨n, hn, hdn⟩ := List.mem_flatMap.1 hd
    have hlt := TypeDecl.sizeOf_lt_of_mem_nested hn
    have hmem : n ∈ tree.typeDecls := tree.mem_typeDecls_of_withNested he
      (TypeDecl.mem_withNested_of_nested hn n.mem_withNested_self)
    obtain ⟨j, s, hj, hs, hkey⟩ := h.exists_symbol htree hmem (.type he hn hi)
    exact hhoused.inSpace_of_withNested h htree hmem hdn hj
      (hhoused.inSpace hs (congrArg TypeKey.container hkey) hspace)
  termination_by sizeOf e

/-- The symbol of a declaration has the namespace that the declaration stands in. -/
theorem Housed.exists_symbol_of_within (hhoused : t.Housed) (h : t.Faithful trees)
    (htree : tree ∈ trees) {ns : List NamespaceDecl} (hd : Within d tree.members ns) :
    ∃ i s, t.declaredType? tree.file d.nameSpan = some i ∧ t.typeSymbol? i = some s ∧
      s.space = spaceName "" ns := by
  obtain ⟨e, htop, hde⟩ := exists_top_of_within hd tree.file ""
  have he : e ∈ tree.typeDecls := SyntaxTree.mem_typeDecls_of_top htop e.mem_withNested_self
  obtain ⟨i, s, hi, hs, hkey⟩ := h.exists_symbol htree he (.space htop)
  obtain ⟨j, hj, s', hs', hspace⟩ := hhoused.inSpace_of_withNested h htree he hde hi
    (hhoused.inSpace hs (congrArg TypeKey.container hkey) rfl)
  exact ⟨j, s', hj, hs', hspace⟩

end

end SymbolTable

end SelfTypeLint
