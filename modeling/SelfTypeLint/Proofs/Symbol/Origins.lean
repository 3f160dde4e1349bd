import SelfTypeLint.Proofs.Symbol.Paths
import SelfTypeLint.Proofs.Symbol.Spaces

/-!
# Where symbols come from

What a table holds is told by its trees without regard to their order: its types are those of `System`
and those that declarations of the trees declare at their paths, a parameter is spelled as on some
declaration of its type, and namespaces and global directives are those of the trees. Only the places of
symbols are in an order, and within one tree this is the order of its declarations.
-/

namespace SelfTypeLint

/-- Holds of a declaration of a tree and the path that it has there. -/
inductive Located (tree : SyntaxTree) : TypePath → TypeDecl → Prop
  | top {space : String} {d : TypeDecl} (h : ⟨tree.file, .space space, d⟩ ∈ tree.tops) :
    Located tree (.top space d.name d.arity) d
  | inner {p : TypePath} {e d : TypeDecl} (he : Located tree p e) (hd : d ∈ e.nested) :
    Located tree (.inner p d.name d.arity) d

theorem Located.mem_typeDecls {tree : SyntaxTree} {p : TypePath} {d : TypeDecl}
    (h : Located tree p d) : d ∈ tree.typeDecls := by
  induction h with
  | top htop => exact SyntaxTree.mem_typeDecls_of_top htop (TypeDecl.mem_withNested_self _)
  | inner _ hd ih =>
    exact tree.mem_typeDecls_of_withNested ih
      (TypeDecl.mem_withNested_of_nested hd (TypeDecl.mem_withNested_self _))

theorem Located.exists_of_withNested {tree : SyntaxTree} {p : TypePath} {e d : TypeDecl}
    (h : Located tree p e) (hd : d ∈ e.withNested) : ∃ q, Located tree q d := by
  rw [TypeDecl.withNested_eq] at hd
  rcases List.mem_cons.1 hd with rfl | hd
  · exact ⟨p, h⟩
  · obtain ⟨n, hn, hdn⟩ := List.mem_flatMap.1 hd
    have hlt := TypeDecl.sizeOf_lt_of_mem_nested hn
    exact (Located.inner h hn).exists_of_withNested hdn
  termination_by sizeOf e

/-- Every declaration of a tree has a path. -/
theorem SyntaxTree.exists_located {tree : SyntaxTree} {d : TypeDecl} (hd : d ∈ tree.typeDecls) :
    ∃ p, Located tree p d := by
  have hsite := List.mem_map_of_mem (f := fun d => (tree.file, d)) hd
  rw [← sites_tops] at hsite
  obtain ⟨x, hx, hin⟩ := List.mem_flatMap.1 hsite
  obtain ⟨d', hd', heq⟩ := List.mem_map.1 hin
  obtain ⟨hfile, rfl⟩ := Prod.mk.inj heq
  obtain ⟨m, -, hxm⟩ := List.mem_flatMap.1 hx
  obtain ⟨space, hspace⟩ := Member.exists_space_of_mem_tops hxm
  have htop : ⟨tree.file, .space space, x.decl⟩ ∈ tree.tops := by
    rw [← hfile, ← hspace]
    exact hx
  exact (Located.top htop).exists_of_withNested hd'

/-- The names of the namespaces of a member in a namespace, with all that they are nested in. -/
def Member.spaceNames (space : String) : Member → List String
  | .type _ => []
  | .space n =>
    let full := Dotted.join space n.name
    Dotted.prefixesIn "" (Dotted.parts full) ++ n.members.attach.flatMap fun ⟨m, h⟩ =>
      have : sizeOf m < 1 + sizeOf n :=
        Nat.lt_trans (List.sizeOf_lt_of_mem h) (Nat.lt_add_left 1 n.sizeOf_members_lt)
      m.spaceNames full
  termination_by m => sizeOf m
  decreasing_by simpa using this

theorem Member.spaceNames_type (space : String) (d : TypeDecl) :
    (Member.type d).spaceNames space = [] := by
  rw [spaceNames]

theorem Member.spaceNames_space (space : String) (n : NamespaceDecl) :
    (Member.space n).spaceNames space =
      Dotted.prefixesIn "" (Dotted.parts (Dotted.join space n.name)) ++
        n.members.flatMap (Member.spaceNames (Dotted.join space n.name)) := by
  rw [spaceNames]
  simp

namespace SymbolTable

/-! ## Declarations and parameters -/

/-- Holds of a table whose further types and whose parameters are declared in some trees. -/
structure Sourced (trees : List SyntaxTree) (t : SymbolTable) : Prop where
  predefined : ∀ (key : TypeKey) (i : TypeId), initial.members.lookup key = some i →
    t.members.lookup key = some i
  types : ∀ i : TypeId, i < t.types.size → i < predefinedTypes.length ∨
    ∃ tree ∈ trees, ∃ d ∈ tree.typeDecls, (⟨tree.file, d.nameSpan⟩, i) ∈ t.decls
  params : ∀ (j : TypeParamId) (p : TypeParamSymbol), t.params[j]? = some p →
    ∃ tree ∈ trees, ∃ d ∈ tree.typeDecls, (⟨tree.file, d.nameSpan⟩, p.owner) ∈ t.decls ∧
      (d.typeParams.map (·.name))[p.ordinal]? = some p.name

section

variable {t : SymbolTable} {trees : List SyntaxTree} {tree : SyntaxTree} {d : TypeDecl}

theorem decls_addPart (t : SymbolTable) (file : FileId) (id : TypeId) (d : TypeDecl) :
    (t.addPart file id d).decls = (⟨file, d.nameSpan⟩, id) :: t.decls := by
  rw [addPart, foldl_addParamPart_eq]

theorem exists_of_params_addPart {file : FileId} {id : TypeId} {j : TypeParamId}
    {p' : TypeParamSymbol} (h : (t.addPart file id d).params[j]? = some p') :
    ∃ p places, t.params[j]? = some p ∧ p' = withParamPlaces p places := by
  rw [addPart, params_foldl_addParamPart] at h
  obtain ⟨p, hp, rfl⟩ := Option.map_eq_some_iff.1 h
  exact ⟨p, _, hp, rfl⟩

theorem Sourced.addPart (h : t.Sourced trees) (file : FileId) (id : TypeId) (d : TypeDecl) :
    (t.addPart file id d).Sourced trees where
  predefined key i hi := by
    rw [members_addPart]
    exact h.predefined key i hi
  types i hi := by
    rw [size_addPart] at hi
    rcases h.types i hi with hi | ⟨tree, htree, e, he, hsite⟩
    · exact .inl hi
    · exact .inr ⟨tree, htree, e, he, by rw [decls_addPart]; exact List.mem_cons_of_mem _ hsite⟩
  params j p' hp' := by
    obtain ⟨p, places, hp, rfl⟩ := exists_of_params_addPart hp'
    obtain ⟨tree, htree, e, he, hsite, hname⟩ := h.params j p hp
    exact ⟨tree, htree, e, he, by rw [decls_addPart]; exact List.mem_cons_of_mem _ hsite, hname⟩

/-- The part that adds a type declares it and its parameters. -/
theorem Sourced.addType (h : t.Sourced trees) (htree : tree ∈ trees) (hd : d ∈ tree.typeDecls)
    {container : Container} {space : String} (hnew : t.member? container d.name d.arity = none) :
    ((t.addType container space d).addPart tree.file t.types.size d).Sourced trees where
  predefined key i hi := by
    have hold := h.predefined key i hi
    rw [members_addPart, addType_eq, List.lookup_cons]
    split
    · next heq =>
      rw [beq_iff_eq.1 heq] at hold
      exact absurd (hnew.symm.trans hold) (by simp)
    · exact hold
  types i hi := by
    rw [size_addPart, addType_eq, Array.size_push] at hi
    rw [decls_addPart]
    by_cases hlast : i = t.types.size
    · exact .inr ⟨tree, htree, d, hd, by rw [hlast]; exact List.mem_cons_self⟩
    · rcases h.types i (Nat.lt_of_le_of_ne (Nat.le_of_lt_succ hi) hlast) with hi | ⟨tree', htree', e, he, hsite⟩
      · exact .inl hi
      · exact .inr ⟨tree', htree', e, he, List.mem_cons_of_mem _ hsite⟩
  params j p' hp' := by
    obtain ⟨p, places, hp, rfl⟩ := exists_of_params_addPart hp'
    rw [decls_addPart]
    rw [params_addType] at hp
    split at hp
    · obtain ⟨tree', htree', e, he, hsite, hname⟩ := h.params j p hp
      exact ⟨tree', htree', e, he, List.mem_cons_of_mem _ hsite, hname⟩
    · rw [newParams_getElem?] at hp
      obtain ⟨q, hq, rfl⟩ := Option.map_eq_some_iff.1 hp
      refine ⟨tree, htree, d, hd, List.mem_cons_self, ?_⟩
      rw [List.getElem?_map]
      exact congrArg (Option.map _) hq

theorem sourced_declareTrees (trees : List SyntaxTree) : (declareTrees trees).Sourced trees := by
  apply declareTrees_induction
  · exact ⟨fun _ _ hi => hi, fun _ hi => .inl hi, fun j p hp => by simp [initial] at hp⟩
  · intro tree htree d hd t container space h
    rw [declarePart]
    split
    · exact h.addPart tree.file _ d
    · next hnew => exact h.addType htree hd hnew
  · exact fun t name h => ⟨h.predefined, h.types, h.params⟩
  · exact fun t usings h => ⟨h.predefined, h.types, h.params⟩

/-- Recording attributes leaves all of a parameter but its attributes. -/
theorem exists_of_params_bind {j : TypeParamId} {p : TypeParamSymbol}
    (hp : (bind trees).params[j]? = some p) :
    ∃ q attributes, (declareTrees trees).params[j]? = some q ∧ p = { q with attributes } := by
  rw [bind] at hp
  generalize trees.flatMap (declareTrees trees).attributesOf = found at hp
  generalize declareTrees trees = t at hp
  induction found generalizing t with
  | nil => exact ⟨p, p.attributes, hp, rfl⟩
  | cons x found ih =>
    obtain ⟨q, attributes, hq, rfl⟩ := ih _ hp
    simp only [addAttribute, Array.getElem?_modify] at hq
    split at hq
    · obtain ⟨r, hr, rfl⟩ := Option.map_eq_some_iff.1 hq
      refine ⟨r, attributes, hr, ?_⟩
      split <;> rfl
    · exact ⟨q, attributes, hq, rfl⟩

theorem sourced_bind (trees : List SyntaxTree) : (bind trees).Sourced trees := by
  have h := sourced_declareTrees trees
  obtain ⟨params, hbind⟩ := exists_params_foldl_addAttribute
    (trees.flatMap (declareTrees trees).attributesOf) (declareTrees trees)
  have htable : bind trees = { declareTrees trees with params } := hbind
  refine ⟨?_, ?_, fun j p hp => ?_⟩
  · rw [htable]
    exact h.predefined
  · rw [htable]
    exact h.types
  · obtain ⟨q, attributes, hq, rfl⟩ := exists_of_params_bind hp
    rw [htable]
    exact h.params j q hq

end

/-! ## Paths of declarations -/

section

variable {trees : List SyntaxTree} {tree : SyntaxTree} {d : TypeDecl} {p : TypePath}

theorem path?_predefined {t : SymbolTable} {parts : List Part} (h : t.Records parts)
    (hs : t.Sourced trees) {i : TypeId} {x : String × String} (hx : predefinedTypes[i]? = some x) :
    t.path? i = some (.top "System" x.2 0) := by
  have hinitial : initial.typeSymbol? i = some (predefinedSymbol i x.2) := by
    rw [typeSymbol?, types_initial, hx]
    rfl
  exact h.member?_space_iff.1 (hs.predefined _ i ((records_initial.members _ i).2 ⟨_, hinitial, rfl⟩))

variable (hapart : (declaredSites trees).Nodup)

include hapart

/-- A declaration is of the type with its path. -/
theorem exists_declared_of_located (htree : tree ∈ trees) (h : Located tree p d) :
    ∃ i, (bind trees).declaredType? tree.file d.nameSpan = some i ∧ (bind trees).path? i = some p := by
  obtain ⟨parts, hrecords, -⟩ := exists_records_bind trees
  have hfaithful := faithful_bind hapart
  induction h with
  | top htop =>
    obtain ⟨i, s, hi, hs, hkey⟩ :=
      hfaithful.exists_symbol htree (Located.top htop).mem_typeDecls (.space htop)
    exact ⟨i, hi, hrecords.member?_space_iff.1 ((hrecords.members _ i).2 ⟨s, hs, hkey⟩)⟩
  | inner he hd ih =>
    obtain ⟨o, ho, hpath⟩ := ih
    obtain ⟨i, s, hi, hs, hkey⟩ :=
      hfaithful.exists_symbol htree (he.inner hd).mem_typeDecls (.type he.mem_typeDecls hd ho)
    exact ⟨i, hi, (hrecords.member?_type_iff hpath).1 ((hrecords.members _ i).2 ⟨s, hs, hkey⟩)⟩

/-- A declaration is of a type just if the type has its path. -/
theorem declaredType?_iff_path (htree : tree ∈ trees) (h : Located tree p d) {i : TypeId} :
    (bind trees).declaredType? tree.file d.nameSpan = some i ↔ (bind trees).path? i = some p := by
  obtain ⟨parts, hrecords, -⟩ := exists_records_bind trees
  obtain ⟨j, hj, hpath⟩ := exists_declared_of_located hapart htree h
  constructor
  · intro hi
    rw [hj] at hi
    exact Option.some.inj hi ▸ hpath
  · intro hi
    rw [hrecords.eq_of_path hi hpath]
    exact hj

/-- Looking a place up gives what is recorded there. -/
theorem declaredType?_of_mem_decls {file : FileId} {span : Span} {i : TypeId}
    (h : (⟨file, span⟩, i) ∈ (bind trees).decls) :
    (bind trees).declaredType? file span = some i := by
  obtain ⟨parts, hrecords, hdeclares⟩ := exists_records_bind trees
  obtain ⟨x, hx, hplace, rfl⟩ := (hrecords.decls _ _).1 h
  obtain ⟨rfl, rfl⟩ := NameSite.mk.inj hplace
  exact hrecords.declaredType? (hdeclares.sites_eq ▸ hapart) hx

/-- A parameter is spelled as on some declaration of its type. -/
theorem exists_spelling {j : TypeParamId} {x : TypeParamSymbol}
    (hx : (bind trees).typeParam? j = some x) : ∃ tree ∈ trees, ∃ d ∈ tree.typeDecls,
      (bind trees).declaredType? tree.file d.nameSpan = some x.owner ∧
      (d.typeParams.map (·.name))[x.ordinal]? = some x.name := by
  obtain ⟨tree, htree, d, hd, hsite, hname⟩ := (sourced_bind trees).params j x hx
  exact ⟨tree, htree, d, hd, declaredType?_of_mem_decls hapart hsite, hname⟩

/-- A type is one of `System`, or some declaration is a part of it and has its name. -/
theorem origin_of_type {i : TypeId} {s : TypeSymbol} (hs : (bind trees).typeSymbol? i = some s) :
    (∃ x ∈ predefinedTypes, s.space = "System" ∧ s.name = x.2) ∨ ∃ tree ∈ trees,
      ∃ d ∈ tree.typeDecls, (bind trees).declaredType? tree.file d.nameSpan = some i ∧
        s.name = d.name := by
  obtain ⟨parts, hrecords, -⟩ := exists_records_bind trees
  have hsourced := sourced_bind trees
  rcases hsourced.types i (lt_size_of_getElem? hs) with hlt | ⟨tree, htree, d, hd, hsite⟩
  · have hpath := path?_predefined hrecords hsourced (List.getElem?_eq_getElem hlt)
    obtain ⟨s', hs', hname, -, -, hspace⟩ := hrecords.symbol_of_path hpath
    obtain rfl := Option.some.inj (hs.symm.trans hs')
    exact .inl ⟨_, List.getElem_mem hlt, hspace, hname⟩
  · have hdeclared := declaredType?_of_mem_decls hapart hsite
    obtain ⟨_, j, s', -, hj, hs', hkey, -⟩ := (faithful_bind hapart).declared tree htree d hd
    obtain rfl := Option.some.inj (hdeclared.symm.trans hj)
    obtain rfl := Option.some.inj (hs.symm.trans hs')
    exact .inr ⟨tree, htree, d, hd, hdeclared, congrArg TypeKey.name hkey⟩

/-- The types of a table are those of `System` and those that its trees declare. -/
theorem exists_path_iff : (∃ i, (bind trees).path? i = some p) ↔
    (∃ x ∈ predefinedTypes, p = .top "System" x.2 0) ∨ ∃ tree ∈ trees, ∃ d, Located tree p d := by
  obtain ⟨parts, hrecords, -⟩ := exists_records_bind trees
  have hsourced := sourced_bind trees
  constructor
  · rintro ⟨i, hi⟩
    rcases hsourced.types i (lt_size_of_path? hi) with hlt | ⟨tree, htree, d, hd, hsite⟩
    · have hx : predefinedTypes[i]? = some predefinedTypes[i] := List.getElem?_eq_getElem hlt
      rw [path?_predefined hrecords hsourced hx] at hi
      exact .inl ⟨_, List.getElem_mem _, (Option.some.inj hi).symm⟩
    · obtain ⟨q, hq⟩ := SyntaxTree.exists_located hd
      have hdeclared := declaredType?_of_mem_decls hapart hsite
      rw [declaredType?_iff_path hapart htree hq, hi] at hdeclared
      exact .inr ⟨tree, htree, d, Option.some.inj hdeclared ▸ hq⟩
  · rintro (⟨x, hx, rfl⟩ | ⟨tree, htree, d, hd⟩)
    · obtain ⟨i, hi⟩ := List.mem_iff_getElem?.1 hx
      exact ⟨i, path?_predefined hrecords hsourced hi⟩
    · obtain ⟨i, -, hi⟩ := exists_declared_of_located hapart htree hd
      exact ⟨i, hi⟩

end

/-! ## Namespaces and global directives -/

section

variable {t : SymbolTable} {name : String}

theorem spaces_declarePart (file : FileId) (container : Container) (space : String) (d : TypeDecl)
    (t : SymbolTable) : (t.declarePart file container space d).2.spaces = t.spaces := by
  rw [declarePart]
  split <;> rw [addPart, foldl_addParamPart_eq]
  rw [addType_eq]

theorem globalUsings_declarePart (file : FileId) (container : Container) (space : String)
    (d : TypeDecl) (t : SymbolTable) :
    (t.declarePart file container space d).2.globalUsings = t.globalUsings := by
  rw [declarePart]
  split <;> rw [addPart, foldl_addParamPart_eq]
  rw [addType_eq]

/-- Steps that add names to the namespaces, one after another. -/
theorem mem_spaces_foldl {α : Type} {f : SymbolTable → α → SymbolTable} {names : α → List String}
    {as : List α}
    (h : ∀ a ∈ as, ∀ u : SymbolTable, name ∈ (f u a).spaces ↔ name ∈ u.spaces ∨ name ∈ names a) :
    name ∈ (as.foldl f t).spaces ↔ name ∈ t.spaces ∨ name ∈ as.flatMap names := by
  induction as generalizing t with
  | nil => simp
  | cons a as ih =>
    rw [List.foldl_cons, ih fun b hb => h b (List.mem_cons_of_mem a hb), h a List.mem_cons_self,
      List.flatMap_cons, List.mem_append, or_assoc]

/-- Declaring a member adds the names of its namespaces. -/
theorem mem_spaces_declareMember (file : FileId) (space : String) (m : Member) (t : SymbolTable) :
    name ∈ (declareMember file space t m).spaces ↔ name ∈ t.spaces ∨ name ∈ m.spaceNames space := by
  match m with
  | .type d =>
    have hspaces : (declareType file space (.space space) t d).spaces = t.spaces :=
      declareType_induction (P := fun u => u.spaces = t.spaces) file space _ d
        (fun e _ u container hu => (spaces_declarePart file container space e u).trans hu) rfl
    rw [declareMember_type, hspaces, Member.spaceNames_type]
    simp
  | .space n =>
    rw [declareMember_space, Member.spaceNames_space, mem_spaces_foldl fun m hm u =>
      have hlt : sizeOf m < 1 + sizeOf n :=
        Nat.lt_trans (List.sizeOf_lt_of_mem hm) (Nat.lt_add_left 1 n.sizeOf_members_lt)
      mem_spaces_declareMember file _ m u]
    simp only [declareSpace, List.mem_append]
    grind
  termination_by sizeOf m
  decreasing_by simpa using hlt

/-- The namespaces of a table are those that its trees name, with `System` and the global one. -/
theorem mem_spaces_bind (trees : List SyntaxTree) : name ∈ (bind trees).spaces ↔
    name ∈ initial.spaces ∨ ∃ tree ∈ trees, ∃ m ∈ tree.members, name ∈ m.spaceNames "" := by
  obtain ⟨params, hbind⟩ := exists_params_foldl_addAttribute
    (trees.flatMap (declareTrees trees).attributesOf) (declareTrees trees)
  have htree : ∀ tree ∈ trees, ∀ u : SymbolTable, name ∈ (u.declareTree tree).spaces ↔
      name ∈ u.spaces ∨ name ∈ tree.members.flatMap (Member.spaceNames "") :=
    fun tree _ u => mem_spaces_foldl fun m _ u => mem_spaces_declareMember tree.file "" m u
  rw [bind, hbind]
  exact (mem_spaces_foldl htree).trans (by simp only [List.mem_flatMap])

/-- The global directives of a table are those of its trees, one tree after another. -/
theorem globalUsings_bind (trees : List SyntaxTree) : (bind trees).globalUsings =
    trees.flatMap fun tree => (tree.usings.filter (·.isGlobal)).map fun u => (tree.file, u) := by
  obtain ⟨params, hbind⟩ := exists_params_foldl_addAttribute
    (trees.flatMap (declareTrees trees).attributesOf) (declareTrees trees)
  have htree : ∀ (tree : SyntaxTree) (u : SymbolTable), (u.declareTree tree).globalUsings =
      u.globalUsings ++ (tree.usings.filter (·.isGlobal)).map fun u => (tree.file, u) := by
    intro tree u
    have hmembers : (tree.members.foldl (declareMember tree.file "") u).globalUsings =
        u.globalUsings := by
      refine List.foldlRecOn tree.members _ (motive := fun v : SymbolTable =>
        v.globalUsings = u.globalUsings) rfl fun v hv m _ => ?_
      exact declareMember_induction (P := fun w => w.globalUsings = u.globalUsings) tree.file "" m
        (fun e _ w container space hw =>
          (globalUsings_declarePart tree.file container space e w).trans hw)
        (fun w name hw => hw) hv
    rw [declareTree, hmembers]
  have hall : ∀ (ts : List SyntaxTree) (u : SymbolTable), (ts.foldl declareTree u).globalUsings =
      u.globalUsings ++
        ts.flatMap fun tree => (tree.usings.filter (·.isGlobal)).map fun u => (tree.file, u) := by
    intro ts
    induction ts with
    | nil => simp
    | cons tree ts ih =>
      intro u
      rw [List.foldl_cons, ih, htree, List.flatMap_cons, List.append_assoc]
  rw [bind, hbind]
  exact hall trees initial

end

/-! ## Places -/

/-- Of blocks told apart by their keys, those with the key of one are this one. -/
theorem flatMap_eq_of_key {α β : Type} {key : α → Nat} {as : List α} (hkeys : (as.map key).Nodup)
    {a : α} (ha : a ∈ as) (f : α → List β) :
    (as.flatMap fun b => if key b = key a then f b else []) = f a := by
  induction as with
  | nil => exact absurd ha List.not_mem_nil
  | cons b as ih =>
    obtain ⟨hb, hkeys⟩ := List.nodup_cons.1 hkeys
    rw [List.flatMap_cons]
    rcases List.mem_cons.1 ha with rfl | ha
    · have hrest : (as.flatMap fun b => if key b = key a then f b else []) = [] := by
        refine List.flatMap_eq_nil_iff.2 fun c hc => if_neg fun heq => hb ?_
        exact heq ▸ List.mem_map_of_mem hc
      rw [hrest, if_pos rfl, List.append_nil]
    · have hne : key b ≠ key a := fun heq => hb (heq ▸ List.mem_map_of_mem ha)
      rw [if_neg hne, List.nil_append, ih hkeys ha]

/-- Where a declaration in a file declares a parameter, if it is of the type that owns it. -/
def placeIn (t : SymbolTable) (p : TypeParamSymbol) (file : FileId) (d : TypeDecl) :
    Option Location :=
  if t.declaredType? file d.nameSpan = some p.owner then
    (d.typeParams[p.ordinal]?).map fun q => ⟨file, q.nameSpan⟩
  else none

theorem file_of_placeIn {t : SymbolTable} {p : TypeParamSymbol} {file : FileId} {d : TypeDecl}
    {l : Location} (h : t.placeIn p file d = some l) : l.file = file := by
  rw [placeIn] at h
  split at h
  · obtain ⟨q, -, rfl⟩ := Option.map_eq_some_iff.1 h
    rfl
  · exact absurd h (by simp)

/-- The places of a parameter in a tree are in the order of the tree's declarations. -/
theorem locations_in_file {trees : List SyntaxTree} (hapart : (declaredSites trees).Nodup)
    (hfiles : (trees.map (·.file)).Nodup) {tree : SyntaxTree} (htree : tree ∈ trees) {j : TypeParamId}
    {p : TypeParamSymbol} (hp : (bind trees).typeParam? j = some p) :
    p.locations.filter (·.file = tree.file) =
      tree.typeDecls.filterMap ((bind trees).placeIn p tree.file) := by
  obtain ⟨parts, hrecords, hdeclares⟩ := exists_records_bind trees
  have hsites : (parts.flatMap sitesOf).Nodup := hdeclares.sites_eq ▸ hapart
  have hparts : p.locations =
      (parts.map fun x => (x.file, x.decl)).filterMap fun x => (bind trees).placeIn p x.1 x.2 := by
    rw [hrecords.paramLocations j p hp, List.filterMap_map, List.filterMap_filter]
    refine List.filterMap_congr fun x hx => ?_
    simp only [Function.comp_apply, placeIn, hrecords.declaredType? hsites hx, Option.some.injEq,
      Part.paramPlace?, decide_eq_true_eq]
  have hblock : ∀ u : SyntaxTree, (u.typeDecls.filterMap ((bind trees).placeIn p u.file)).filter
      (·.file = tree.file) = if u.file = tree.file then
        u.typeDecls.filterMap ((bind trees).placeIn p u.file) else [] := by
    intro u
    have hfile : ∀ l ∈ u.typeDecls.filterMap ((bind trees).placeIn p u.file), l.file = u.file := by
      intro l hl
      obtain ⟨d, -, hd⟩ := List.mem_filterMap.1 hl
      exact file_of_placeIn hd
    split
    · next heq => exact List.filter_eq_self.2 fun l hl => by simpa using (hfile l hl).trans heq
    · next hne =>
      exact List.filter_eq_nil_iff.2 fun l hl => by simpa [hfile l hl] using hne
  rw [hparts, hdeclares.listed, Standing.sites_flatMap]
  simp only [SyntaxTree.sites_tops, List.filterMap_flatMap, List.filterMap_map, List.filter_flatMap,
    Function.comp_def, hblock]
  exact flatMap_eq_of_key hfiles htree _

end SymbolTable

end SelfTypeLint
