import SelfTypeLint.Proofs.Symbol.Faithful
import SelfTypeLint.Proofs.Symbol.Lookup

/-!
# The attributes of parameters

A parameter has the attribute types that the attributes written on its declarations mean, and no others
(`mem_attributes_iff`). Attributes are looked up in the finished table as they are while trees are declared.
-/

namespace SelfTypeLint

namespace SymbolTable

/-! ## Declaring trees step by step -/

section

variable {P : SymbolTable → Prop}

/-- What declaring each part of a type keeps, declaring a type with all nested in it does. -/
theorem declareType_induction (file : FileId) (space : String) (container : Container) (d : TypeDecl)
    (hpart : ∀ e ∈ d.withNested, ∀ t container, P t → P (t.declarePart file container space e).2)
    {t : SymbolTable} (h : P t) : P (declareType file space container t d) := by
  rw [declareType_eq]
  refine List.foldlRecOn d.nested _ (hpart d d.mem_withNested_self t container h) fun u hu n hn => ?_
  have hlt := TypeDecl.sizeOf_lt_of_mem_nested hn
  exact declareType_induction file space _ n
    (fun e he => hpart e (TypeDecl.mem_withNested_of_nested hn he)) hu
  termination_by sizeOf d

/-- What declaring parts of types and namespaces keeps, declaring a member does. -/
theorem declareMember_induction (file : FileId) (space : String) (m : Member)
    (hpart : ∀ e ∈ m.typeDecls, ∀ t container space, P t →
      P (t.declarePart file container space e).2)
    (hspace : ∀ t name, P t → P (t.declareSpace name)) {t : SymbolTable} (h : P t) :
    P (declareMember file space t m) := by
  match m with
  | .type d =>
    rw [declareMember_type]
    rw [Member.typeDecls_type] at hpart
    exact declareType_induction file space _ d (fun e he t container => hpart e he t container space) h
  | .space n =>
    rw [declareMember_space]
    refine List.foldlRecOn n.members _ (hspace t _ h) fun u hu m hm => ?_
    have hlt : sizeOf m < 1 + sizeOf n :=
      Nat.lt_trans (List.sizeOf_lt_of_mem hm) (Nat.lt_add_left 1 n.sizeOf_members_lt)
    refine declareMember_induction file _ m (fun e he => hpart e ?_) hspace hu
    rw [Member.typeDecls_space]
    exact List.mem_flatMap.2 ⟨m, hm, he⟩
  termination_by sizeOf m
  decreasing_by simpa using hlt

/-- What each step of declaring trees keeps holds of their table. -/
theorem declareTrees_induction {trees : List SyntaxTree} (hinitial : P initial)
    (hpart : ∀ tree ∈ trees, ∀ d ∈ tree.typeDecls, ∀ t container space, P t →
      P (t.declarePart tree.file container space d).2)
    (hspace : ∀ t name, P t → P (t.declareSpace name))
    (hglobal : ∀ t usings, P t → P { t with globalUsings := usings }) : P (declareTrees trees) := by
  refine List.foldlRecOn trees _ hinitial fun t ht tree htree => ?_
  refine hglobal _ _ (List.foldlRecOn tree.members _ ht fun u hu m hm => ?_)
  exact declareMember_induction tree.file "" m
    (fun e he => hpart tree htree e (List.mem_flatMap.2 ⟨m, hm, he⟩)) hspace hu

end

/-! ## Attributes -/

/-- Holds of a table whose parameters have no attributes. -/
def Bare (t : SymbolTable) : Prop :=
  ∀ (j : TypeParamId) (p : TypeParamSymbol), t.params[j]? = some p → p.attributes = []

theorem Bare.addPart {t : SymbolTable} (h : t.Bare) (file : FileId) (id : TypeId) (d : TypeDecl) :
    (t.addPart file id d).Bare := by
  refine List.foldlRecOn _ _ (show Bare _ from h) fun u hu part _ => ?_
  intro j p hp
  simp only [addParamPart, Array.getElem?_modify] at hp
  split at hp
  · obtain ⟨q, hq, rfl⟩ := Option.map_eq_some_iff.1 hp
    exact hu j q hq
  · exact hu j p hp

theorem Bare.addType {t : SymbolTable} (h : t.Bare) (container : Container) (space : String)
    (d : TypeDecl) : (t.addType container space d).Bare := by
  intro j p hp
  rw [params_addType] at hp
  split at hp
  · exact h j p hp
  · rw [newParams_getElem?] at hp
    obtain ⟨q, -, rfl⟩ := Option.map_eq_some_iff.1 hp
    rfl

/-- While trees are declared no parameter has attributes. -/
theorem bare_declareTrees (trees : List SyntaxTree) : (declareTrees trees).Bare := by
  apply declareTrees_induction
  · intro j p hp
    simp [initial] at hp
  · intro tree _ d _ t container space ht
    rw [declarePart]
    split
    · exact ht.addPart tree.file _ d
    · exact (ht.addType container space d).addPart tree.file _ d
  · exact fun t name ht => ht
  · exact fun t usings ht => ht

/-- Recording attributes gives each parameter those that are recorded of it, besides its own. -/
theorem attributes_foldl_addAttribute (found : List (TypeParamId × TypeId)) {t : SymbolTable}
    {j : TypeParamId} {p : TypeParamSymbol}
    (h : (found.foldl (fun t (p, type) => t.addAttribute p type) t).params[j]? = some p) :
    ∃ q, t.params[j]? = some q ∧ ∀ id, id ∈ p.attributes ↔ id ∈ q.attributes ∨ (j, id) ∈ found := by
  induction found generalizing t with
  | nil => exact ⟨p, h, by simp⟩
  | cons x rest ih =>
    obtain ⟨param, type⟩ := x
    obtain ⟨q, hq, hall⟩ := ih h
    simp only [addAttribute, Array.getElem?_modify] at hq
    by_cases hj : param = j
    · rw [if_pos hj] at hq
      obtain ⟨r, hr, rfl⟩ := Option.map_eq_some_iff.1 hq
      refine ⟨r, hr, fun id => ?_⟩
      rw [hall, List.mem_cons]
      subst hj
      split <;> grind
    · rw [if_neg hj] at hq
      refine ⟨q, hq, fun id => ?_⟩
      rw [hall, List.mem_cons]
      grind

/-- What the attributes of a tree's declarations give to parameters. -/
theorem mem_attributesOf {t : SymbolTable} {tree : SyntaxTree} {j : TypeParamId} {id : TypeId} :
    (j, id) ∈ t.attributesOf tree ↔ ∃ d ∈ tree.typeDecls, ∃ owner,
      t.declaredType? tree.file d.nameSpan = some owner ∧ ∃ q ∈ d.typeParams,
        t.declaredTypeParam? tree.file q.nameSpan = some j ∧ ∃ l ∈ q.attributes,
          ∃ a ∈ l.attributes, (Scope.ofDecl t tree d owner).resolveAttribute a.name = some id := by
  simp only [attributesOf, List.mem_flatMap]
  refine exists_congr fun d => and_congr_right fun _ => ?_
  split
  · next hnone => simp [hnone]
  · next owner howner =>
    simp only [howner, Option.some.injEq, exists_eq_left', List.mem_flatMap]
    refine exists_congr fun q => and_congr_right fun _ => ?_
    split
    · next hnone => simp [hnone]
    · next k hk =>
      simp only [hk, Option.some.injEq, List.mem_filterMap, List.mem_flatMap, Option.map_eq_some_iff,
        Prod.mk.injEq]
      grind

/-- Recording attributes changes parameters only. -/
theorem exists_params_foldl_addAttribute (found : List (TypeParamId × TypeId)) (t : SymbolTable) :
    ∃ params, found.foldl (fun t (p, type) => t.addAttribute p type) t = { t with params } := by
  induction found generalizing t with
  | nil => exact ⟨t.params, rfl⟩
  | cons x rest ih =>
    obtain ⟨params, h⟩ := ih (t.addAttribute x.1 x.2)
    exact ⟨params, h⟩

/-- An attribute means the same before and after the attributes are recorded. -/
theorem resolveAttribute_bind (trees : List SyntaxTree) (tree : SyntaxTree) (d : TypeDecl)
    (owner : TypeId) (e : TypeExpr) : (Scope.ofDecl (bind trees) tree d owner).resolveAttribute e =
      (Scope.ofDecl (declareTrees trees) tree d owner).resolveAttribute e := by
  obtain ⟨params, hbind⟩ := exists_params_foldl_addAttribute
    (trees.flatMap (declareTrees trees).attributesOf) (declareTrees trees)
  have halike : Scope.Alike (Scope.ofDecl (declareTrees trees) tree d owner)
      (Scope.ofDecl (bind trees) tree d owner) := by
    have hchain : ({ declareTrees trees with params } : SymbolTable).typeChain owner =
        (declareTrees trees).typeChain owner := by
      apply typeChain_congr
      exact fun _ => rfl
    rw [bind, hbind]
    exact ⟨rfl, rfl, hchain, rfl⟩
  exact halike.resolveAttribute e

/-- A parameter has the attribute types that are meant by the attributes on its declarations. -/
theorem mem_attributes_iff (trees : List SyntaxTree) {j : TypeParamId} {p : TypeParamSymbol}
    (h : (bind trees).typeParam? j = some p) (id : TypeId) :
    id ∈ p.attributes ↔ ∃ tree ∈ trees, ∃ d ∈ tree.typeDecls, ∃ owner,
      (bind trees).declaredType? tree.file d.nameSpan = some owner ∧ ∃ q ∈ d.typeParams,
        (bind trees).declaredTypeParam? tree.file q.nameSpan = some j ∧
          ∃ l ∈ q.attributes, ∃ a ∈ l.attributes,
            (Scope.ofDecl (bind trees) tree d owner).resolveAttribute a.name = some id := by
  obtain ⟨q, hq, hall⟩ := attributes_foldl_addAttribute _ h
  obtain ⟨params, hbind⟩ := exists_params_foldl_addAttribute
    (trees.flatMap (declareTrees trees).attributesOf) (declareTrees trees)
  rw [hall, bare_declareTrees trees j q hq, List.mem_flatMap]
  simp only [List.not_mem_nil, false_or, mem_attributesOf, resolveAttribute_bind]
  rw [bind, hbind]
  rfl

/-- The attributes that declarations give to parameters are found with the finished table, too. -/
theorem attributesOf_bind (trees : List SyntaxTree) :
    (bind trees).attributesOf = (declareTrees trees).attributesOf := by
  funext tree
  obtain ⟨params, hbind⟩ := exists_params_foldl_addAttribute
    (trees.flatMap (declareTrees trees).attributesOf) (declareTrees trees)
  simp only [attributesOf, resolveAttribute_bind]
  rw [bind, hbind]
  rfl

/-- Recording the same attributes in tables without any gives parameters the same attributes. -/
theorem map_attributes_foldl (found : List (TypeParamId × TypeId)) {t t' : SymbolTable}
    (h : ∀ j, (t'.typeParam? j).map (·.attributes) = (t.typeParam? j).map (·.attributes))
    (j : TypeParamId) :
    ((found.foldl (fun t (p, type) => t.addAttribute p type) t').typeParam? j).map (·.attributes) =
      ((found.foldl (fun t (p, type) => t.addAttribute p type) t).typeParam? j).map
        (·.attributes) := by
  induction found generalizing t t' with
  | nil => exact h j
  | cons x found ih =>
    refine ih fun k => ?_
    have hadd : ∀ t : SymbolTable, ((t.addAttribute x.1 x.2).typeParam? k).map (·.attributes) =
        ((t.typeParam? k).map (·.attributes)).map fun l =>
          if x.1 = k ∧ ¬ l.contains x.2 then l ++ [x.2] else l := by
      intro t
      simp only [addAttribute, typeParam?, Array.getElem?_modify]
      by_cases hk : x.1 = k
      · cases t.params[k]? with
        | none => simp [hk]
        | some p => by_cases hc : x.2 ∈ p.attributes <;> simp [hk, hc]
      · cases t.params[k]? <;> simp [hk]
    rw [hadd, hadd, h k]

/-- The parameters of two tables have the same attributes if these are found in the same order. -/
theorem map_attributes_bind {trees trees' : List SyntaxTree}
    (hsize : (declareTrees trees').params.size = (declareTrees trees).params.size)
    (hfound : trees'.flatMap (bind trees').attributesOf = trees.flatMap (bind trees).attributesOf)
    (j : TypeParamId) : ((bind trees').typeParam? j).map (·.attributes) =
      ((bind trees).typeParam? j).map (·.attributes) := by
  have hnone : ∀ (trees : List SyntaxTree) (k : TypeParamId),
      ((declareTrees trees).typeParam? k).map (·.attributes) =
        if k < (declareTrees trees).params.size then some [] else none := by
    intro trees k
    cases hk : (declareTrees trees).typeParam? k with
    | none =>
      have hle := Array.getElem?_eq_none_iff.1 hk
      rw [if_neg (Nat.not_lt.2 hle), Option.map_none]
    | some p =>
      rw [if_pos (Array.getElem?_eq_some_iff.1 hk).1, Option.map_some, bare_declareTrees trees k p hk]
  rw [attributesOf_bind, attributesOf_bind] at hfound
  rw [bind, bind, hfound]
  exact map_attributes_foldl _ (fun k => by rw [hnone, hnone, hsize]) j

/-! ## Containers -/

theorem Records.containingType_of_member? {t : SymbolTable} {parts : List Part}
    (h : t.Records parts) {container : Container} {name : String} {arity : Nat} {id : TypeId}
    (hfound : t.member? container name arity = some id) :
    ∃ s, t.typeSymbol? id = some s ∧ s.containingType = outer? container := by
  obtain ⟨s, hs, hkey⟩ := (h.members _ id).1 hfound
  refine ⟨s, hs, ?_⟩
  have hcontainer : s.key.container = container := congrArg TypeKey.container hkey
  unfold TypeSymbol.key at hcontainer
  dsimp only at hcontainer
  rw [← hcontainer]
  split <;> simp_all [outer?]

end SymbolTable

theorem Workspace.table_of_scopeOf? {w : Workspace} {file : FileId} {d : TypeDecl} {s : Scope}
    (h : w.scopeOf? file d = some s) : s.table = w.symbols := by
  simp only [scopeOf?, Option.bind_eq_bind, Option.bind_eq_some_iff] at h
  obtain ⟨_, -, owner, -, h⟩ := h
  rw [← Option.some.inj h]
  rfl

end SelfTypeLint
