import SelfTypeLint.Proofs.Symbol.Renumbered

/-!
# Scopes of trees in another order

Declarations of trees in another order have the renumbered types and parameters, and names have the same
meanings in their scopes, as long as no name is given by two global aliases. So a parameter carries the
same attributes, and if parts of one type spell their parameters alike it has the same name.
-/

namespace SelfTypeLint

open SymbolTable Scope

namespace TypeRef

/-- A type under renumberings of definitions and parameters. -/
def renumber (f : TypeId → TypeId) (g : TypeParamId → TypeParamId) : TypeRef → TypeRef
  | named definition args => named (f definition) (args.map (renumber f g))
  | param id => param (g id)
  | error => error

mutual

/-- Types are equal if they are after renumbering. -/
theorem renumber_injective {f : TypeId → TypeId} {g : TypeParamId → TypeParamId}
    (hf : ∀ i j, f i = f j → i = j) (hg : ∀ i j, g i = g j → i = j) :
    ∀ a b : TypeRef, a.renumber f g = b.renumber f g → a = b
  | named d as, b => by
    cases b with
    | named e bs =>
      intro h
      simp only [renumber, named.injEq] at h
      rw [hf d e h.1, map_renumber_injective hf hg as bs h.2]
    | param j => simp [renumber]
    | error => simp [renumber]
  | param i, b => by
    cases b with
    | param j =>
      intro h
      rw [hg i j (by simpa [renumber] using h)]
    | named e bs => simp [renumber]
    | error => simp [renumber]
  | error, b => by cases b <;> simp [renumber]

theorem map_renumber_injective {f : TypeId → TypeId} {g : TypeParamId → TypeParamId}
    (hf : ∀ i j, f i = f j → i = j) (hg : ∀ i j, g i = g j → i = j) :
    ∀ as bs : List TypeRef, as.map (renumber f g) = bs.map (renumber f g) → as = bs
  | [], bs => by cases bs <;> simp
  | a :: as, bs => by
    cases bs with
    | nil => simp
    | cons b bs =>
      intro h
      obtain ⟨ha, has⟩ := List.cons.inj h
      rw [renumber_injective hf hg a b ha, map_renumber_injective hf hg as bs has]

end

end TypeRef

namespace SymbolTable

/-- Holds of two orders of some trees with renumberings between their tables. -/
structure Rebinds (σ : FileId → FileId) (f : TypeId → TypeId) (g : TypeParamId → TypeParamId)
    (trees trees' : List SyntaxTree) : Prop extends Reorders σ trees trees',
    Renumbers f g (bind trees) (bind trees') where
  apart : (declaredSites trees).Nodup
  apart' : (declaredSites trees').Nodup
  files : (trees.map (·.file)).Nodup
  files' : (trees'.map (·.file)).Nodup

/-- Holds of trees whose declarations of one type spell its parameters alike. -/
def SpelledAlike (trees : List SyntaxTree) : Prop :=
  ∀ tree ∈ trees, ∀ tree' ∈ trees, ∀ d ∈ tree.typeDecls, ∀ d' ∈ tree'.typeDecls,
    (bind trees).declaredType? tree.file d.nameSpan =
      (bind trees).declaredType? tree'.file d'.nameSpan →
    d.typeParams.map (·.name) = d'.typeParams.map (·.name)

/-- Holds of directives that are not both for an alias of one name. -/
def AliasApart (a b : FileId × UsingDirective) : Prop :=
  a.2.kind = .ofAlias → b.2.kind = .ofAlias →
    ∀ name ∈ a.2.newName, name ∉ b.2.newName

instance : DecidableRel AliasApart := fun _ _ => inferInstanceAs (Decidable (_ → _ → ∀ _ ∈ _, _))

instance : Std.Symm AliasApart := ⟨fun _ _ hab ha hb name hname heq => hab hb ha name heq hname⟩

/-- What is found of two lists with the same elements is the same if only one can be. -/
theorem find?_eq_of_mem_iff {α : Type} {as bs : List α} {q : α → Bool} (hmem : ∀ a, a ∈ bs ↔ a ∈ as)
    (honly : ∀ a ∈ as, ∀ b ∈ as, q a = true → q b = true → a = b) : bs.find? q = as.find? q := by
  cases ha : as.find? q with
  | none =>
    rw [List.find?_eq_none] at ha ⊢
    exact fun b hb => ha b ((hmem b).1 hb)
  | some a =>
    cases hb : bs.find? q with
    | none =>
      rw [List.find?_eq_none] at hb
      exact absurd (List.find?_some ha) (hb a ((hmem a).2 (List.mem_of_find?_eq_some ha)))
    | some b =>
      rw [honly a (List.mem_of_find?_eq_some ha) b ((hmem b).1 (List.mem_of_find?_eq_some hb))
        (List.find?_some ha) (List.find?_some hb)]

/-- The global directives that a file gets from others. -/
def foreign (t : SymbolTable) (file : FileId) : List UsingDirective :=
  (t.globalUsings.filter (·.1 ≠ file)).map (·.2)

theorem mem_foreign {t : SymbolTable} {file : FileId} {u : UsingDirective} :
    u ∈ foreign t file ↔ ∃ file', file' ≠ file ∧ (file', u) ∈ t.globalUsings := by
  simp only [foreign, List.mem_map, List.mem_filter, decide_eq_true_eq]
  constructor
  · rintro ⟨⟨file', u⟩, ⟨hu, hne⟩, rfl⟩
    exact ⟨file', hne, hu⟩
  · rintro ⟨file', hne, hu⟩
    exact ⟨_, ⟨hu, hne⟩, rfl⟩

namespace Rebinds

variable {σ : FileId → FileId} {f : TypeId → TypeId} {g : TypeParamId → TypeParamId}
  {trees trees' : List SyntaxTree} (h : Rebinds σ f g trees trees') {tree : SyntaxTree}
  {d : TypeDecl}

include h

theorem declaredType? (htree : tree ∈ trees) (hd : d ∈ tree.typeDecls) :
    (bind trees').declaredType? (σ tree.file) d.nameSpan =
      ((bind trees).declaredType? tree.file d.nameSpan).map f := by
  obtain ⟨parts', hrecords', -⟩ := exists_records_bind trees'
  obtain ⟨p, hp⟩ := SyntaxTree.exists_located hd
  obtain ⟨i, hi, hpath⟩ := exists_declared_of_located h.apart htree hp
  obtain ⟨i', hi', hpath'⟩ := exists_declared_of_located h.apart' (h.mem_refile htree)
    (hp.refile (σ tree.file))
  rw [hi, Option.map_some, ← hrecords'.eq_of_path hpath' ((h.path i).trans hpath)]
  exact hi'

/-- The symbol of a declaration's type keeps what it says. -/
theorem exists_symbols (htree : tree ∈ trees) (hd : d ∈ tree.typeDecls) : ∃ i s s',
    (bind trees).declaredType? tree.file d.nameSpan = some i ∧
    (bind trees).typeSymbol? i = some s ∧ (bind trees').typeSymbol? (f i) = some s' ∧
    s'.typeParams = s.typeParams.map g := by
  obtain ⟨parts, hrecords, -⟩ := exists_records_bind trees
  obtain ⟨parts', hrecords', -⟩ := exists_records_bind trees'
  obtain ⟨-, i, s, -, hi, hs, -⟩ := (faithful_bind h.apart).declared tree htree d hd
  obtain ⟨s', hs', -, -, hparams, -⟩ := h.typeSymbol? hrecords hrecords' hs
  exact ⟨i, s, s', hi, hs, hs', hparams⟩

theorem declaredTypeParam? (htree : tree ∈ trees) (hd : d ∈ tree.typeDecls) {q : TypeParam}
    (hq : q ∈ d.typeParams) : (bind trees').declaredTypeParam? (σ tree.file) q.nameSpan =
      ((bind trees).declaredTypeParam? tree.file q.nameSpan).map g := by
  obtain ⟨i, s, s', hi, hs, hs', hparams⟩ := h.exists_symbols htree hd
  obtain ⟨k, hk⟩ := List.mem_iff_getElem?.1 hq
  obtain ⟨-, i₀, s₀, -, hi₀, hs₀, -, hall⟩ := (faithful_bind h.apart).declared tree htree d hd
  obtain rfl := Option.some.inj (hi.symm.trans hi₀)
  obtain rfl := Option.some.inj (hs.symm.trans hs₀)
  obtain ⟨-, i', s₁, -, hi', hs₁, -, hall'⟩ :=
    (faithful_bind h.apart').declared _ (h.mem_refile htree) d hd
  have hrenumbered := h.declaredType? htree hd
  rw [hi, Option.map_some] at hrenumbered
  obtain rfl := Option.some.inj (hi'.symm.trans hrenumbered)
  obtain rfl := Option.some.inj (hs'.symm.trans hs₁)
  obtain ⟨j, hj, hsj⟩ := hall k q hk
  obtain ⟨j', hj', hsj'⟩ := hall' k q hk
  rw [hparams, List.getElem?_map, hsj, Option.map_some] at hsj'
  rw [hj, Option.map_some, Option.some.inj hsj']
  exact hj'

theorem isSpace (name : String) : (bind trees').isSpace name = (bind trees).isSpace name := by
  rw [Bool.eq_iff_iff]
  simp only [SymbolTable.isSpace, List.contains_iff_mem, mem_spaces_bind]
  refine or_congr_right ⟨?_, ?_⟩
  · rintro ⟨tree', htree', m, hm, hname⟩
    obtain ⟨tree, htree, rfl⟩ := (h.mem tree').1 htree'
    exact ⟨tree, htree, m, hm, hname⟩
  · rintro ⟨tree, htree, m, hm, hname⟩
    exact ⟨_, h.mem_refile htree, m, hm, hname⟩

theorem renames : Renames f (bind trees) (bind trees') := by
  obtain ⟨parts, hrecords, -⟩ := exists_records_bind trees
  obtain ⟨parts', hrecords', -⟩ := exists_records_bind trees'
  exact ⟨h.typeInjective, h.member? hrecords hrecords', h.isSpace⟩

/-! ## Levels -/

/-- The global directives of other files are the same. -/
theorem mem_globalUsings {file : FileId} {u : UsingDirective} :
    (σ file, u) ∈ (bind trees').globalUsings ↔ (file, u) ∈ (bind trees).globalUsings := by
  simp only [globalUsings_bind, List.mem_flatMap, List.mem_map, Prod.mk.injEq]
  constructor
  · rintro ⟨tree', htree', u', hu', hfile, rfl⟩
    obtain ⟨tree, htree, rfl⟩ := (h.mem tree').1 htree'
    exact ⟨tree, htree, u', hu', h.injective _ _ hfile, rfl⟩
  · rintro ⟨tree, htree, u', hu', rfl, rfl⟩
    exact ⟨_, h.mem_refile htree, u', hu', rfl, rfl⟩

theorem exists_file_of_mem_globalUsings {file' : FileId} {u : UsingDirective}
    (hu : (file', u) ∈ (bind trees').globalUsings) : ∃ file, file' = σ file := by
  simp only [globalUsings_bind, List.mem_flatMap, List.mem_map, Prod.mk.injEq] at hu
  obtain ⟨tree', htree', u', hu', rfl, rfl⟩ := hu
  obtain ⟨tree, htree, rfl⟩ := (h.mem tree').1 htree'
  exact ⟨tree.file, rfl⟩

theorem mem_foreign_iff (file : FileId) (u : UsingDirective) :
    u ∈ foreign (bind trees') (σ file) ↔ u ∈ foreign (bind trees) file := by
  rw [mem_foreign, mem_foreign]
  constructor
  · rintro ⟨x', hne, hu⟩
    obtain ⟨x, rfl⟩ := h.exists_file_of_mem_globalUsings hu
    exact ⟨x, fun heq => hne (heq ▸ rfl), h.mem_globalUsings.1 hu⟩
  · rintro ⟨x, hne, hu⟩
    exact ⟨σ x, fun heq => hne (h.injective _ _ heq), h.mem_globalUsings.2 hu⟩

variable (haliases : (bind trees).globalUsings.Pairwise AliasApart)

include haliases

/-- The outermost levels of a file agree. -/
theorem agree_global (usings : List UsingDirective) (file : FileId) :
    Agree ⟨"", usings ++ foreign (bind trees) file⟩ ⟨"", usings ++ foreign (bind trees') (σ file)⟩ where
  space := rfl
  uses m := by
    simp only [List.map_append, List.mem_append, List.mem_map, h.mem_foreign_iff]
  target name := by
    have honly : ∀ u ∈ foreign (bind trees) file, ∀ v ∈ foreign (bind trees) file,
        (u.kind = .ofAlias && u.newName == some name) = true →
        (v.kind = .ofAlias && v.newName == some name) = true → u = v := by
      intro u hu v hv hun hvn
      obtain ⟨x, -, hx⟩ := mem_foreign.1 hu
      obtain ⟨y, -, hy⟩ := mem_foreign.1 hv
      simp only [Bool.and_eq_true, decide_eq_true_eq, beq_iff_eq] at hun hvn
      by_contra hne
      exact haliases.forall hx hy (fun heq => hne (Prod.mk.inj heq).2) hun.1 hvn.1 name hun.2 hvn.2
    rw [Level.alias?, Level.alias?, List.find?_append, List.find?_append,
      find?_eq_of_mem_iff (h.mem_foreign_iff file) honly]

/-- Names have the same meanings in the scope of a declaration. -/
theorem carries (tree : SyntaxTree) (d : TypeDecl) (i : TypeId) :
    Carries f (.ofDecl (bind trees) tree d i)
      (.ofDecl (bind trees') (tree.refile (σ tree.file)) d (f i)) where
  table := h.renames
  types := by
    obtain ⟨parts, hrecords, -⟩ := exists_records_bind trees
    obtain ⟨parts', hrecords', -⟩ := exists_records_bind trees'
    exact h.typeChain hrecords hrecords' i
  levels := by
    refine List.rel_reverse (List.Forall₂.cons (h.agree_global haliases tree.usings tree.file) ?_)
    exact List.forall₂_same.2 fun l _ => ⟨rfl, fun _ => Iff.rfl, fun _ => rfl⟩

/-! ## Parameters -/

/-- A parameter carries the attributes that it carried. -/
theorem mem_attributes_iff {j : TypeParamId} {p p' : TypeParamSymbol}
    (hp : (bind trees).typeParam? j = some p) (hp' : (bind trees').typeParam? (g j) = some p')
    (id : TypeId) : f id ∈ p'.attributes ↔ id ∈ p.attributes := by
  rw [SymbolTable.mem_attributes_iff _ hp, SymbolTable.mem_attributes_iff _ hp']
  have hresolve : ∀ tree d i e, (Scope.ofDecl (bind trees') (tree.refile (σ tree.file)) d
      (f i)).resolveAttribute e = some (f id) ↔
        (Scope.ofDecl (bind trees) tree d i).resolveAttribute e = some id := by
    intro tree d i e
    rw [(h.carries haliases tree d i).resolveAttribute, Option.map_eq_some_iff]
    constructor
    · rintro ⟨id', hid', heq⟩
      exact h.typeInjective _ _ heq ▸ hid'
    · intro hid
      exact ⟨id, hid, rfl⟩
  constructor
  · rintro ⟨tree', htree', d, hd, owner', howner', q, hq, hj', l, hl, a, ha, hid⟩
    obtain ⟨tree, htree, rfl⟩ := (h.mem tree').1 htree'
    obtain ⟨owner, howner, rfl⟩ :=
      Option.map_eq_some_iff.1 ((h.declaredType? htree hd).symm.trans howner')
    obtain ⟨k, hj, heq⟩ :=
      Option.map_eq_some_iff.1 ((h.declaredTypeParam? htree hd hq).symm.trans hj')
    exact ⟨tree, htree, d, hd, owner, howner, q, hq, h.paramInjective _ _ heq ▸ hj, l, hl, a, ha,
      (hresolve tree d owner a.name).1 hid⟩
  · rintro ⟨tree, htree, d, hd, owner, howner, q, hq, hj, l, hl, a, ha, hid⟩
    refine ⟨_, h.mem_refile htree, d, hd, f owner, ?_, q, hq, ?_, l, hl, a, ha,
      (hresolve tree d owner a.name).2 hid⟩
    · exact (h.declaredType? htree hd).trans (by rw [howner, Option.map_some])
    · exact (h.declaredTypeParam? htree hd hq).trans (by rw [hj, Option.map_some])

omit haliases in
/-- The places of a parameter in a file are those that it had there. -/
theorem locations_in_file (htree : tree ∈ trees) {j : TypeParamId} {p p' : TypeParamSymbol}
    (hp : (bind trees).typeParam? j = some p) (hp' : (bind trees').typeParam? (g j) = some p') :
    p'.locations.filter (·.file = σ tree.file) =
      (p.locations.filter (·.file = tree.file)).map (.renumber σ) := by
  obtain ⟨parts, hrecords, -⟩ := exists_records_bind trees
  obtain ⟨parts', hrecords', -⟩ := exists_records_bind trees'
  obtain ⟨p₁, hp₁, -, howner, hordinal⟩ := h.typeParam? hrecords hrecords' hp
  obtain rfl := Option.some.inj (hp'.symm.trans hp₁)
  have hplaces := SymbolTable.locations_in_file h.apart' h.files' (h.mem_refile htree) hp'
  rw [SymbolTable.locations_in_file h.apart h.files htree hp, List.map_filterMap]
  refine hplaces.trans (List.filterMap_congr fun d hd => ?_)
  have hdeclared := h.declaredType? htree hd
  have hiff : (bind trees').declaredType? (σ tree.file) d.nameSpan = some (f p.owner) ↔
      (bind trees).declaredType? tree.file d.nameSpan = some p.owner := by
    rw [hdeclared, Option.map_eq_some_iff]
    constructor
    · rintro ⟨i, hi, heq⟩
      exact h.typeInjective _ _ heq ▸ hi
    · intro hi
      exact ⟨_, hi, rfl⟩
  simp only [placeIn, howner, hordinal, SyntaxTree.refile, hiff]
  split
  · rw [Option.map_map]
    rfl
  · rfl

omit haliases in
/-- A parameter has the name that it had, if the parts of each type spell their parameters alike. -/
theorem name_eq (hnames : SpelledAlike trees) {j : TypeParamId} {p p' : TypeParamSymbol}
    (hp : (bind trees).typeParam? j = some p) (hp' : (bind trees').typeParam? (g j) = some p') :
    p'.name = p.name := by
  obtain ⟨parts, hrecords, -⟩ := exists_records_bind trees
  obtain ⟨parts', hrecords', -⟩ := exists_records_bind trees'
  obtain ⟨p₁, hp₁, -, howner, hordinal⟩ := h.typeParam? hrecords hrecords' hp
  obtain rfl := Option.some.inj (hp'.symm.trans hp₁)
  obtain ⟨tree, htree, d, hd, hdeclared, hname⟩ := exists_spelling h.apart hp
  obtain ⟨u', hu', d', hd', hdeclared', hname'⟩ := exists_spelling h.apart' hp'
  obtain ⟨u, hu, rfl⟩ := (h.mem u').1 hu'
  obtain ⟨i, hi, heq⟩ :=
    Option.map_eq_some_iff.1 ((h.declaredType? hu hd').symm.trans hdeclared')
  have hsame : i = p.owner := h.typeInjective _ _ (heq.trans howner)
  rw [hnames u hu tree htree d' hd' d hd (by rw [hi, hdeclared, hsame]), hordinal, hname] at hname'
  exact (Option.some.inj hname').symm

/-! ## Types as they are written -/

section

variable (hnames : SpelledAlike trees)

include hnames

/-- The name of a parameter stands for the same parameter. -/
theorem typeParam?_ofDecl (tree : SyntaxTree) (d : TypeDecl) (i : TypeId) (name : String) :
    (Scope.ofDecl (bind trees') (tree.refile (σ tree.file)) d (f i)).typeParam? name =
      ((Scope.ofDecl (bind trees) tree d i).typeParam? name).map g := by
  obtain ⟨parts, hrecords, -⟩ := exists_records_bind trees
  obtain ⟨parts', hrecords', -⟩ := exists_records_bind trees'
  have hmatch : ∀ j, ((bind trees').typeParam? (g j)).any (·.name == name) =
      ((bind trees).typeParam? j).any (·.name == name) := by
    intro j
    cases hp : (bind trees).typeParam? j with
    | none => rw [h.typeParam?_eq_none hrecords' hp]
    | some p =>
      obtain ⟨p', hp', -⟩ := h.typeParam? hrecords hrecords' hp
      rw [hp', Option.any_some, Option.any_some, h.name_eq hnames hp hp']
  rw [Scope.typeParam?, Scope.typeParam?, (h.carries haliases tree d i).types, List.findSome?_map,
    List.map_findSome?]
  congr 1
  funext id
  simp only [Function.comp_apply, Option.bind_eq_bind]
  rw [Scope.ofDecl, Scope.ofDecl]
  dsimp only
  cases hs : (bind trees).typeSymbol? id with
  | none => rw [h.typeSymbol?_eq_none hrecords hrecords' hs]; rfl
  | some s =>
    obtain ⟨s', hs', -, -, hparams, -⟩ := h.typeSymbol? hrecords hrecords' hs
    rw [hs', Option.bind_some, Option.bind_some, hparams, List.find?_map]
    exact congrArg (Option.map g) (congrArg (List.find? · s.typeParams) (funext hmatch))

omit haliases hnames in
/-- The types of `System` keep their numbers. -/
theorem eq_of_predefined {keyword : String} {i : TypeId} (hi : predefined? keyword = some i) :
    f i = i := by
  obtain ⟨parts, hrecords, -⟩ := exists_records_bind trees
  obtain ⟨parts', hrecords', -⟩ := exists_records_bind trees'
  obtain ⟨hlt, -⟩ := List.findIdx?_eq_some_iff_getElem.1 hi
  have hx := List.getElem?_eq_getElem hlt
  have hpath := path?_predefined hrecords (sourced_bind trees) hx
  exact hrecords'.eq_of_path ((h.path i).trans hpath)
    (path?_predefined hrecords' (sourced_bind trees') hx)

theorem asParam? (tree : SyntaxTree) (d : TypeDecl) (i : TypeId) (isGlobal : Bool)
    (segments : List (NameSegment TypeExpr)) :
    (Scope.ofDecl (bind trees') (tree.refile (σ tree.file)) d (f i)).asParam? isGlobal segments =
      ((Scope.ofDecl (bind trees) tree d i).asParam? isGlobal segments).map g := by
  match segments with
  | [] | _ :: _ :: _ => rfl
  | [only] =>
    rw [Scope.asParam?, Scope.asParam?, h.typeParam?_ofDecl haliases hnames]
    split <;> rfl

/-- A written type means the same type. -/
theorem resolve (tree : SyntaxTree) (d : TypeDecl) (i : TypeId) (e : TypeExpr) :
    (Scope.ofDecl (bind trees') (tree.refile (σ tree.file)) d (f i)).resolve e =
      ((Scope.ofDecl (bind trees) tree d i).resolve e).renumber f g := by
  match e with
  | .predefined keyword span =>
    rw [resolve_predefined, resolve_predefined]
    cases hk : predefined? keyword with
    | none => simp only [TypeRef.renumber]
    | some k => simp only [TypeRef.renumber, h.eq_of_predefined hk, List.map_nil]
  | .path isGlobal segments span =>
    have hargs : ∀ a ∈ (TypeExpr.path isGlobal segments span).typeArgs,
        (Scope.ofDecl (bind trees') (tree.refile (σ tree.file)) d (f i)).resolve a =
          ((Scope.ofDecl (bind trees) tree d i).resolve a).renumber f g := fun a ha =>
      resolve tree d i a
    rw [resolve_path, resolve_path, h.asParam? haliases hnames,
      (h.carries haliases tree d i).lookup]
    cases (Scope.ofDecl (bind trees) tree d i).asParam? isGlobal segments with
    | some p => simp only [Option.map_some, TypeRef.renumber]
    | none =>
      cases (Scope.ofDecl (bind trees) tree d i).lookup isGlobal (segments.map .ofSegment) with
      | none => simp only [Option.map_none, TypeRef.renumber]
      | some id =>
        simp only [Option.map_none, Option.map_some, TypeRef.renumber, List.map_map]
        exact congrArg _ (List.map_congr_left hargs)
  | .array .. | .nullable .. | .tuple .. => simp only [Scope.resolve, TypeRef.renumber]
  termination_by sizeOf e
  decreasing_by exact TypeExpr.sizeOf_lt_of_mem_typeArgs ha

end

end Rebinds

end SymbolTable

end SelfTypeLint
