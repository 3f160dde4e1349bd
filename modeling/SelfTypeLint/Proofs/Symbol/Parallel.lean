import Mathlib.Data.List.Forall2
import SelfTypeLint.Proofs.Symbol.Lookup
import SelfTypeLint.Proofs.Symbol.Origins

/-!
# Trees in parallel

Trees are parallel if their declarations are related one by one, with the same kinds, names and numbers
of parameters, and stand in namespaces of the same names. Declaring them runs in step: their tables give
the same numbers to related types and to the parameters of these (`mirrors_bind`). Only places and the
names of parameters can be others, and the name of a parameter comes from related declarations.
-/

namespace SelfTypeLint

/-- Holds of declarations that make types with the same keys in one container. -/
structure TypeDecl.Matches (d d' : TypeDecl) : Prop where
  kind : d'.kind = d.kind
  name : d'.name = d.name
  arity : d'.arity = d.arity

/-- Holds of declarations that match and are related, as those nested in them are one by one. -/
inductive TypeDecl.Parallel (R : TypeDecl → TypeDecl → Prop) : TypeDecl → TypeDecl → Prop
  | mk {d d' : TypeDecl} (head : d.Matches d') (own : R d d')
    (nested : List.Forall₂ (Parallel R) d.nested d'.nested) : Parallel R d d'

/-- Holds of members whose declarations are parallel, in namespaces of the same names with directives
that are related. -/
inductive Member.Parallel (R : TypeDecl → TypeDecl → Prop)
    (S : List UsingDirective → List UsingDirective → Prop) : Member → Member → Prop
  | type {d d' : TypeDecl} (decl : d.Parallel R d') : Parallel R S (.type d) (.type d')
  | space {n n' : NamespaceDecl} (name : n'.name = n.name) (usings : S n.usings n'.usings)
    (members : List.Forall₂ (Parallel R S) n.members n'.members) : Parallel R S (.space n) (.space n')

/-- Holds of trees of one file whose members are parallel. -/
structure SyntaxTree.Parallel (R : FileId → TypeDecl → TypeDecl → Prop)
    (S : List UsingDirective → List UsingDirective → Prop) (t t' : SyntaxTree) : Prop where
  file : t'.file = t.file
  usings : S t.usings t'.usings
  members : List.Forall₂ (Member.Parallel (R t.file) S) t.members t'.members

/-- A type symbol without its places. -/
def TypeSymbol.unplaced (s : TypeSymbol) : TypeSymbol := { s with locations := [] }

namespace SymbolTable

/-- Holds of tables with the same types and namespaces, up to places, whose parameters have the same
owners. The names of a parameter are those that related declarations at one of the places give it. -/
structure Mirrors (R : FileId → TypeDecl → TypeDecl → Prop) (places : List (NameSite × TypeId))
    (t t' : SymbolTable) : Prop where
  types : t'.types.map TypeSymbol.unplaced = t.types.map TypeSymbol.unplaced
  members : t'.members = t.members
  spaces : t'.spaces = t.spaces
  size : t'.params.size = t.params.size
  params : ∀ (j : TypeParamId) (p p' : TypeParamSymbol), t.params[j]? = some p →
    t'.params[j]? = some p' → p'.owner = p.owner ∧ p'.ordinal = p.ordinal ∧
      ∃ file d d', R file d d' ∧ (⟨file, d.nameSpan⟩, p.owner) ∈ places ∧
        (d.typeParams.map (·.name))[p.ordinal]? = some p.name ∧
        (d'.typeParams.map (·.name))[p.ordinal]? = some p'.name

theorem size_params_addPart (t : SymbolTable) (file : FileId) (id : TypeId) (d : TypeDecl) :
    (t.addPart file id d).params.size = t.params.size := by
  rw [addPart]
  refine List.foldlRecOn _ _ (motive := fun u : SymbolTable => u.params.size = t.params.size) rfl ?_
  exact fun u hu part _ => (Array.size_modify ..).trans hu

namespace Mirrors

variable {R : FileId → TypeDecl → TypeDecl → Prop} {places : List (NameSite × TypeId)}
  {t t' : SymbolTable} {file : FileId} {d d' : TypeDecl}

theorem mono (h : Mirrors R places t t') {more : List (NameSite × TypeId)} (hsub : places ⊆ more) :
    Mirrors R more t t' where
  types := h.types
  members := h.members
  spaces := h.spaces
  size := h.size
  params j p p' hp hp' := by
    obtain ⟨howner, hordinal, file, d, d', hR, hplace, hnames⟩ := h.params j p p' hp hp'
    exact ⟨howner, hordinal, file, d, d', hR, hsub hplace, hnames⟩

theorem types_size (h : Mirrors R places t t') : t'.types.size = t.types.size := by
  simpa using congrArg Array.size h.types

theorem typeSymbol? (h : Mirrors R places t t') (i : TypeId) :
    (t'.typeSymbol? i).map TypeSymbol.unplaced = (t.typeSymbol? i).map TypeSymbol.unplaced := by
  have hget := congrArg (·[i]?) h.types
  simp only [Array.getElem?_map] at hget
  exact hget

/-- What is read off symbols without their places is the same. -/
theorem map_typeSymbol? (h : Mirrors R places t t') {α : Type} (f : TypeSymbol → α)
    (hf : ∀ s, f s.unplaced = f s) (i : TypeId) : (t'.typeSymbol? i).map f = (t.typeSymbol? i).map f := by
  have heq := congrArg (Option.map f) (h.typeSymbol? i)
  rw [Option.map_map, Option.map_map, show f ∘ TypeSymbol.unplaced = f from funext hf] at heq
  exact heq

theorem fullName? (h : Mirrors R places t t') : t'.fullName? = t.fullName? :=
  funext fun i => h.map_typeSymbol? (·.fullName) (fun _ => rfl) i

theorem member? (h : Mirrors R places t t') : t'.member? = t.member? := by
  funext container name arity
  rw [SymbolTable.member?, SymbolTable.member?, h.members]

/-! ## Declaring in step -/

/-- A part that is recorded of one type changes places only. -/
theorem addPart (h : Mirrors R places t t') (id : TypeId) :
    Mirrors R places (t.addPart file id d) (t'.addPart file id d') where
  types := by
    have hsame : ∀ (t : SymbolTable) (d : TypeDecl),
        (t.addPart file id d).types.map TypeSymbol.unplaced = t.types.map TypeSymbol.unplaced := by
      intro t d
      refine Array.ext_getElem? fun i => ?_
      rw [Array.getElem?_map, Array.getElem?_map, types_addPart, Option.map_map]
      rfl
    rw [hsame, hsame, h.types]
  members := by rw [members_addPart, members_addPart, h.members]
  spaces := by
    have hsame : ∀ (t : SymbolTable) (d : TypeDecl), (t.addPart file id d).spaces = t.spaces := by
      intro t d
      rw [SymbolTable.addPart, foldl_addParamPart_eq]
    rw [hsame, hsame, h.spaces]
  size := by rw [size_params_addPart, size_params_addPart, h.size]
  params j p p' hp hp' := by
    obtain ⟨q, l, hq, rfl⟩ := exists_of_params_addPart hp
    obtain ⟨q', l', hq', rfl⟩ := exists_of_params_addPart hp'
    exact h.params j q q' hq hq'

/-- A new type of declarations that match has the same symbol, and parameters that these name. -/
theorem addType (h : Mirrors R places t t') (hd : d.Matches d') (hR : R file d d')
    (container : Container) (space : String) :
    Mirrors R ((⟨file, d.nameSpan⟩, t.types.size) :: places) (t.addType container space d)
      (t'.addType container space d') := by
  have hlen : d'.typeParams.length = d.typeParams.length := hd.arity
  have hids : ∀ (t : SymbolTable) (d : TypeDecl), (newParams t.types.size t.params.size d).map (·.id) =
      (List.range d.typeParams.length).map (t.params.size + ·) := by
    intro t d
    refine List.ext_getElem? fun k => ?_
    rw [List.getElem?_map, newParams_getElem?, List.getElem?_map, Option.map_map]
    by_cases hk : k < d.typeParams.length
    · simp [hk]
    · simp [hk]
  constructor
  case types =>
    have hnew : (t'.newType container space d').unplaced = (t.newType container space d).unplaced := by
      rw [newType, newType, hids, hids, hlen, h.types_size, h.size, h.fullName?, hd.kind, hd.name]
    rw [addType_eq, addType_eq]
    simp only [Array.map_push, h.types, hnew]
  case members =>
    rw [addType_eq, addType_eq]
    simp only [h.members, h.types_size, hd.name, hd.arity]
  case spaces =>
    rw [addType_eq, addType_eq]
    exact h.spaces
  case size =>
    rw [addType_eq, addType_eq]
    simp [newParams, h.size, hlen]
  case params =>
    intro j p p' hp hp'
    rw [params_addType] at hp hp'
    rw [h.size] at hp'
    split at hp
    · next hj =>
      rw [if_pos hj] at hp'
      obtain ⟨howner, hordinal, file', e, e', hRe, hplace, hnames⟩ := h.params j p p' hp hp'
      exact ⟨howner, hordinal, file', e, e', hRe, List.mem_cons_of_mem _ hplace, hnames⟩
    · next hj =>
      rw [if_neg hj] at hp'
      rw [newParams_getElem?] at hp hp'
      obtain ⟨q, hq, rfl⟩ := Option.map_eq_some_iff.1 hp
      obtain ⟨q', hq', rfl⟩ := Option.map_eq_some_iff.1 hp'
      refine ⟨h.types_size, rfl, file, d, d', hR, List.mem_cons_self, ?_, ?_⟩
      · rw [List.getElem?_map, hq, Option.map_some]
      · rw [List.getElem?_map, hq', Option.map_some]

/-- Related declarations are parts of one type. -/
theorem declarePart (h : Mirrors R t.decls t t') (hd : d.Matches d') (hR : R file d d')
    (container : Container) (space : String) :
    (t'.declarePart file container space d').1 = (t.declarePart file container space d).1 ∧
      Mirrors R (t.declarePart file container space d).2.decls
        (t.declarePart file container space d).2 (t'.declarePart file container space d').2 := by
  rw [SymbolTable.declarePart, SymbolTable.declarePart, h.member?, hd.name, hd.arity]
  cases t.member? container d.name d.arity with
  | some id =>
    refine ⟨rfl, ?_⟩
    rw [decls_addPart]
    exact (h.addPart id).mono (List.subset_cons_self ..)
  | none =>
    dsimp only
    rw [h.types_size]
    refine ⟨rfl, ?_⟩
    rw [decls_addPart, addType_eq t]
    have hadd : Mirrors R _ ((t.addType container space d).addPart file t.types.size d)
        ((t'.addType container space d').addPart file t.types.size d') :=
      (h.addType hd hR container space).addPart t.types.size
    rwa [addType_eq t] at hadd

/-- Steps that keep tables in step do so along related lists. -/
theorem foldl {α : Type} {r : α → α → Prop} {f g : SymbolTable → α → SymbolTable} {as bs : List α}
    (hall : List.Forall₂ r as bs)
    (hstep : ∀ a ∈ as, ∀ b, r a b → ∀ t t', Mirrors R t.decls t t' →
      Mirrors R (f t a).decls (f t a) (g t' b))
    (h : Mirrors R t.decls t t') : Mirrors R (as.foldl f t).decls (as.foldl f t) (bs.foldl g t') := by
  induction hall generalizing t t' with
  | nil => exact h
  | cons hab _ ih =>
    exact ih (fun a ha => hstep a (List.mem_cons_of_mem _ ha))
      (hstep _ List.mem_cons_self _ hab _ _ h)

/-- Parallel declarations are declared in step. -/
theorem declareType {d d' : TypeDecl} (hd : d.Parallel (R file) d') {t t' : SymbolTable}
    (h : Mirrors R t.decls t t') (container : Container) (space : String) :
    Mirrors R (SymbolTable.declareType file space container t d).decls
      (SymbolTable.declareType file space container t d)
      (SymbolTable.declareType file space container t' d') := by
  cases hd with
  | mk head own nested =>
    obtain ⟨hid, hpart⟩ := h.declarePart head own container space
    rw [declareType_eq, declareType_eq, hid]
    refine hpart.foldl nested fun n hn n' hnn u u' hu => ?_
    have hlt := TypeDecl.sizeOf_lt_of_mem_nested hn
    exact declareType hnn hu _ _
  termination_by sizeOf d

/-- Parallel members are declared in step. -/
theorem declareMember {S : List UsingDirective → List UsingDirective → Prop} {m m' : Member}
    (hm : m.Parallel (R file) S m') {t t' : SymbolTable} (h : Mirrors R t.decls t t')
    (space : String) : Mirrors R (SymbolTable.declareMember file space t m).decls
      (SymbolTable.declareMember file space t m) (SymbolTable.declareMember file space t' m') := by
  cases hm with
  | type decl =>
    rw [declareMember_type, declareMember_type]
    exact declareType decl h _ _
  | @space n n' name _ members =>
    rw [declareMember_space, declareMember_space, name]
    have hspace : Mirrors R (t.declareSpace (Dotted.join space n.name)).decls
        (t.declareSpace (Dotted.join space n.name)) (t'.declareSpace (Dotted.join space n.name)) :=
      ⟨h.types, h.members, congrArg (_ ++ ·) h.spaces, h.size, h.params⟩
    refine hspace.foldl members fun m hm m' hmm u u' hu => ?_
    have hlt : sizeOf m < 1 + sizeOf n :=
      Nat.lt_trans (List.sizeOf_lt_of_mem hm) (Nat.lt_add_left 1 n.sizeOf_members_lt)
    exact declareMember hmm hu _
  termination_by sizeOf m
  decreasing_by simpa using hlt

end Mirrors

/-! ## Tables of parallel trees -/

section

variable {R : FileId → TypeDecl → TypeDecl → Prop}
  {S : List UsingDirective → List UsingDirective → Prop} {trees trees' : List SyntaxTree}

theorem mirrors_declareTrees (h : List.Forall₂ (SyntaxTree.Parallel R S) trees trees') :
    Mirrors R (declareTrees trees).decls (declareTrees trees) (declareTrees trees') := by
  have hinitial : Mirrors R initial.decls initial initial :=
    ⟨rfl, rfl, rfl, rfl, fun j p p' hp => by simp [initial] at hp⟩
  refine hinitial.foldl h fun tree _ tree' htree t t' ht => ?_
  have hmembers : Mirrors R (tree.members.foldl (declareMember tree.file "") t).decls
      (tree.members.foldl (declareMember tree.file "") t)
      (tree'.members.foldl (declareMember tree'.file "") t') := by
    rw [htree.file]
    exact ht.foldl htree.members fun m _ m' hm u u' hu => hu.declareMember hm ""
  exact ⟨hmembers.types, hmembers.members, hmembers.spaces, hmembers.size, hmembers.params⟩

/-- The tables of parallel trees have the same types, and parameters of the same owners. -/
theorem mirrors_bind (h : List.Forall₂ (SyntaxTree.Parallel R S) trees trees') :
    Mirrors R (bind trees).decls (bind trees) (bind trees') := by
  have hdeclared := mirrors_declareTrees h
  have hbind : ∀ trees, ∃ params, bind trees = { declareTrees trees with params } ∧
      params.size = (declareTrees trees).params.size := by
    intro trees
    rw [bind]
    generalize trees.flatMap (declareTrees trees).attributesOf = found
    generalize declareTrees trees = t
    induction found generalizing t with
    | nil => exact ⟨t.params, rfl, rfl⟩
    | cons x found ih =>
      obtain ⟨params, hfold, hsize⟩ := ih (t.addAttribute x.1 x.2)
      exact ⟨params, hfold, hsize.trans (Array.size_modify ..)⟩
  obtain ⟨ps, hps, hsize⟩ := hbind trees
  obtain ⟨ps', hps', hsize'⟩ := hbind trees'
  constructor
  case types =>
    rw [hps, hps']
    exact hdeclared.types
  case members =>
    rw [hps, hps']
    exact hdeclared.members
  case spaces =>
    rw [hps, hps']
    exact hdeclared.spaces
  case size =>
    rw [hps, hps']
    exact hsize'.trans (hdeclared.size.trans hsize.symm)
  case params =>
    intro j p p' hp hp'
    obtain ⟨q, attributes, hq, rfl⟩ := exists_of_params_bind hp
    obtain ⟨q', attributes', hq', rfl⟩ := exists_of_params_bind hp'
    rw [hps]
    exact hdeclared.params j q q' hq hq'

end

end SymbolTable

end SelfTypeLint
