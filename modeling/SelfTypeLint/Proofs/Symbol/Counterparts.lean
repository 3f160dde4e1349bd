import SelfTypeLint.Proofs.Symbol.Parallel
import SelfTypeLint.Proofs.Symbol.Rebound
import SelfTypeLint.Proofs.Tree.Enclosing

/-!
# Declarations of parallel trees

The declarations of parallel trees are counterparts of each other, one by one. Counterparts are of one
type, their parameters are the same, and the levels of their scopes are for the same namespaces. So names
mean the same in both scopes where the directives say the same.
-/

namespace SelfTypeLint

open SymbolTable

/-- Holds of namespaces of one name with related directives. -/
structure NamespaceOf.Corresponds (S : List UsingDirective → List UsingDirective → Prop)
    (n n' : NamespaceDecl) : Prop where
  name : n'.name = n.name
  usings : S n.usings n'.usings

/-- Holds of related declarations of two trees that have one path and stand in namespaces that
correspond. -/
structure SyntaxTree.Counterparts (R : FileId → TypeDecl → TypeDecl → Prop)
    (S : List UsingDirective → List UsingDirective → Prop) (t t' : SyntaxTree) (d d' : TypeDecl) :
    Prop where
  own : R t.file d d'
  matching : d.Matches d'
  located : ∃ p, Located t p d ∧ Located t' p d'
  within : ∃ ns ns', Within d t.members ns ∧ Within d' t'.members ns' ∧
    List.Forall₂ (NamespaceOf.Corresponds S) ns ns'

theorem TypeDecl.Parallel.matching {R : TypeDecl → TypeDecl → Prop} {d d' : TypeDecl}
    (h : d.Parallel R d') : d.Matches d' := by
  cases h with
  | mk head _ _ => exact head

/-- Of lists that are related the elements are those of the lists. -/
theorem forall₂_mem {α β : Type} {r : α → β → Prop} {as : List α} {bs : List β}
    (h : List.Forall₂ r as bs) :
    List.Forall₂ (fun a b => (a ∈ as ∧ b ∈ bs) ∧ r a b) as bs := by
  rw [List.forall₂_iff_get] at h ⊢
  exact ⟨h.1, fun i hi hi' => ⟨⟨List.get_mem .., List.get_mem ..⟩, h.2 i hi hi'⟩⟩

section

variable {R : FileId → TypeDecl → TypeDecl → Prop}
  {S : List UsingDirective → List UsingDirective → Prop} {t t' : SyntaxTree}

/-- The declarations in parallel declarations are counterparts. -/
theorem TypeDecl.Parallel.counterparts {d d' : TypeDecl} (h : d.Parallel (R t.file) d')
    {p : TypePath} (hp : Located t p d) (hp' : Located t' p d') {ns ns' : List NamespaceDecl}
    (hns : List.Forall₂ (NamespaceOf.Corresponds S) ns ns')
    (hin : ∀ e ∈ d.withNested, Within e t.members ns)
    (hin' : ∀ e ∈ d'.withNested, Within e t'.members ns') :
    List.Forall₂ (t.Counterparts R S t') d.withNested d'.withNested := by
  cases h with
  | mk head own nested =>
    have hself : t.Counterparts R S t' d d' :=
      ⟨own, head, ⟨p, hp, hp'⟩, ns, ns', hin d d.mem_withNested_self, hin' d' d'.mem_withNested_self, hns⟩
    rw [TypeDecl.withNested_eq, TypeDecl.withNested_eq d']
    refine .cons hself (List.rel_flatMap (forall₂_mem nested) fun n n' hnn => ?_)
    obtain ⟨⟨hn, hn'⟩, hpar⟩ := hnn
    have hlt := TypeDecl.sizeOf_lt_of_mem_nested hn
    have hhead := hpar.matching
    have hloc' := hp'.inner hn'
    rw [hhead.name, hhead.arity] at hloc'
    exact hpar.counterparts (hp.inner hn) hloc' hns
      (fun e he => hin e (TypeDecl.mem_withNested_of_nested hn he))
      (fun e he => hin' e (TypeDecl.mem_withNested_of_nested hn' he))
  termination_by sizeOf d

/-- The declarations in parallel members are counterparts. -/
theorem Member.Parallel.counterparts {m m' : Member} (h : m.Parallel (R t.file) S m')
    (hfile : t'.file = t.file) (space : String) {ms ms' : List Member} (hm : m ∈ ms) (hm' : m' ∈ ms')
    (htops : ∀ x ∈ m.tops t.file space, x ∈ t.tops)
    (htops' : ∀ x ∈ m'.tops t.file space, x ∈ t'.tops) {ns ns' : List NamespaceDecl}
    (hns : List.Forall₂ (NamespaceOf.Corresponds S) ns ns')
    (hin : ∀ d ns₀, Within d ms ns₀ → Within d t.members (ns ++ ns₀))
    (hin' : ∀ d ns₀, Within d ms' ns₀ → Within d t'.members (ns' ++ ns₀)) :
    List.Forall₂ (t.Counterparts R S t') m.typeDecls m'.typeDecls := by
  cases h with
  | @type d d' decl =>
    have hhead := decl.matching
    have hd := htops _ (by rw [tops_type]; exact List.mem_singleton.2 rfl)
    have hd' := htops' _ (by rw [tops_type]; exact List.mem_singleton.2 rfl)
    rw [← hfile] at hd'
    have hloc' := Located.top hd'
    rw [hhead.name, hhead.arity] at hloc'
    rw [typeDecls_type, typeDecls_type]
    refine decl.counterparts (.top hd) hloc' hns (fun e he => ?_) fun e he => ?_
    · simpa using hin e [] (.type hm he)
    · simpa using hin' e [] (.type hm' he)
  | @space n n' name usings members =>
    rw [typeDecls_space, typeDecls_space]
    refine List.rel_flatMap (forall₂_mem members) fun a a' haa => ?_
    obtain ⟨⟨ha, ha'⟩, hpar⟩ := haa
    have hlt : sizeOf a < 1 + sizeOf n :=
      Nat.lt_trans (List.sizeOf_lt_of_mem ha) (Nat.lt_add_left 1 n.sizeOf_members_lt)
    refine hpar.counterparts hfile (Dotted.join space n.name) ha ha' (fun x hx => ?_)
      (fun x hx => ?_) (List.rel_append hns (.cons ⟨name, usings⟩ .nil)) (fun d ns₀ hd => ?_)
      fun d ns₀ hd => ?_
    · apply htops
      rw [tops_space]
      exact List.mem_flatMap.2 ⟨a, ha, hx⟩
    · apply htops'
      rw [tops_space, name]
      exact List.mem_flatMap.2 ⟨a', ha', hx⟩
    · simpa using hin d (n :: ns₀) (.space hm hd)
    · simpa using hin' d (n' :: ns₀) (.space hm' hd)
  termination_by sizeOf m
  decreasing_by
    subst_vars
    simpa using hlt

/-- The declarations of parallel trees are counterparts, one by one. -/
theorem SyntaxTree.Parallel.counterparts (h : t.Parallel R S t') :
    List.Forall₂ (t.Counterparts R S t') t.typeDecls t'.typeDecls := by
  refine List.rel_flatMap (forall₂_mem h.members) fun a a' haa => ?_
  obtain ⟨⟨ha, ha'⟩, hpar⟩ := haa
  refine hpar.counterparts h.file "" ha ha' (fun x hx => ?_)
    (fun x hx => ?_) .nil (fun d ns₀ hd => hd) fun d ns₀ hd => hd
  · exact List.mem_flatMap.2 ⟨a, ha, hx⟩
  · rw [← h.file] at hx
    exact List.mem_flatMap.2 ⟨a', ha', hx⟩

end

/-! ## Numbers -/

namespace SymbolTable.Mirrors

variable {R : FileId → TypeDecl → TypeDecl → Prop} {places : List (NameSite × TypeId)}
  {t t' : SymbolTable} (h : Mirrors R places t t')

include h

theorem typeChain (i : TypeId) : t'.typeChain i = t.typeChain i := by
  apply typeChain_congr
  intro i
  have hmap := h.map_typeSymbol? (·.containingType) (fun _ => rfl) i
  cases ht : t.typeSymbol? i with
  | none =>
    rw [ht, Option.map_none, Option.map_eq_none_iff] at hmap
    rw [hmap]
  | some s =>
    rw [ht, Option.map_some, Option.map_eq_some_iff] at hmap
    obtain ⟨s', hs', heq⟩ := hmap
    rw [hs']
    exact heq

/-- Types have the same paths in both tables. -/
theorem path? (i : TypeId) : t'.path? i = t.path? i := by
  induction i using Nat.strongRecOn with
  | ind i ih =>
    have hsymbol := h.typeSymbol? i
    rw [SymbolTable.path?, SymbolTable.path?]
    cases hs : t.typeSymbol? i with
    | none =>
      rw [hs, Option.map_none, Option.map_eq_none_iff] at hsymbol
      rw [hsymbol]
      rfl
    | some s =>
      rw [hs, Option.map_some, Option.map_eq_some_iff] at hsymbol
      obtain ⟨s', hs', heq⟩ := hsymbol
      simp only [TypeSymbol.unplaced, TypeSymbol.mk.injEq] at heq
      obtain ⟨-, -, hname, hspace, houter, hparams, -, -⟩ := heq
      rw [hs']
      simp only [Option.bind_eq_bind, Option.bind_some, hname, hspace, houter, hparams]
      cases s.containingType with
      | none => rfl
      | some o =>
        dsimp only
        by_cases hlt : o < i
        · rw [if_pos hlt, if_pos hlt, ih o hlt]
        · rw [if_neg hlt, if_neg hlt]

end SymbolTable.Mirrors

section

variable {R : FileId → TypeDecl → TypeDecl → Prop}
  {S : List UsingDirective → List UsingDirective → Prop} {trees trees' : List SyntaxTree}
  (h : List.Forall₂ (SyntaxTree.Parallel R S) trees trees') (hapart : (declaredSites trees).Nodup)
  (hapart' : (declaredSites trees').Nodup) {tree tree' : SyntaxTree} (htree : tree ∈ trees)
  (htree' : tree' ∈ trees') (hfile : tree'.file = tree.file) {d d' : TypeDecl}
  (hd : tree.Counterparts R S tree' d d')

include h hapart hapart' htree htree' hfile hd

namespace SyntaxTree.Counterparts

/-- Counterparts are of one type. -/
theorem declaredType? : (SymbolTable.bind trees').declaredType? tree.file d'.nameSpan =
    (SymbolTable.bind trees).declaredType? tree.file d.nameSpan := by
  obtain ⟨parts', hrecords', -⟩ := exists_records_bind trees'
  obtain ⟨p, hp, hp'⟩ := hd.located
  obtain ⟨i, hi, hpath⟩ := exists_declared_of_located hapart htree hp
  obtain ⟨i', hi', hpath'⟩ := exists_declared_of_located hapart' htree' hp'
  rw [hfile] at hi'
  rw [hi, hi', hrecords'.eq_of_path hpath' (((mirrors_bind h).path? i).trans hpath)]

/-- The parameters of counterparts at one place are the same. -/
theorem declaredTypeParam? {k : Nat} {q q' : TypeParam} (hq : d.typeParams[k]? = some q)
    (hq' : d'.typeParams[k]? = some q') : (SymbolTable.bind trees').declaredTypeParam? tree.file q'.nameSpan =
      (SymbolTable.bind trees).declaredTypeParam? tree.file q.nameSpan := by
  obtain ⟨p, hp, hp'⟩ := hd.located
  obtain ⟨-, i, s, -, hi, hs, -, hall⟩ :=
    (faithful_bind hapart).declared tree htree d hp.mem_typeDecls
  obtain ⟨-, i', s', -, hi', hs', -, hall'⟩ :=
    (faithful_bind hapart').declared tree' htree' d' hp'.mem_typeDecls
  rw [hfile, hd.declaredType? h hapart hapart' htree htree' hfile, hi] at hi'
  obtain rfl := Option.some.inj hi'
  obtain ⟨j, hj, hformal⟩ := hall k q hq
  obtain ⟨j', hj', hformal'⟩ := hall' k q' hq'
  have hparams := (mirrors_bind h).map_typeSymbol? (·.typeParams) (fun _ => rfl) i
  rw [hs, hs', Option.map_some, Option.map_some] at hparams
  rw [Option.some.inj hparams, hformal] at hformal'
  rw [hfile] at hj'
  rw [hj, hj', Option.some.inj hformal']

end SyntaxTree.Counterparts

end

/-! ## Levels -/

/-- Holds of levels of one namespace with related directives. -/
structure Level.Corresponds (S : List UsingDirective → List UsingDirective → Prop) (l l' : Level) :
    Prop where
  space : l'.space = l.space
  usings : S l.usings l'.usings

section

variable {S : List UsingDirective → List UsingDirective → Prop} (hnil : S [] [])

include hnil

/-- Namespaces that correspond make levels that do. -/
theorem Level.corresponds_ofChain {ns ns' : List NamespaceDecl}
    (h : List.Forall₂ (NamespaceOf.Corresponds S) ns ns') (space : String) :
    List.Forall₂ (Corresponds S) (ofChain space ns) (ofChain space ns') := by
  induction h generalizing space with
  | nil => exact .nil
  | @cons n n' _ _ hn _ ih =>
    simp only [ofChain, hn.name]
    refine List.rel_append ?_ (.cons ⟨rfl, hn.usings⟩ (ih _))
    rw [List.forall₂_map_left_iff, List.forall₂_map_right_iff]
    exact List.forall₂_same.2 fun _ _ => ⟨rfl, hnil⟩

/-- The levels of the scopes of counterparts correspond. -/
theorem SyntaxTree.Counterparts.levels {R : FileId → TypeDecl → TypeDecl → Prop} {t t' : SyntaxTree}
    {d d' : TypeDecl} (h : t.Counterparts R S t' d d')
    (hfound : ∀ ns, Within d t.members ns → t.enclosingNamespaces d.span = ns)
    (hfound' : ∀ ns, Within d' t'.members ns → t'.enclosingNamespaces d'.span = ns)
    {table table' : SymbolTable}
    (hglobal : S (t.usings ++ foreign table t.file) (t'.usings ++ foreign table' t'.file))
    (owner : TypeId) : List.Forall₂ (Level.Corresponds S) (Scope.ofDecl table t d owner).levels
      (Scope.ofDecl table' t' d' owner).levels := by
  obtain ⟨ns, ns', hns, hns', hall⟩ := h.within
  rw [Scope.ofDecl, Scope.ofDecl, hfound ns hns, hfound' ns' hns']
  exact List.rel_reverse (.cons ⟨rfl, hglobal⟩ (Level.corresponds_ofChain hnil hall ""))

end

/-! ## Directives that say the same -/

/-- Holds of directives that say the same, in the same files. -/
structure UsingDirective.SaysSame (u u' : UsingDirective) : Prop where
  meaning : u'.meaning = u.meaning
  isGlobal : u'.isGlobal = u.isGlobal

/-- Holds of directives that say the same one by one. -/
def SameUsings : List UsingDirective → List UsingDirective → Prop :=
  List.Forall₂ UsingDirective.SaysSame

theorem SameUsings.map_meaning {us us' : List UsingDirective} (h : SameUsings us us') :
    us'.map UsingDirective.meaning = us.map UsingDirective.meaning := by
  rw [← List.forall₂_eq_eq_eq, List.forall₂_map_left_iff, List.forall₂_map_right_iff]
  exact h.flip.imp fun _ _ hu => hu.meaning

section

variable {R : FileId → TypeDecl → TypeDecl → Prop} {trees trees' : List SyntaxTree}
  (h : List.Forall₂ (SyntaxTree.Parallel R SameUsings) trees trees')

include h

/-- A file gets directives from others that say the same. -/
theorem SymbolTable.sameUsings_foreign (file : FileId) :
    SameUsings (foreign (SymbolTable.bind trees) file) (foreign (SymbolTable.bind trees') file) := by
  have hglobal : List.Forall₂ (fun x x' : FileId × UsingDirective => x'.1 = x.1 ∧ x.2.SaysSame x'.2)
      (SymbolTable.bind trees).globalUsings (SymbolTable.bind trees').globalUsings := by
    rw [globalUsings_bind, globalUsings_bind]
    refine List.rel_flatMap h fun tree tree' htree => ?_
    refine List.rel_map (R := UsingDirective.SaysSame) (fun u u' hu => ⟨htree.file, hu⟩) ?_
    exact List.rel_filter (fun u u' hu => by simp [hu.isGlobal]) htree.usings
  refine List.rel_map (fun x x' hx => hx.2) (List.rel_filter (fun x x' hx => ?_) hglobal)
  simp [hx.1]

/-- Names other than those of parameters mean the same in the scopes of counterparts. -/
theorem SyntaxTree.Counterparts.alike {tree tree' : SyntaxTree} {d d' : TypeDecl}
    (htree : tree.Parallel R SameUsings tree') (hd : tree.Counterparts R SameUsings tree' d d')
    (hfound : ∀ ns, Within d tree.members ns → tree.enclosingNamespaces d.span = ns)
    (hfound' : ∀ ns, Within d' tree'.members ns → tree'.enclosingNamespaces d'.span = ns)
    (owner : TypeId) : Scope.Alike (.ofDecl (SymbolTable.bind trees) tree d owner)
      (.ofDecl (SymbolTable.bind trees') tree' d' owner) where
  members := (mirrors_bind h).members
  spaces := (mirrors_bind h).spaces
  types := (mirrors_bind h).typeChain owner
  levels := by
    have hglobal : SameUsings (tree.usings ++ foreign (SymbolTable.bind trees) tree.file)
        (tree'.usings ++ foreign (SymbolTable.bind trees') tree'.file) := by
      rw [htree.file]
      exact List.rel_append htree.usings (sameUsings_foreign h tree.file)
    have hlevels := hd.levels .nil hfound hfound' hglobal owner
    rw [← List.forall₂_eq_eq_eq, List.forall₂_map_left_iff, List.forall₂_map_right_iff]
    refine hlevels.flip.imp fun l l' hl => ?_
    rw [Level.meaning, Level.meaning, hl.space, hl.usings.map_meaning]

end

end SelfTypeLint
