import Mathlib.Data.List.Dedup
import Mathlib.Data.List.Forall2
import SelfTypeLint.Symbol.Scope

/-!
# What lookup depends on

The meaning of a name depends on the types and namespaces of the table, on the types around the place,
and on what the using directives of each level say, whatever their order: only which alias comes first
matters. It depends neither on the places of directives nor on the parameters of the table, unless the
name is that of a parameter. Where types have other numbers, names mean the same types under their new
numbers.
-/

namespace SelfTypeLint

/-- What a using directive says. -/
def UsingDirective.meaning (u : UsingDirective) : UsingKind × Option String × String :=
  (u.kind, u.newName, u.target)

/-- What lookup sees of a level. -/
def Level.meaning (l : Level) : String × List (UsingKind × Option String × String) :=
  (l.space, l.usings.map UsingDirective.meaning)

/-- A container after its types are renumbered. -/
def Container.map (f : TypeId → TypeId) : Container → Container
  | .space name => .space name
  | .type id => .type (f id)

/-- The types around a type are told by the containing types. -/
theorem SymbolTable.typeChain_congr {t t' : SymbolTable}
    (h : ∀ i, (t'.typeSymbol? i).bind (·.containingType) = (t.typeSymbol? i).bind (·.containingType))
    (id : TypeId) : t'.typeChain id = t.typeChain id := by
  rw [typeChain, typeChain, h id]
  split
  · next outer _ =>
    split
    · next hlt => rw [typeChain_congr h outer]
    · rfl
  · rfl
  termination_by id

namespace Scope

/-- What a level answers after its types are renumbered. -/
def Found.map (f : TypeId → TypeId) : Found → Found
  | .type id => .type (f id)
  | .nothing => .nothing
  | .ambiguous => .ambiguous

/-- Holds of levels of one namespace whose directives say the same, where the first alias for each name
is for one target. -/
structure Agree (l l' : Level) : Prop where
  space : l'.space = l.space
  uses : ∀ m, m ∈ l'.usings.map UsingDirective.meaning ↔ m ∈ l.usings.map UsingDirective.meaning
  target : ∀ name, (Level.alias? l' name).map (·.target) = (Level.alias? l name).map (·.target)

/-- Holds of tables with the same types and namespaces, where types are renumbered. -/
structure Renames (f : TypeId → TypeId) (t t' : SymbolTable) : Prop where
  injective : ∀ i j, f i = f j → i = j
  member : ∀ container name arity,
    t'.member? (container.map f) name arity = (t.member? container name arity).map f
  space : ∀ name, t'.isSpace name = t.isSpace name

/-- Holds of scopes in which names mean the same, apart from those of parameters, where types are
renumbered. -/
structure Carries (f : TypeId → TypeId) (s s' : Scope) : Prop where
  table : Renames f s.table s'.table
  types : s'.types = s.types.map f
  levels : List.Forall₂ Agree s.levels s'.levels

/-! ## Types that directives bring in -/

theorem nodup_eraseDups {α : Type} [DecidableEq α] (as : List α) : as.eraseDups.Nodup := by
  match as with
  | [] => exact List.nodup_nil
  | a :: as =>
    have hlt : (as.filter fun b => !b == a).length < as.length + 1 :=
      Nat.lt_succ_of_le (List.length_filter_le _ _)
    rw [List.eraseDups_cons]
    refine List.nodup_cons.2 ⟨fun ha => ?_, nodup_eraseDups _⟩
    rw [List.mem_eraseDups, List.mem_filter] at ha
    simp at ha
  termination_by as.length

/-- What a level answers if directives bring in some types. -/
def foundOf (ids : List TypeId) : Found :=
  match ids.eraseDups with
  | [] => .nothing
  | [only] => .type only
  | _ => .ambiguous

/-- The order in which types are brought in does not matter. -/
theorem foundOf_congr {f : TypeId → TypeId} (hf : ∀ i j, f i = f j → i = j) {as bs : List TypeId}
    (h : ∀ id, id ∈ bs ↔ id ∈ as.map f) : foundOf bs = (foundOf as).map f := by
  have hperm : bs.eraseDups.Perm (as.eraseDups.map f) := by
    rw [List.perm_ext_iff_of_nodup (nodup_eraseDups bs) ((nodup_eraseDups as).map hf)]
    intro id
    rw [List.mem_eraseDups, h, List.mem_map, List.mem_map]
    simp only [List.mem_eraseDups]
  rw [foundOf, foundOf]
  match hids : as.eraseDups with
  | [] =>
    rw [hids] at hperm
    rw [hperm.eq_nil]
    rfl
  | [only] =>
    rw [hids] at hperm
    rw [hperm.eq_singleton]
    rfl
  | a :: b :: rest =>
    rw [hids] at hperm
    obtain ⟨c, d, others, hothers⟩ : ∃ c d others, bs.eraseDups = c :: d :: others := by
      match bs.eraseDups, hperm.length_eq with
      | c :: d :: others, _ => exact ⟨c, d, others, rfl⟩
    rw [hothers]
    rfl

theorem lookupAtLevel_eq (t : SymbolTable) (name : String) (arity : Nat) (l : Level) :
    lookupAtLevel t name arity l =
      match t.member? (.space l.space) name arity with
      | some id => .type id
      | none =>
        match if arity = 0 then (Level.alias? l name).bind fun u => lookupTarget t u.target else none with
        | some id => .type id
        | none => foundOf (l.usings.filterMap (imported? t name arity)) := rfl

section

variable {f : TypeId → TypeId} {t t' : SymbolTable} (h : Renames f t t')

include h

theorem Renames.descend (id : TypeId) (parts : List NamePart) :
    descend t' (f id) parts = (descend t id parts).map f := by
  induction parts generalizing id with
  | nil => rfl
  | cons part parts ih =>
    have hmember := h.member (.type id) part.name part.arity
    rw [Container.map] at hmember
    rw [Scope.descend, Scope.descend, hmember]
    cases t.member? (.type id) part.name part.arity with
    | none => rfl
    | some inner => exact ih inner

theorem Renames.lookupInSpace (space : String) (parts : List NamePart) :
    lookupInSpace t' space parts = (lookupInSpace t space parts).map f := by
  induction parts generalizing space with
  | nil => rfl
  | cons part parts ih =>
    have hmember := h.member (.space space) part.name part.arity
    rw [Container.map] at hmember
    rw [Scope.lookupInSpace, Scope.lookupInSpace, hmember]
    cases t.member? (.space space) part.name part.arity with
    | none =>
      simp only [Option.map_none, h.space, ih]
      split <;> rfl
    | some id => exact h.descend id parts

theorem Renames.lookupTarget (target : String) :
    lookupTarget t' target = (lookupTarget t target).map f := h.lookupInSpace "" _

theorem Renames.imported? (name : String) (arity : Nat) {u u' : UsingDirective}
    (hu : u'.meaning = u.meaning) : imported? t' name arity u' = (imported? t name arity u).map f := by
  simp only [UsingDirective.meaning, Prod.mk.injEq] at hu
  obtain ⟨hkind, -, htarget⟩ := hu
  rw [Scope.imported?, Scope.imported?, hkind, htarget]
  cases u.kind with
  | ofNamespace => exact h.member (.space u.target) name arity
  | ofMembers =>
    simp only [h.lookupTarget, Option.bind_eq_bind]
    cases Scope.lookupTarget t u.target with
    | none => rfl
    | some id => exact h.member (.type id) name arity
  | ofAlias => rfl

/-- Levels that agree answer the same. -/
theorem Renames.lookupAtLevel (name : String) (arity : Nat) {l l' : Level} (hl : Agree l l') :
    lookupAtLevel t' name arity l' = (lookupAtLevel t name arity l).map f := by
  have haliased : ((Level.alias? l' name).bind fun u => Scope.lookupTarget t' u.target) =
      ((Level.alias? l name).bind fun u => Scope.lookupTarget t u.target).map f := by
    have hbind : ∀ (t : SymbolTable) (o : Option UsingDirective),
        (o.bind fun u => Scope.lookupTarget t u.target) =
          (o.map (·.target)).bind (Scope.lookupTarget t) := by
      intro t o
      cases o <;> rfl
    rw [hbind, hbind, hl.target]
    cases (Level.alias? l name).map (·.target) with
    | none => rfl
    | some target => exact h.lookupTarget target
  have himported : foundOf (l'.usings.filterMap (Scope.imported? t' name arity)) =
      (foundOf (l.usings.filterMap (Scope.imported? t name arity))).map f := by
    refine foundOf_congr h.injective fun id => ?_
    simp only [List.mem_filterMap, List.mem_map]
    constructor
    · rintro ⟨u', hu', hid⟩
      obtain ⟨u, hu, hmeaning⟩ := List.mem_map.1 ((hl.uses _).1 (List.mem_map_of_mem hu'))
      rw [h.imported? name arity hmeaning.symm] at hid
      obtain ⟨a, ha, rfl⟩ := Option.map_eq_some_iff.1 hid
      exact ⟨a, ⟨u, hu, ha⟩, rfl⟩
    · rintro ⟨a, ⟨u, hu, ha⟩, rfl⟩
      obtain ⟨u', hu', hmeaning⟩ := List.mem_map.1 ((hl.uses _).2 (List.mem_map_of_mem hu))
      exact ⟨u', hu', by rw [h.imported? name arity hmeaning, ha, Option.map_some]⟩
  have hmember := h.member (.space l.space) name arity
  rw [Container.map] at hmember
  rw [lookupAtLevel_eq, lookupAtLevel_eq, hl.space, hmember, haliased, himported]
  cases t.member? (.space l.space) name arity with
  | some id => rfl
  | none =>
    simp only [Option.map_none]
    by_cases harity : arity = 0
    · rw [if_pos harity, if_pos harity]
      cases (Level.alias? l name).bind fun u => Scope.lookupTarget t u.target <;> rfl
    · rw [if_neg harity, if_neg harity]

theorem Renames.lookupLevels (name : String) (arity : Nat) {ls ls' : List Level}
    (hls : List.Forall₂ Agree ls ls') :
    lookupLevels t' name arity ls' = (lookupLevels t name arity ls).map f := by
  induction hls with
  | nil => rfl
  | @cons l l' _ _ hl _ ih =>
    rw [Scope.lookupLevels, Scope.lookupLevels, h.lookupAtLevel name arity hl]
    cases Scope.lookupAtLevel t name arity l with
    | type id => rfl
    | nothing => exact ih
    | ambiguous => rfl

end

/-- Searches in lists that agree find the same. -/
theorem findSome?_forall₂ {α β γ : Type} {r : α → β → Prop} {as : List α} {bs : List β}
    (hall : List.Forall₂ r as bs) {g : α → Option γ} {g' : β → Option γ}
    (hg : ∀ a b, r a b → g' b = g a) : bs.findSome? g' = as.findSome? g := by
  induction hall with
  | nil => rfl
  | cons hab _ ih => rw [List.findSome?_cons, List.findSome?_cons, hg _ _ hab, ih]

namespace Carries

variable {f : TypeId → TypeId} {s s' : Scope} (h : Carries f s s')

include h

theorem lookupSimple (name : String) (arity : Nat) :
    s'.lookupSimple name arity = (s.lookupSimple name arity).map f := by
  have htypes : (s'.types.findSome? fun id => s'.table.member? (.type id) name arity) =
      (s.types.findSome? fun id => s.table.member? (.type id) name arity).map f := by
    rw [h.types, List.findSome?_map, List.map_findSome?]
    congr 1
    funext id
    exact h.table.member (.type id) name arity
  rw [Scope.lookupSimple, Scope.lookupSimple, htypes, h.table.lookupLevels name arity h.levels]
  cases s.types.findSome? fun id => s.table.member? (.type id) name arity <;> rfl

theorem lookupAliased (first : NamePart) (rest : List NamePart) :
    s'.lookupAliased first rest = (s.lookupAliased first rest).map f := by
  have htarget : (s'.levels.findSome? (Level.alias? · first.name)).map (·.target) =
      (s.levels.findSome? (Level.alias? · first.name)).map (·.target) := by
    rw [List.map_findSome?, List.map_findSome?]
    exact findSome?_forall₂ h.levels fun l l' hl => hl.target first.name
  rw [Scope.lookupAliased, Scope.lookupAliased]
  split
  · rfl
  · cases hu : s.levels.findSome? (Level.alias? · first.name) with
    | none =>
      rw [hu, Option.map_none, Option.map_eq_none_iff] at htarget
      rw [htarget]
      rfl
    | some u =>
      rw [hu, Option.map_some] at htarget
      obtain ⟨u', hu', heq⟩ := Option.map_eq_some_iff.1 htarget
      simp only [hu', heq, h.table.space]
      split
      · exact h.table.lookupInSpace _ rest
      · rw [h.table.lookupTarget]
        cases lookupTarget s.table u.target with
        | none => rfl
        | some id => exact h.table.descend id rest

/-- A name means the same type. -/
theorem lookup (isGlobal : Bool) (parts : List NamePart) :
    s'.lookup isGlobal parts = (s.lookup isGlobal parts).map f := by
  cases parts with
  | nil => rfl
  | cons first rest =>
    have hspaces : (s'.levels.findSome? fun l => lookupInSpace s'.table l.space (first :: rest)) =
        (s.levels.findSome? fun l => lookupInSpace s.table l.space (first :: rest)).map f := by
      rw [List.map_findSome?]
      refine findSome?_forall₂ h.levels fun l l' hl => ?_
      rw [hl.space]
      exact h.table.lookupInSpace l.space (first :: rest)
    rw [Scope.lookup, Scope.lookup, h.lookupSimple, h.lookupAliased, hspaces]
    split
    · exact h.table.lookupInSpace "" (first :: rest)
    · cases s.lookupSimple first.name first.arity with
      | some id => exact h.table.descend id rest
      | none =>
        simp only [Option.map_none]
        split
        · rfl
        · cases s.lookupAliased first rest <;> rfl

theorem resolveAttribute (e : TypeExpr) :
    s'.resolveAttribute e = (s.resolveAttribute e).map f := by
  unfold Scope.resolveAttribute
  split
  · next isGlobal segments _ =>
    simp only [h.lookup]
    cases (segments.map NamePart.ofSegment).getLast? with
    | none => rfl
    | some last =>
      dsimp only
      by_cases hends : endsInAttribute last.name = true
      · rw [if_pos hends, if_pos hends]
      · rw [if_neg hends, if_neg hends]
        cases s.lookup isGlobal ((segments.map NamePart.ofSegment).dropLast ++
          [{ last with name := last.name ++ "Attribute" }]) <;> rfl
  · rfl

end Carries

/-- Holds of scopes in which names have one meaning, apart from those of parameters. -/
structure Alike (s s' : Scope) : Prop where
  members : s'.table.members = s.table.members
  spaces : s'.table.spaces = s.table.spaces
  types : s'.types = s.types
  levels : s'.levels.map Level.meaning = s.levels.map Level.meaning

theorem agree_of_meaning {l l' : Level} (hl : l'.meaning = l.meaning) : Agree l l' where
  space := congrArg Prod.fst hl
  uses m := by rw [show l'.usings.map _ = l.usings.map _ from congrArg Prod.snd hl]
  target name := by
    have halias : ∀ l : Level, (Level.alias? l name).map UsingDirective.meaning =
        l.meaning.2.find? fun m => m.1 = .ofAlias && m.2.1 == some name := by
      intro l
      rw [Level.meaning, List.find?_map]
      rfl
    have h := congrArg (Option.map fun m => m.2.2) (halias l')
    rw [hl, ← halias, Option.map_map, Option.map_map] at h
    exact h

theorem Alike.carries {s s' : Scope} (h : Alike s s') : Carries id s s' where
  table :=
    { injective := fun _ _ hij => hij
      member := fun container name arity => by
        rw [SymbolTable.member?, h.members, Option.map_id, SymbolTable.member?]
        cases container <;> rfl
      space := fun name => by rw [SymbolTable.isSpace, h.spaces, SymbolTable.isSpace] }
  types := by rw [h.types, List.map_id]
  levels := by
    have hlevels := h.levels
    generalize s.levels = ls at hlevels
    generalize s'.levels = ls' at hlevels
    induction ls generalizing ls' with
    | nil =>
      obtain rfl := List.map_eq_nil_iff.1 hlevels
      exact .nil
    | cons l ls ih =>
      obtain ⟨l', ls', rfl, hl, hls⟩ := List.map_eq_cons_iff.1 hlevels
      exact .cons (agree_of_meaning hl) (ih ls' hls)

theorem Alike.resolveAttribute {s s' : Scope} (h : Alike s s') (e : TypeExpr) :
    s'.resolveAttribute e = s.resolveAttribute e := by
  rw [h.carries.resolveAttribute, Option.map_id, id_eq]

end Scope

end SelfTypeLint
