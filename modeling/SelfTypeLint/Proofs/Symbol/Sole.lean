import SelfTypeLint.Proofs.Symbol.Enriched
import SelfTypeLint.Proofs.Symbol.Lookup

/-!
# Words that can mean one type only

A word that no alias is for, and that at most one type of any container has, means this type where a level
of the scope offers it (`Scope.Sole.lookup`). With the word for attributes at its end it is what an attribute
of the word means (`Scope.resolveAttribute_word`).
-/

namespace SelfTypeLint.Scope

/-- Holds of a word that no alias of a scope is for, and that no container gives to a type without parameters
but one. -/
structure Sole (s : Scope) (name : String) (id : TypeId) : Prop where
  types : ∀ container i, s.table.member? container name 0 = some i → i = id
  aliases : ∀ l ∈ s.levels, ∀ u ∈ l.usings, u.kind = .ofAlias → u.newName ≠ some name

/-- Holds of a level whose namespace has a type with a name, or a directive of it brings one in. -/
def BringsIn (t : SymbolTable) (name : String) (id : TypeId) (l : Level) : Prop :=
  t.member? (.space l.space) name 0 = some id ∨ ∃ u ∈ l.usings, imported? t name 0 u = some id

theorem exists_member_of_imported {t : SymbolTable} {name : String} {u : UsingDirective} {i : TypeId}
    (h : imported? t name 0 u = some i) : ∃ container, t.member? container name 0 = some i := by
  rw [imported?] at h
  split at h
  · exact ⟨_, h⟩
  · obtain ⟨target, -, hmember⟩ := Option.bind_eq_some_iff.1 h
    exact ⟨_, hmember⟩
  · exact absurd h (by simp)

namespace Sole

variable {s : Scope} {name : String} {id : TypeId} (h : s.Sole name id)

include h

/-- A level answers with the type if it brings it in, and else it does not answer. -/
theorem lookupAtLevel {l : Level} (hl : l ∈ s.levels) :
    BringsIn s.table name id l ∧ Scope.lookupAtLevel s.table name 0 l = .type id ∨
      ¬ BringsIn s.table name id l ∧ Scope.lookupAtLevel s.table name 0 l = .nothing := by
  have halias : Level.alias? l name = none := by
    refine List.find?_eq_none.2 fun u hu hboth => ?_
    simp only [Bool.and_eq_true, decide_eq_true_eq, beq_iff_eq] at hboth
    exact h.aliases l hl u hu hboth.1 hboth.2
  rw [lookupAtLevel_eq, halias]
  cases hmember : s.table.member? (.space l.space) name 0 with
  | some i =>
    obtain rfl := h.types _ i hmember
    exact .inl ⟨.inl hmember, rfl⟩
  | none =>
    -- What directives bring in is the one type, so that the answer is not ambiguous.
    have hall : ∀ i ∈ l.usings.filterMap (imported? s.table name 0), i = id := by
      intro i hi
      obtain ⟨u, -, himported⟩ := List.mem_filterMap.1 hi
      obtain ⟨container, hfound⟩ := exists_member_of_imported himported
      exact h.types container i hfound
    have hbrings : BringsIn s.table name id l ↔ id ∈ l.usings.filterMap (imported? s.table name 0) := by
      rw [BringsIn, hmember, List.mem_filterMap]
      simp
    rw [hbrings]
    simp only [Option.bind_none, ite_self]
    generalize l.usings.filterMap (imported? s.table name 0) = ids at hall
    cases ids with
    | nil => exact .inr ⟨List.not_mem_nil, rfl⟩
    | cons i ids =>
      obtain ⟨rfl, hrest⟩ := List.forall_mem_cons.1 hall
      refine .inl ⟨List.mem_cons_self, ?_⟩
      have hnone : ids.filter (fun j => !j == i) = [] := by
        refine List.filter_eq_nil_iff.2 fun j hj => ?_
        simp [hrest j hj]
      rw [foundOf, List.eraseDups_cons, hnone]
      rfl

theorem lookupLevels {ls : List Level} (hls : ls ⊆ s.levels) :
    (∃ l ∈ ls, BringsIn s.table name id l) ∧ Scope.lookupLevels s.table name 0 ls = some id ∨
      (¬ ∃ l ∈ ls, BringsIn s.table name id l) ∧ Scope.lookupLevels s.table name 0 ls = none := by
  induction ls with
  | nil => exact .inr ⟨by simp, rfl⟩
  | cons l ls ih =>
    rw [Scope.lookupLevels]
    rcases h.lookupAtLevel (hls List.mem_cons_self) with ⟨hbrings, hlevel⟩ | ⟨hbrings, hlevel⟩
    · rw [hlevel]
      exact .inl ⟨⟨l, List.mem_cons_self, hbrings⟩, rfl⟩
    · rw [hlevel]
      have hrest := ih fun l hl => hls (List.mem_cons_of_mem _ hl)
      simpa [hbrings] using hrest

/-- The word means the type where a level brings it in. -/
theorem lookup (hbrings : ∃ l ∈ s.levels, BringsIn s.table name id l) :
    s.lookup false [⟨name, 0⟩] = some id := by
  have hsimple : s.lookupSimple name 0 = some id := by
    rw [lookupSimple]
    split
    · next i hi =>
      obtain ⟨j, -, hmember⟩ := List.exists_of_findSome?_eq_some hi
      rw [h.types _ i hmember]
    · rcases h.lookupLevels (List.Subset.refl _) with ⟨-, hfound⟩ | ⟨hnone, -⟩
      · exact hfound
      · exact absurd hbrings hnone
  rw [Scope.lookup, if_neg (by simp)]
  simp only [hsimple]
  rfl

/-- The word means nothing where no type has its name. -/
theorem lookup_eq_none (hnone : ∀ container, s.table.member? container name 0 = none) :
    s.lookup false [⟨name, 0⟩] = none := by
  have hsimple : s.lookupSimple name 0 = none := by
    have htypes : (s.types.findSome? fun i => s.table.member? (.type i) name 0) = none :=
      List.findSome?_eq_none_iff.2 fun i _ => hnone _
    rw [lookupSimple, htypes]
    rcases h.lookupLevels (List.Subset.refl _) with ⟨⟨l, -, hbrings⟩, -⟩ | ⟨-, hfound⟩
    · rcases hbrings with hmember | ⟨u, -, himported⟩
      · exact absurd hmember (by simp [hnone])
      · obtain ⟨container, hfound⟩ := exists_member_of_imported himported
        exact absurd hfound (by simp [hnone])
    · exact hfound
  rw [Scope.lookup, if_neg (by simp)]
  simp only [hsimple]
  rfl

end Sole

/-- An attribute of a word means a type that the word means, if no other has the word with the word for
attributes at its end, or a type that has this name. -/
theorem resolveAttribute_word {s : Scope} {word name : String} {id : TypeId} (hshort : s.Sole word id)
    (hlong : s.Sole (word ++ "Attribute") id)
    (hname : name = word ∧ (∀ container, s.table.member? container (word ++ "Attribute") 0 = none) ∨
      name = word ++ "Attribute" ∧ endsInAttribute word = false)
    (hbrings : ∃ l ∈ s.levels, BringsIn s.table name id l) {segment : NameSegment TypeExpr}
    (hword : segment.name = word) (hargs : segment.args = []) (span : Span) :
    s.resolveAttribute (.path false [segment] span) = some id := by
  have hpart : NamePart.ofSegment segment = ⟨word, 0⟩ := by simp [NamePart.ofSegment, hword, hargs]
  simp only [resolveAttribute, List.map_cons, List.map_nil, hpart, List.getLast?_singleton,
    List.dropLast_singleton, List.nil_append]
  rcases hname with ⟨rfl, hnone⟩ | ⟨rfl, hends⟩
  · have hlonger : (if endsInAttribute name then none else s.lookup false [⟨name ++ "Attribute", 0⟩]) = none := by
      rw [hlong.lookup_eq_none hnone, ite_self]
    rw [hlonger]
    exact hshort.lookup hbrings
  · rw [if_neg (by simp [hends]), hlong.lookup hbrings]

/-- A word stays one that means one type at most where no aliases are added. -/
theorem Sole.enriched {s s' : Scope} {name : String} {id : TypeId} (h : s.Sole name id)
    (hmember : s'.table.member? = s.table.member?)
    (hlevels : List.Forall₂ (Level.Corresponds Enriches) s.levels s'.levels) : s'.Sole name id where
  types := by
    rw [hmember]
    exact h.types
  aliases l' hl' u' hu' hkind := by
    obtain ⟨l, hl, hcorresponds⟩ := exists_of_forall₂ hlevels.flip hl'
    rcases hcorresponds.usings.new u' hu' with hspace | ⟨u, hu, hsame⟩
    · exact absurd (hkind.symm.trans hspace) (by decide)
    · have hnew : u'.newName = u.newName := congrArg (·.2.1) hsame.meaning
      rw [hnew]
      exact h.aliases l hl u hu (hsame.kind_eq ▸ hkind)

end SelfTypeLint.Scope
