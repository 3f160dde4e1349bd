import SelfTypeLint.Proofs.Symbol.Renumbered

/-!
# Types found by name in another order

Which types have a name does not depend on the order of the trees, but the order of these types does. A
type is found if it is the only one with the name, or the first that is not generic; so it is the same
one in any order if no two types without parameters have one qualified name.
-/

namespace SelfTypeLint.SymbolTable

/-- The numbers of the types with a property, in the order of the table. -/
def idsOf (t : SymbolTable) (q : TypeSymbol → Bool) : List TypeId :=
  (t.types.toList.filter q).map (·.id)

/-- The element of a list that has no other. -/
def only? {α : Type} : List α → Option α
  | [only] => some only
  | _ => none

theorem only?_map {α β : Type} (f : α → β) (as : List α) :
    only? (as.map f) = (only? as).map f := by
  match as with
  | [] | [_] | _ :: _ :: _ => rfl

theorem only?_of_perm {α : Type} {as bs : List α} (h : as.Perm bs) : only? as = only? bs := by
  match bs with
  | [] => rw [h.eq_nil]
  | [b] => rw [h.eq_singleton]
  | b :: c :: bs =>
    match as, h.length_eq with
    | _ :: _ :: _, _ => rfl

theorem head?_of_perm {α : Type} {as bs : List α} (h : as.Perm bs)
    (hone : ∀ a ∈ as, ∀ b ∈ as, a = b) : as.head? = bs.head? := by
  match as, bs with
  | [], bs => rw [h.nil_eq]
  | a :: as, [] => exact absurd h.length_eq (by simp)
  | a :: as, b :: bs =>
    rw [List.head?_cons, List.head?_cons, hone a List.mem_cons_self b (h.mem_iff.2 List.mem_cons_self)]

/-- Finding a type by name, in terms of the numbers of the types with the name. -/
theorem typeByName?_eq (t : SymbolTable) (name : String) :
    t.typeByName? name =
      let name := String.ofList (withoutGlobal (Text.trim name).toList)
      if name.isEmpty then none
      else
        let full := t.idsOf (·.fullName == name)
        if full.isEmpty then
          if name.toList.contains '.' then none else only? (t.idsOf (·.name == name))
        else (only? full).or (t.idsOf fun s => s.fullName == name && s.typeParams.isEmpty).head? := by
  unfold typeByName?
  dsimp only
  generalize String.ofList (withoutGlobal (Text.trim name).toList) = name
  split
  · rfl
  · split
    · next only h => simp [idsOf, h, only?]
    · next a b rest h =>
      have hgeneral : ∀ l : List TypeSymbol, (l.find? (·.typeParams.isEmpty)).map (·.id) =
          ((l.filter (·.typeParams.isEmpty)).map (·.id)).head? := by
        intro l
        rw [List.head?_map, List.head?_filter]
      rw [hgeneral, ← h, List.filter_filter]
      simp only [idsOf, h, only?, Option.none_or, List.map_cons, List.isEmpty_cons, Bool.and_comm]
      rfl
    · next h =>
      simp only [idsOf, h, List.map_nil, List.isEmpty_nil, if_true]
      congr 1
      generalize t.types.toList.filter (·.name == name) = named
      match named with
      | [] | [_] | _ :: _ :: _ => rfl

variable {t t' : SymbolTable} {parts parts' : List Part} {q : TypeSymbol → Bool} {i : TypeId}

theorem Records.mem_idsOf (h : t.Records parts) :
    i ∈ t.idsOf q ↔ ∃ s, t.typeSymbol? i = some s ∧ q s = true := by
  simp only [idsOf, List.mem_map, List.mem_filter]
  constructor
  · rintro ⟨s, ⟨hs, hq⟩, rfl⟩
    obtain ⟨j, hj⟩ := List.mem_iff_getElem?.1 hs
    rw [Array.getElem?_toList] at hj
    exact ⟨s, h.typeId j s hj ▸ hj, hq⟩
  · rintro ⟨s, hs, hq⟩
    refine ⟨s, ⟨List.mem_iff_getElem?.2 ⟨i, ?_⟩, hq⟩, h.typeId i s hs⟩
    rwa [Array.getElem?_toList]

/-- The types with a property are listed by their numbers. -/
theorem Records.pairwise_idsOf (h : t.Records parts) : (t.idsOf q).Pairwise (· < ·) := by
  have hids : t.types.toList.map (·.id) = List.range t.types.size := by
    refine List.ext_getElem (by simp) fun k hk _ => ?_
    rw [List.getElem_map, List.getElem_range]
    exact h.typeId k _ (Array.getElem?_eq_getElem (by simpa using hk))
  exact (hids ▸ List.pairwise_lt_range).sublist (List.filter_sublist.map _)

theorem Records.nodup_idsOf (h : t.Records parts) : (t.idsOf q).Nodup :=
  h.pairwise_idsOf.imp Nat.ne_of_lt

/-- Holds of types that do not have one qualified name and are not generic both. -/
def NamedApart (s s' : TypeSymbol) : Prop :=
  s.typeParams = [] → s'.typeParams = [] → s.fullName ≠ s'.fullName

instance : DecidableRel NamedApart := fun _ _ => inferInstanceAs (Decidable (_ → _ → _))

theorem eq_of_fullName (h : t.types.toList.Pairwise NamedApart) {i j : TypeId} {s s' : TypeSymbol}
    (hs : t.typeSymbol? i = some s) (hs' : t.typeSymbol? j = some s') (hopen : s.typeParams = [])
    (hopen' : s'.typeParams = []) (hname : s.fullName = s'.fullName) : i = j := by
  rw [typeSymbol?, ← Array.getElem?_toList, List.getElem?_eq_some_iff] at hs hs'
  obtain ⟨hi, rfl⟩ := hs
  obtain ⟨hj, rfl⟩ := hs'
  have hpairs := List.pairwise_iff_getElem.1 h
  rcases Nat.lt_trichotomy i j with hlt | heq | hlt
  · exact absurd hname (hpairs i j hi hj hlt hopen hopen')
  · exact heq
  · exact absurd hname.symm (hpairs j i hj hi hlt hopen' hopen)

namespace Renumbers

variable {f : TypeId → TypeId} {g : TypeParamId → TypeParamId} (h : Renumbers f g t t')
  (ht : t.Records parts) (ht' : t'.Records parts')

include h ht ht'

/-- The types with a property that is kept have it under their new numbers. -/
theorem idsOf_perm {q' : TypeSymbol → Bool} (hq : ∀ i s s', t.typeSymbol? i = some s →
      t'.typeSymbol? (f i) = some s' → q' s' = q s) :
    (t'.idsOf q').Perm ((t.idsOf q).map f) := by
  refine (List.perm_ext_iff_of_nodup ht'.nodup_idsOf
    (ht.nodup_idsOf.map h.typeInjective)).2 fun i' => ?_
  rw [ht'.mem_idsOf, List.mem_map]
  constructor
  · rintro ⟨s', hs', hq'⟩
    obtain ⟨p, hp⟩ := ht'.exists_path (lt_size_of_getElem? hs')
    obtain ⟨i, hi⟩ := h.onto i' p hp
    obtain ⟨s, hs, -⟩ := ht.symbol_of_path hi
    obtain rfl : f i = i' := ht'.eq_of_path ((h.path i).trans hi) hp
    exact ⟨i, ht.mem_idsOf.2 ⟨s, hs, hq i s s' hs hs' ▸ hq'⟩, rfl⟩
  · rintro ⟨i, hi, rfl⟩
    obtain ⟨s, hs, hq'⟩ := ht.mem_idsOf.1 hi
    obtain ⟨s', hs', -⟩ := h.typeSymbol? ht ht' hs
    exact ⟨s', hs', (hq i s s' hs hs').trans hq'⟩

/-- The same type is found by a name. -/
theorem typeByName? (hnamed : t.types.toList.Pairwise NamedApart) (name : String) :
    t'.typeByName? name = (t.typeByName? name).map f := by
  have hkeep : ∀ (i : TypeId) (s s' : TypeSymbol), t.typeSymbol? i = some s →
      t'.typeSymbol? (f i) = some s' →
        s'.name = s.name ∧ s'.fullName = s.fullName ∧ s'.typeParams = s.typeParams.map g := by
    intro i s s' hs hs'
    obtain ⟨s₀, hs₀, hname, hfull, hparams, -⟩ := h.typeSymbol? ht ht' hs
    obtain rfl := Option.some.inj (hs'.symm.trans hs₀)
    exact ⟨hname, hfull, hparams⟩
  rw [typeByName?_eq, typeByName?_eq]
  dsimp only
  generalize String.ofList (withoutGlobal (Text.trim name).toList) = name
  have hfull : (t'.idsOf (·.fullName == name)).Perm ((t.idsOf (·.fullName == name)).map f) :=
    h.idsOf_perm ht ht' fun i s s' hs hs' => by rw [(hkeep i s s' hs hs').2.1]
  have hsimple : (t'.idsOf (·.name == name)).Perm ((t.idsOf (·.name == name)).map f) :=
    h.idsOf_perm ht ht' fun i s s' hs hs' => by rw [(hkeep i s s' hs hs').1]
  have hopen : (t'.idsOf fun s => s.fullName == name && s.typeParams.isEmpty).Perm
      ((t.idsOf fun s => s.fullName == name && s.typeParams.isEmpty).map f) :=
    h.idsOf_perm ht ht' fun i s s' hs hs' => by
      rw [(hkeep i s s' hs hs').2.1, (hkeep i s s' hs hs').2.2, List.isEmpty_map]
  have hhead : (t'.idsOf fun s => s.fullName == name && s.typeParams.isEmpty).head? =
      (t.idsOf fun s => s.fullName == name && s.typeParams.isEmpty).head?.map f := by
    rw [← List.head?_map]
    refine (head?_of_perm hopen.symm fun i' hi' j' hj' => ?_).symm
    obtain ⟨i, hi, rfl⟩ := List.mem_map.1 hi'
    obtain ⟨j, hj, rfl⟩ := List.mem_map.1 hj'
    obtain ⟨s, hs, hq⟩ := ht.mem_idsOf.1 hi
    obtain ⟨s', hs', hq'⟩ := ht.mem_idsOf.1 hj
    simp only [Bool.and_eq_true, beq_iff_eq, List.isEmpty_iff] at hq hq'
    rw [eq_of_fullName hnamed hs hs' hq.2 hq'.2 (hq.1.trans hq'.1.symm)]
  have hempty : (t'.idsOf (·.fullName == name)).isEmpty = (t.idsOf (·.fullName == name)).isEmpty := by
    rw [hfull.isEmpty_eq, List.isEmpty_map]
  simp only [hempty, only?_of_perm hfull, only?_of_perm hsimple, only?_map, hhead]
  split
  · rfl
  · split
    · split <;> rfl
    · rw [Option.map_or]

end Renumbers

end SelfTypeLint.SymbolTable
