import Mathlib.Data.List.Basic
import Mathlib.Data.Prod.Lex
import SelfTypeLint.Proofs.Analysis.Findings

/-!
# Which finding a declaration has

A declaration has a finding if an argument that one of its base types gives to a self parameter has to be
reported. The finding is that of the first such argument: the first base type that has one decides, then
the first argument. What need not be reported does not end the search.

The arguments given to self parameters are listed with the number of the base type and of the argument.
The list is in the order of these pairs of numbers, so the first entry that is wrong is the least one.
-/

namespace SelfTypeLint

/-- An element is the first one of a list with a property. -/
def FirstWith {α : Type} (P : α → Prop) (as : List α) (a : α) : Prop :=
  ∃ before after, as = before ++ a :: after ∧ P a ∧ ∀ b ∈ before, ¬ P b

/-- A search in a list ends at the first element with the property. -/
theorem firstWith_of_find? {α : Type} {p : α → Bool} {as : List α} {a : α}
    (h : as.find? p = some a) : FirstWith (p · = true) as a := by
  obtain ⟨ha, before, after, rfl, hbefore⟩ := List.find?_eq_some_iff_append.1 h
  exact ⟨before, after, rfl, ha, fun b hb => by simpa using hbefore b hb⟩

/-- The numbers beside the elements of a list ascend. -/
theorem pairwise_zipIdx {α : Type} (as : List α) : as.zipIdx.Pairwise fun a b => a.2 < b.2 := by
  have h : (as.zipIdx.map Prod.snd).Pairwise (· < ·) := by
    rw [List.zipIdx_map_snd]
    exact List.pairwise_lt_range'
  exact List.pairwise_map.1 h

namespace Scan

variable (model : SemanticModel) (file : FileId) (config : Config) (d : TypeDecl)

/-! ## What has to be reported -/

/-- The `i`-th base type is generic, the `k`-th parameter of its definition is a self parameter, and
the base type gives it an argument. -/
def GivesSelf (i k : Nat) (base : TypeExpr) (argument : TypeRef) : Prop :=
  d.baseList[i]? = some base ∧ ∃ constructed, model.resolveBaseType file d base = some constructed ∧
    constructed.args[k]? = some argument ∧ ∃ formal p, constructed.formals[k]? = some formal ∧
      model.typeParam formal = some p ∧ config.isSelfParam p = true

/-- An argument of a self parameter is to be reported: it is another type than the declaring one, or a
known type parameter that is no self parameter and has a place in the file. -/
def Wrong (own argument : TypeRef) : Prop :=
  ((∀ id, argument ≠ .param id) ∧ argument ≠ own) ∨
    ∃ id p, argument = .param id ∧ model.typeParam id = some p ∧ config.isSelfParam p = false ∧
      ∃ l ∈ p.locations, l.file = file

/-- The `k`-th argument of the `i`-th base type is to be reported. -/
def Reportable (own : TypeRef) (i k : Nat) : Prop :=
  ∃ base argument, GivesSelf model file config d i k base argument ∧
    Wrong model file config own argument

/-- No argument before the `k`-th one of the `i`-th base type is to be reported, but that one is. -/
def FirstReportable (own : TypeRef) (i k : Nat) : Prop :=
  Reportable model file config d own i k ∧ ∀ i' k', Reportable model file config d own i' k' →
    i < i' ∨ i = i' ∧ k ≤ k'

/-- A type parameter is reported at its first place in the file inside the declaration, or at its first
place in the file if none is inside. -/
def ReportedAt (p : TypeParamSymbol) (l : Location) : Prop :=
  FirstWith (fun l => l.file = file ∧ d.span.contains l.span = true) p.locations l ∨
    (∀ l ∈ p.locations, l.file = file → d.span.contains l.span = false) ∧
      FirstWith (·.file = file) p.locations l

/-- The finding of the `k`-th argument of a base type. -/
inductive FindingOf (base : TypeExpr) (k : Nat) : TypeRef → Finding → Prop
  | concrete {argument : TypeRef} (h : ∀ id, argument ≠ .param id) :
      FindingOf base k argument (.selfArgument (writtenSpan base k) d.name)
  | forwarded {id : TypeParamId} {p : TypeParamSymbol} {l : Location}
      (hp : model.typeParam id = some p) (hl : ReportedAt file d p l) :
      FindingOf base k (.param id) (.forwardedParameter l.span p.id p.name)

/-! ## One argument -/

variable {model file config d}

/-- The place of the report is looked for twice, first inside the declaration only. -/
theorem reportPlace?_eq_or (p : TypeParamSymbol) :
    reportPlace? file d p =
      (p.locations.find? fun l => l.file = file ∧ d.span.contains l.span = true).or
        (p.locations.find? (·.file = file)) := by
  unfold reportPlace?
  dsimp only
  rw [List.find?_filter, List.head?_filter]
  simp only [decide_eq_true_eq]
  cases p.locations.find? fun l => decide (l.file = file ∧ d.span.contains l.span = true) <;> rfl

theorem reportedAt_of_reportPlace? {p : TypeParamSymbol} {l : Location}
    (h : reportPlace? file d p = some l) : ReportedAt file d p l := by
  rw [reportPlace?_eq_or] at h
  rcases Option.or_eq_some_iff.1 h with h | ⟨hnone, h⟩
  · exact .inl (by simpa only [decide_eq_true_eq] using firstWith_of_find? h)
  · have houtside := List.find?_eq_none.1 hnone
    refine .inr ⟨fun l hl hfile => ?_, by simpa only [decide_eq_true_eq] using firstWith_of_find? h⟩
    simpa [hfile] using houtside l hl

/-- A type parameter with a place in the file can be reported, inside the declaration or not. -/
theorem reportPlace?_isSome_iff {p : TypeParamSymbol} :
    (reportPlace? file d p).isSome = true ↔ ∃ l ∈ p.locations, l.file = file := by
  rw [reportPlace?_eq_or, Option.isSome_or, Bool.or_eq_true, List.find?_isSome, List.find?_isSome]
  constructor
  · rintro (⟨l, hl, h⟩ | ⟨l, hl, h⟩)
    · exact ⟨l, hl, (of_decide_eq_true h).1⟩
    · exact ⟨l, hl, of_decide_eq_true h⟩
  · rintro ⟨l, hl, h⟩
    exact .inr ⟨l, hl, decide_eq_true h⟩

/-- Something is wrong with a slot if its argument is to be reported. -/
theorem classify?_isSome_iff {own : TypeRef} {slot : SelfSlot} :
    (classify? model file config d own slot).isSome = true ↔
      Wrong model file config own slot.argument := by
  unfold classify?
  split
  · next id hargument =>
    rw [hargument]
    have hwrong : Wrong model file config own (.param id) ↔ ∃ p, model.typeParam id = some p ∧
        config.isSelfParam p = false ∧ ∃ l ∈ p.locations, l.file = file := by
      simp [Wrong]
    rw [hwrong]
    cases hp : model.typeParam id with
    | none => simp
    | some p =>
      cases hself : config.isSelfParam p with
      | true => simp [hself]
      | false =>
        simp only [Option.some.injEq, exists_eq_left', hself, true_and,
          ← reportPlace?_isSome_iff (d := d)]
        cases hplace : reportPlace? file d p <;> simp [hself, hplace]
  · next hconcrete =>
    have hwrong : Wrong model file config own slot.argument ↔ slot.argument ≠ own := by
      constructor
      · rintro (⟨-, hother⟩ | ⟨id, -, hparam, -⟩)
        · exact hother
        · exact absurd hparam (hconcrete id)
      · exact fun hother => .inl ⟨hconcrete, hother⟩
    rw [hwrong]
    split <;> simp [*]

/-- What is found wrong with a slot is the finding of its argument. -/
theorem findingOf_of_classify? {own : TypeRef} {slot : SelfSlot} {base : TypeExpr} {f : Finding}
    (hspan : slot.argumentSpan = writtenSpan base slot.index)
    (h : classify? model file config d own slot = some f) :
    FindingOf model file d base slot.index slot.argument f := by
  unfold classify? at h
  split at h
  · next id hargument =>
    obtain ⟨p, hp, h⟩ := Option.bind_eq_some_iff.1 h
    split at h
    · exact absurd h (by simp)
    · obtain ⟨l, hl, h⟩ := Option.bind_eq_some_iff.1 h
      obtain rfl := Option.some.inj h
      rw [hargument]
      exact .forwarded hp (reportedAt_of_reportPlace? hl)
  · next hconcrete =>
    split at h
    · exact absurd h (by simp)
    · obtain rfl := Option.some.inj h
      rw [hspan]
      exact .concrete hconcrete

/-! ## All arguments in order -/

/-- The slots of a base type are listed in the order of their numbers. -/
theorem pairwise_selfSlots (base : TypeExpr) :
    (selfSlots model file config d base).Pairwise (·.index < ·.index) := by
  unfold selfSlots
  split
  · exact List.Pairwise.nil
  · refine List.pairwise_filterMap.2 ((pairwise_zipIdx _).imp ?_)
    rintro ⟨_, k⟩ ⟨_, k'⟩ hlt slot hslot slot' hslot'
    obtain ⟨-, hslot⟩ := Option.ite_none_right_eq_some.1 hslot
    obtain ⟨-, hslot'⟩ := Option.ite_none_right_eq_some.1 hslot'
    rw [← Option.some.inj hslot, ← Option.some.inj hslot']
    exact hlt

variable (model file config d) in
/-- The slots of all base types, each with the number of its base type. -/
def numberedSlots : List (Nat × SelfSlot) :=
  d.baseList.zipIdx.flatMap fun (base, i) => (selfSlots model file config d base).map (i, ·)

theorem mem_numberedSlots {i : Nat} {slot : SelfSlot} :
    (i, slot) ∈ numberedSlots model file config d ↔
      ∃ base, d.baseList[i]? = some base ∧ slot ∈ selfSlots model file config d base := by
  simp [numberedSlots, List.mem_flatMap, List.mem_zipIdx_iff_getElem?]

/-- The slots of all base types are listed in the order of the base types, then of the slots. -/
theorem pairwise_numberedSlots (model : SemanticModel) (file : FileId) (config : Config)
    (d : TypeDecl) : (numberedSlots model file config d).Pairwise fun a b =>
      a.1 < b.1 ∨ a.1 = b.1 ∧ a.2.index < b.2.index := by
  refine List.pairwise_flatMap.2 ⟨fun (base, i) _ => ?_, ?_⟩
  · exact List.pairwise_map.2 ((pairwise_selfSlots base).imp fun hlt => .inr ⟨rfl, hlt⟩)
  · refine (pairwise_zipIdx d.baseList).imp fun {a b} hlt x hx y hy => ?_
    obtain ⟨_, -, rfl⟩ := List.mem_map.1 hx
    obtain ⟨_, -, rfl⟩ := List.mem_map.1 hy
    exact .inl hlt

theorem findSome?_numberedSlots (own : TypeRef) :
    (numberedSlots model file config d).findSome? (fun s => classify? model file config d own s.2) =
      d.baseList.findSome? fun base =>
        (selfSlots model file config d base).findSome? (classify? model file config d own) := by
  have hbase : d.baseList = d.baseList.zipIdx.map Prod.fst := (List.zipIdx_map_fst 0 _).symm
  rw [← List.head?_filterMap, numberedSlots, List.filterMap_flatMap, List.head?_flatMap]
  conv_rhs => rw [hbase, List.findSome?_map]
  congr 1
  funext ⟨base, i⟩
  simp only [List.head?_filterMap, List.findSome?_map, Function.comp_def]

/-- The search in a declaration goes through the slots of all its base types in order. -/
theorem scanDeclaration_eq_findSome? {symbol : TypeSymbol} (hactive : config.isActive = true)
    (hsymbol : (model.declaredType file d).bind model.typeSymbol = some symbol) :
    scanDeclaration model file config d false =
      .ok ((numberedSlots model file config d).findSome? fun s =>
        classify? model file config d symbol.selfType s.2) := by
  unfold scanDeclaration
  rw [hsymbol, hactive, findSome?_numberedSlots]
  cases hbases : d.baseList with
  | nil => rfl
  | cons base bases =>
    rw [← scanBases_eq_findSome?]
    rfl

/-! ## The first argument to be reported -/

/-- The arguments that a base type gives to self parameters are those of its slots. -/
theorem givesSelf_iff {i k : Nat} {base : TypeExpr} {argument : TypeRef} :
    GivesSelf model file config d i k base argument ↔ d.baseList[i]? = some base ∧
      ∃ slot ∈ selfSlots model file config d base, slot.index = k ∧ slot.argument = argument := by
  refine and_congr_right fun _ => ?_
  constructor
  · rintro ⟨constructed, hresolve, hargument, formal, p, hformal, hp, hself⟩
    exact ⟨⟨k, formal, argument, writtenSpan base k⟩,
      mem_selfSlots_iff.2 ⟨constructed, hresolve, hformal, hargument, by simp [hp, hself], rfl⟩,
      rfl, rfl⟩
  · rintro ⟨slot, hslot, rfl, rfl⟩
    obtain ⟨constructed, hresolve, hformal, hargument, hself, -⟩ := mem_selfSlots_iff.1 hslot
    obtain ⟨p, hp, hself⟩ := (Option.any_eq_true _ _).1 hself
    exact ⟨constructed, hresolve, hargument, slot.formal, p, hformal, hp, hself⟩

/-- An argument is to be reported if something is wrong with its slot. -/
theorem reportable_iff {own : TypeRef} {i k : Nat} :
    Reportable model file config d own i k ↔
      ∃ slot, (i, slot) ∈ numberedSlots model file config d ∧ slot.index = k ∧
        (classify? model file config d own slot).isSome = true := by
  simp only [Reportable, givesSelf_iff, classify?_isSome_iff, mem_numberedSlots]
  constructor
  · rintro ⟨base, _, ⟨hbase, slot, hslot, hk, rfl⟩, hwrong⟩
    exact ⟨slot, ⟨base, hbase, hslot⟩, hk, hwrong⟩
  · rintro ⟨slot, ⟨base, hbase, hslot⟩, hk, hwrong⟩
    exact ⟨base, slot.argument, ⟨hbase, slot, hslot, hk, rfl⟩, hwrong⟩

/-- The first slot that something is wrong with is that of the first argument to be reported. -/
theorem firstReportable_of_findSome? {own : TypeRef} {f : Finding}
    (h : (numberedSlots model file config d).findSome?
      (fun s => classify? model file config d own s.2) = some f) :
    ∃ i k, FirstReportable model file config d own i k ∧ ∃ base argument,
      GivesSelf model file config d i k base argument ∧ FindingOf model file d base k argument f := by
  obtain ⟨before, ⟨i, slot⟩, after, hsplit, hf, hbefore⟩ := List.findSome?_eq_some_iff.1 h
  have hmem : (i, slot) ∈ numberedSlots model file config d := by simp [hsplit]
  have hsorted := pairwise_numberedSlots model file config d
  rw [hsplit] at hsorted
  refine ⟨i, slot.index, ⟨reportable_iff.2 ⟨slot, hmem, rfl, by simp [hf]⟩, ?_⟩, ?_⟩
  · -- the slot of another argument to be reported is not before the first one, so it is after it
    intro i' k' hother
    obtain ⟨slot', hslot', rfl, hwrong⟩ := reportable_iff.1 hother
    rw [hsplit] at hslot'
    rcases List.mem_append.1 hslot' with hslot' | hslot'
    · rw [hbefore _ hslot'] at hwrong
      exact absurd hwrong (by simp)
    rcases List.mem_cons.1 hslot' with heq | hslot'
    · obtain ⟨rfl, rfl⟩ := Prod.mk.inj heq
      exact .inr ⟨rfl, le_rfl⟩
    · have hlater := (List.pairwise_cons.1 (List.pairwise_append.1 hsorted).2.1).1 _ hslot'
      exact hlater.imp id fun ⟨hi, hk⟩ => ⟨hi, hk.le⟩
  · obtain ⟨base, hbase, hslot⟩ := mem_numberedSlots.1 hmem
    obtain ⟨-, -, -, -, -, hspan⟩ := mem_selfSlots_iff.1 hslot
    exact ⟨base, slot.argument, givesSelf_iff.2 ⟨hbase, slot, hslot, rfl, rfl⟩,
      findingOf_of_classify? hspan hf⟩

/-- A scan that no request stops ends. A declaration has a finding if something makes self parameters,
the declaration has a symbol and one of the arguments is to be reported; it is the finding of the first
such argument. -/
theorem scanDeclaration_finds_first (model : SemanticModel) (file : FileId) (config : Config)
    (d : TypeDecl) :
    ∃ r, scanDeclaration model file config d false = .ok r ∧
      (r.isSome = true ↔ config.isActive = true ∧ ∃ symbol,
        (model.declaredType file d).bind model.typeSymbol = some symbol ∧
          ∃ i k, Reportable model file config d symbol.selfType i k) ∧
      ∀ f, r = some f → ∃ symbol,
        (model.declaredType file d).bind model.typeSymbol = some symbol ∧
          ∃ i k, FirstReportable model file config d symbol.selfType i k ∧ ∃ base argument,
            GivesSelf model file config d i k base argument ∧
              FindingOf model file d base k argument f := by
  cases hactive : config.isActive with
  | false => exact ⟨none, scanDeclaration_of_not_isActive hactive d false, by simp, by simp⟩
  | true =>
    cases hsymbol : (model.declaredType file d).bind model.typeSymbol with
    | none =>
      refine ⟨none, ?_, by simp, by simp⟩
      unfold scanDeclaration
      rw [hsymbol]
      split <;> rfl
    | some symbol =>
      refine ⟨_, scanDeclaration_eq_findSome? hactive hsymbol, ?_, fun f hf =>
        ⟨symbol, rfl, firstReportable_of_findSome? hf⟩⟩
      constructor
      · intro hsome
        obtain ⟨⟨i, slot⟩, hslot, hwrong⟩ := List.findSome?_isSome_iff.1 hsome
        exact ⟨rfl, symbol, rfl, i, slot.index, reportable_iff.2 ⟨slot, hslot, rfl, hwrong⟩⟩
      · rintro ⟨-, _, ⟨⟩, i, k, hreportable⟩
        obtain ⟨slot, hslot, -, hwrong⟩ := reportable_iff.1 hreportable
        exact List.findSome?_isSome_iff.2 ⟨(i, slot), hslot, hwrong⟩

end Scan

end SelfTypeLint
