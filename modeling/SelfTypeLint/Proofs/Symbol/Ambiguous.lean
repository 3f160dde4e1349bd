import SelfTypeLint.Proofs.Grammar.SpaceNames
import SelfTypeLint.Proofs.Reader.Spans
import SelfTypeLint.Proofs.Symbol.Named
import SelfTypeLint.Proofs.Symbol.Origins

/-!
# Names of several types

Types that differ in their parameters, or that are nested in such types, can have one qualified name. A
name stands for a type if no other type has it, or no other one without parameters. The main statement,
`typeByName?_iff_standsFor`, says that the type found by a name is the one that it stands for, just where
no two types without parameters have the name; where they do, the first of them is found.
-/

namespace SelfTypeLint

namespace SymbolTable

/-- Holds of the types with a qualified name. -/
def HasFullName (t : SymbolTable) (name : String) (i : TypeId) : Prop :=
  ∃ s, t.typeSymbol? i = some s ∧ s.fullName = name

/-- Holds of the types with a qualified name that are not generic. -/
def IsPlain (t : SymbolTable) (name : String) (i : TypeId) : Prop :=
  ∃ s, t.typeSymbol? i = some s ∧ s.fullName = name ∧ s.typeParams = []

/-- Holds of the types with a simple name. -/
def HasName (t : SymbolTable) (name : String) (i : TypeId) : Prop :=
  ∃ s, t.typeSymbol? i = some s ∧ s.name = name

/-- Holds of what alone has a property. -/
def Alone (p : TypeId → Prop) (i : TypeId) : Prop := p i ∧ ∀ j, p j → j = i

/-- Holds of the type that a name stands for. -/
inductive StandsFor (t : SymbolTable) (name : String) (i : TypeId) : Prop
  /-- The only type with the qualified name. -/
  | full (alone : Alone (t.HasFullName name) i)
  /-- Of several types with the qualified name, the only one that is not generic. -/
  | plain (several : ∃ j, j ≠ i ∧ t.HasFullName name j) (alone : Alone (t.IsPlain name) i)
  /-- The only type with the simple name, which is the qualified name of none. -/
  | simple (unknown : ∀ j, ¬ t.HasFullName name j) (undotted : '.' ∉ name.toList)
    (alone : Alone (t.HasName name) i)

/-! ## Lists of types -/

theorem only?_eq_some_iff {as : List TypeId} (h : as.Nodup) {i : TypeId} :
    only? as = some i ↔ i ∈ as ∧ ∀ j ∈ as, j = i := by
  match as with
  | [] => simp [only?]
  | [j] => simp [only?, eq_comm]
  | j :: k :: rest =>
    have hne : j ≠ k := by
      rintro rfl
      exact (List.nodup_cons.1 h).1 List.mem_cons_self
    simp only [only?, reduceCtorEq, false_iff, not_and]
    intro _ hall
    exact hne ((hall j (by simp)).trans (hall k (by simp)).symm)

section

variable {t : SymbolTable} {parts : List Part} {name : String} {i j : TypeId}

theorem Records.mem_full_iff (h : t.Records parts) :
    i ∈ t.idsOf (·.fullName == name) ↔ t.HasFullName name i := by
  simp [h.mem_idsOf, HasFullName]

theorem Records.mem_plain_iff (h : t.Records parts) :
    (i ∈ t.idsOf fun s => s.fullName == name && s.typeParams.isEmpty) ↔ t.IsPlain name i := by
  simp [h.mem_idsOf, IsPlain]

theorem Records.mem_simple_iff (h : t.Records parts) :
    i ∈ t.idsOf (·.name == name) ↔ t.HasName name i := by
  simp [h.mem_idsOf, HasName]

theorem IsPlain.hasFullName (h : t.IsPlain name i) : t.HasFullName name i := by
  obtain ⟨s, hs, hname, -⟩ := h
  exact ⟨s, hs, hname⟩

/-- A type that alone has the full name is the only one listed. -/
theorem Records.only?_full (h : t.Records parts) :
    only? (t.idsOf (·.fullName == name)) = some i ↔ Alone (t.HasFullName name) i := by
  simp only [only?_eq_some_iff h.nodup_idsOf, h.mem_full_iff, Alone]

theorem Records.only?_simple (h : t.Records parts) :
    only? (t.idsOf (·.name == name)) = some i ↔ Alone (t.HasName name) i := by
  simp only [only?_eq_some_iff h.nodup_idsOf, h.mem_simple_iff, Alone]

/-- The first type listed that is not generic. -/
theorem Records.head?_plain (h : t.Records parts) :
    (t.idsOf fun s => s.fullName == name && s.typeParams.isEmpty).head? = some i ↔
      t.IsPlain name i ∧ ∀ j, t.IsPlain name j → i ≤ j := by
  simp only [← h.mem_plain_iff]
  have hsorted : (t.idsOf fun s => s.fullName == name && s.typeParams.isEmpty).Pairwise (· < ·) :=
    h.pairwise_idsOf
  generalize (t.idsOf fun s => s.fullName == name && s.typeParams.isEmpty) = ids at hsorted ⊢
  cases ids with
  | nil => simp
  | cons k ids =>
    have hafter := (List.pairwise_cons.1 hsorted).1
    rw [List.head?_cons, Option.some.injEq]
    constructor
    · rintro rfl
      refine ⟨List.mem_cons_self, fun j hj => ?_⟩
      rcases List.mem_cons.1 hj with rfl | hj
      · exact Nat.le_refl _
      · exact Nat.le_of_lt (hafter j hj)
    · rintro ⟨hi, hleast⟩
      rcases List.mem_cons.1 hi with rfl | hi
      · rfl
      · exact absurd (hleast k List.mem_cons_self) (Nat.not_le.2 (hafter i hi))

/-- By a qualified name the only type with it is found, or of several types the first that is not
generic. -/
theorem Records.typeByName?_known (h : t.Records parts) {raw : String}
    (hname : String.ofList (withoutGlobal (Text.trim raw).toList) = name) (hne : name ≠ "")
    (hknown : t.HasFullName name j) :
    t.typeByName? raw = some i ↔ Alone (t.HasFullName name) i ∨
      (∀ k, ¬ Alone (t.HasFullName name) k) ∧ t.IsPlain name i ∧ ∀ k, t.IsPlain name k → i ≤ k := by
  have hfull : t.idsOf (·.fullName == name) ≠ [] := List.ne_nil_of_mem (h.mem_full_iff.2 hknown)
  have hnone : only? (t.idsOf (·.fullName == name)) = none ↔
      ∀ k, ¬ Alone (t.HasFullName name) k := by
    simp only [Option.eq_none_iff_forall_ne_some, ne_eq, h.only?_full]
  rw [typeByName?_eq]
  simp only [hname, String.isEmpty_iff, List.isEmpty_iff, hne, hfull, if_false, Option.or_eq_some_iff,
    hnone, h.only?_full, h.head?_plain]

/-- By a name that is no qualified name the only type with this simple name is found. -/
theorem Records.typeByName?_unknown (h : t.Records parts) {raw : String}
    (hname : String.ofList (withoutGlobal (Text.trim raw).toList) = name) (hne : name ≠ "")
    (hunknown : ∀ k, ¬ t.HasFullName name k) :
    t.typeByName? raw = some i ↔ '.' ∉ name.toList ∧ Alone (t.HasName name) i := by
  have hfull : t.idsOf (·.fullName == name) = [] :=
    List.eq_nil_iff_forall_not_mem.2 fun k hk => hunknown k (h.mem_full_iff.1 hk)
  rw [typeByName?_eq]
  simp only [hname, String.isEmpty_iff, List.isEmpty_iff, hne, hfull, if_false, if_true]
  split
  · next hdot => simp [List.contains_iff_mem.1 hdot]
  · next hdot =>
    rw [List.contains_iff_mem] at hdot
    simp [hdot, h.only?_simple]

/-- Nothing is found by the empty name. -/
theorem typeByName?_empty {raw : String}
    (hname : String.ofList (withoutGlobal (Text.trim raw).toList) = "") : t.typeByName? raw = none := by
  rw [typeByName?_eq]
  simp [hname]

/-- Of several types with a name, none alone has it. -/
theorem not_alone_of_ne {p : TypeId → Prop} (hi : p i) (hj : p j) (hne : i ≠ j) (k : TypeId) :
    ¬ Alone p k :=
  fun h => hne ((h.2 i hi).trans (h.2 j hj).symm)

/-- Where two types without parameters have a qualified name, the first of them is found, and the name
stands for no type. -/
theorem Records.typeByName?_of_plain (h : t.Records parts) {raw : String}
    (hname : String.ofList (withoutGlobal (Text.trim raw).toList) = name) (hne : name ≠ "")
    (hi : t.IsPlain name i) (hj : t.IsPlain name j) (hij : i ≠ j) :
    ∃ k, t.typeByName? raw = some k ∧ t.IsPlain name k ∧ (∀ l, t.IsPlain name l → k ≤ l) ∧
      ∀ l, ¬ t.StandsFor name l := by
  have hfull := not_alone_of_ne hi.hasFullName hj.hasFullName hij
  have hplain := not_alone_of_ne hi hj hij
  obtain ⟨k, hk⟩ : ∃ k, (t.idsOf fun s => s.fullName == name && s.typeParams.isEmpty).head? = some k :=
    Option.ne_none_iff_exists'.1 fun hnone => by
      rw [List.head?_eq_none_iff] at hnone
      exact List.not_mem_nil (hnone ▸ h.mem_plain_iff.2 hi)
  have hleast := h.head?_plain.1 hk
  refine ⟨k, (h.typeByName?_known hname hne hi.hasFullName).2 (.inr ⟨hfull, hleast⟩), hleast.1,
    hleast.2, ?_⟩
  rintro l (halone | ⟨-, halone⟩ | ⟨hunknown, -, -⟩)
  · exact hfull l halone
  · exact hplain l halone
  · exact hunknown i hi.hasFullName

/-- Where no two types without parameters have a qualified name, what is found by a name is what it stands
for. -/
theorem Records.typeByName?_iff (h : t.Records parts) {raw : String}
    (hname : String.ofList (withoutGlobal (Text.trim raw).toList) = name) (hne : name ≠ "")
    (hplain : ∀ i j, t.IsPlain name i → t.IsPlain name j → i = j) :
    t.typeByName? raw = some i ↔ t.StandsFor name i := by
  by_cases hknown : ∃ j, t.HasFullName name j
  · obtain ⟨j, hj⟩ := hknown
    rw [h.typeByName?_known hname hne hj]
    constructor
    · rintro (halone | ⟨hnone, hi, -⟩)
      · exact .full halone
      · -- Another type has the name, or the one that is found would alone have it.
        refine .plain ?_ ⟨hi, fun k hk => hplain k i hk hi⟩
        by_contra hother
        exact hnone i ⟨hi.hasFullName, fun k hk => by
          by_contra hki
          exact hother ⟨k, hki, hk⟩⟩
    · rintro (halone | ⟨⟨k, hki, hk⟩, halone⟩ | ⟨hunknown, -, -⟩)
      · exact .inl halone
      · refine .inr ⟨not_alone_of_ne hk halone.1.hasFullName hki, halone.1, fun l hl => ?_⟩
        exact Nat.le_of_eq (halone.2 l hl).symm
      · exact absurd hj (hunknown j)
  · have hunknown : ∀ j, ¬ t.HasFullName name j := fun j hj => hknown ⟨j, hj⟩
    rw [h.typeByName?_unknown hname hne hunknown]
    constructor
    · rintro ⟨hdot, halone⟩
      exact .simple hunknown hdot halone
    · rintro (halone | ⟨-, halone⟩ | ⟨-, hdot, halone⟩)
      · exact absurd halone.1 (hunknown i)
      · exact absurd halone.1.hasFullName (hunknown i)
      · exact ⟨hdot, halone⟩

end

end SymbolTable

namespace Workspace

open SymbolTable

variable {sources : List SourceText} {i : TypeId} {s : TypeSymbol}

/-- No type has an empty name. -/
theorem name_ne_empty (hs : (build sources).symbols.typeSymbol? i = some s) : s.name ≠ "" := by
  rcases origin_of_type (nodup_declaredSites sources) hs with
    ⟨x, hx, -, hname⟩ | ⟨tree, htree, d, hd, -, hname⟩
  · have hall : ∀ x ∈ predefinedTypes, x.2 ≠ "" := by decide
    exact hname ▸ hall x hx
  · obtain ⟨doc, hdoc, rfl⟩ := List.mem_map.1 htree
    obtain ⟨-, hread, -⟩ := ofSource_of_document? (mem_documents_iff.1 hdoc)
    rw [hread] at hd
    obtain ⟨u, hu, hk, hident⟩ := Token.mem_idents_iff.1
      (SyntaxTree.mem_idents_of_declared doc.id doc.text hd List.mem_cons_self)
    rw [hname, show d.name = identName u.text from congrArg Ident.name hident]
    exact (Token.led_identName hu hk).ne_empty

theorem fullName_ne_empty (hs : (build sources).symbols.typeSymbol? i = some s) :
    s.fullName ≠ "" := by
  obtain ⟨parts, hrecords, -⟩ := exists_records_bind ((build sources).documents.map (·.tree))
  have hname := name_ne_empty hs
  rw [hrecords.fullName i s hs, TypeSymbol.qualifiedName.eq_def]
  split
  · simp
  · rw [Dotted.join]
    split
    · exact hname
    · simp

/-- What is found by a name, without the blanks around it and the words for the global namespace in front,
is the type that the name stands for, just where no two types without parameters have it as their qualified
name. Where they do it stands for none, but the first of these types is found. -/
theorem typeByName?_iff_standsFor (sources : List SourceText) (raw : String) :
    let t := (build sources).symbols
    let name := String.ofList (withoutGlobal (Text.trim raw).toList)
    ((∀ i, t.typeByName? raw = some i ↔ t.StandsFor name i) ↔
      ∀ i j, t.IsPlain name i → t.IsPlain name j → i = j) ∧
    ∀ i j, t.IsPlain name i → t.IsPlain name j → i ≠ j →
      ∃ k, t.typeByName? raw = some k ∧ t.IsPlain name k ∧ (∀ l, t.IsPlain name l → k ≤ l) ∧
        ∀ l, ¬ t.StandsFor name l := by
  intro t name
  obtain ⟨parts, hrecords, -⟩ := exists_records_bind ((build sources).documents.map (·.tree))
  have h : t.Records parts := hrecords
  by_cases hne : name = ""
  · have hnone : ∀ i, ¬ t.HasFullName name i := by
      rintro i ⟨s, hs, hname⟩
      exact fullName_ne_empty hs (hname.trans hne)
    refine ⟨iff_of_true (fun i => ?_) fun i j hi => absurd hi.hasFullName (hnone i),
      fun i j hi => absurd hi.hasFullName (hnone i)⟩
    rw [typeByName?_empty hne]
    constructor
    · exact fun hnothing => absurd hnothing (by simp)
    · rintro (halone | ⟨-, halone⟩ | ⟨-, -, ⟨s, hs, hname⟩, -⟩)
      · exact absurd halone.1 (hnone i)
      · exact absurd halone.1.hasFullName (hnone i)
      · exact absurd (hname.trans hne) (name_ne_empty hs)
  · refine ⟨⟨fun hiff i j hi hj => ?_, fun hplain i => h.typeByName?_iff rfl hne hplain⟩,
      fun i j hi hj hij => h.typeByName?_of_plain rfl hne hi hj hij⟩
    by_contra hij
    obtain ⟨k, hk, -, -, hstands⟩ := h.typeByName?_of_plain rfl hne hi hj hij
    exact hstands k ((hiff k).1 hk)

/-- A type nested in one without parameters and another one nested in a generic type of the same name. -/
def nestedAlike : List SourceText :=
  [⟨"A.cs", "class G { class X {} } class G<T> { class X {} }", .empty⟩]

/-- The first of the nested types is found, but their name stands for neither. -/
theorem typeByName?_nestedAlike : (build nestedAlike).symbols.typeByName? "G.X" = some 18 ∧
    ¬ (build nestedAlike).symbols.StandsFor "G.X" 18 := by
  have hfirst : ((build nestedAlike).symbols.typeSymbol? 18).map (fun s =>
      (s.fullName, s.typeParams)) = some ("G.X", []) := by decide +kernel
  have hsecond : ((build nestedAlike).symbols.typeSymbol? 20).map (fun s =>
      (s.fullName, s.typeParams)) = some ("G.X", []) := by decide +kernel
  obtain ⟨s, hs, heq⟩ := Option.map_eq_some_iff.1 hfirst
  obtain ⟨s', hs', heq'⟩ := Option.map_eq_some_iff.1 hsecond
  obtain ⟨hname, hopen⟩ := Prod.mk.inj heq
  obtain ⟨hname', hopen'⟩ := Prod.mk.inj heq'
  refine ⟨by decide +kernel, ?_⟩
  rintro (halone | ⟨-, halone⟩ | ⟨hunknown, -, -⟩)
  · exact absurd (halone.2 20 ⟨s', hs', hname'⟩) (by decide)
  · exact absurd (halone.2 20 ⟨s', hs', hname', hopen'⟩) (by decide)
  · exact hunknown 18 ⟨s, hs, hname⟩

end Workspace

end SelfTypeLint
