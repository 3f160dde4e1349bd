import Mathlib.Data.List.Induction
import SelfTypeLint.Settings.EditorConfig

/-!
# What a settings file gives

The value that a settings file gives to a key for a file is the one set last in a section for the file:
sections are opened by headers, and a property belongs to the nearest header before it
(`lookup_apply_ofEntries`). Above the first header only `root` counts (`isRoot_ofText`).
-/

namespace SelfTypeLint

namespace Text

private theorem toLower_toLower (c : Char) : c.toLower.toLower = c.toLower := by
  have hsmall : ∀ d : Char, ¬(d.val ≥ 'A'.val ∧ d.val ≤ 'Z'.val) → d.toLower = d :=
    fun d h => dif_neg h
  by_cases hc : c.val ≥ 'A'.val ∧ c.val ≤ 'Z'.val
  · have hval : c.toLower.val = c.val + 32 := congrArg Char.val (dif_pos hc)
    apply hsmall
    rw [hval]
    grind [UInt32.le_iff_toNat_le]
  · rw [hsmall c hc, hsmall c hc]

theorem lower_lower (s : String) : lower (lower s) = lower s := by
  have hchars : ∀ cs : List Char, (cs.map Char.toLower).map Char.toLower = cs.map Char.toLower := by
    intro cs
    rw [List.map_map]
    exact congrArg (cs.map ·) (funext toLower_toLower)
  rw [lower, lower, String.toList_ofList, hchars]

end Text

namespace Options

theorem insertAll_append (o : Options) (ps qs : List (String × String)) :
    o.insertAll (ps ++ qs) = (o.insertAll ps).insertAll qs := List.foldl_append

/-- What is set last is found. -/
theorem lookup_insertAll_concat (o : Options) (ps : List (String × String)) (k v key : String) :
    (o.insertAll (ps ++ [(k, v)])).lookup key =
      if Text.lower key = Text.lower k then some v else (o.insertAll ps).lookup key := by
  rw [insertAll_append]
  exact lookup_insert _ k v key

end Options

namespace EditorConfig

variable {init entries : List Entry} {names : List String} {k x key value : String}

/-- Holds of entries without a header. -/
def Headless (entries : List Entry) : Prop := ∀ pattern, .header pattern ∉ entries

/-- Holds of entries whose last header opens a section for the file with the given names. -/
def InSection (names : List String) (entries : List Entry) : Prop :=
  ∃ front pattern tail, entries = front ++ .header pattern :: tail ∧ Headless tail ∧
    (Section.ofHeader pattern []).accepts names = true

/-- Holds if the entry after some others sets a key, in whatever letter case, to a value. -/
def Sets (entries front : List Entry) (key value : String) : Prop :=
  ∃ k rest, entries = front ++ .property k value :: rest ∧ Text.lower k = Text.lower key

/-- Holds of the value that a key is set to last, where only those settings count before which the
entries pass a test. -/
def LastSet (counts : List Entry → Prop) (entries : List Entry) (key value : String) : Prop :=
  ∃ front, counts front ∧ Sets entries front key value ∧
    ∀ later value', counts later → Sets entries later key value' → later.length ≤ front.length

/-- Holds of the value that the entries of a settings file give to a key for the file with the given
names. -/
def Gives (entries : List Entry) (names : List String) (key value : String) : Prop :=
  LastSet (InSection names) entries key value

/-- Holds if the last setting of `root` above the sections is the word `true`. -/
def SaysRoot (entries : List Entry) : Prop :=
  ∃ value, LastSet Headless entries "root" value ∧ Text.lower value = "true"

theorem headless_nil : Headless [] := fun _ => List.not_mem_nil

@[simp] theorem headless_cons_property :
    Headless (.property k value :: entries) ↔ Headless entries := by
  simp [Headless]

@[simp] theorem not_headless_cons_header {pattern : List Char} :
    ¬ Headless (.header pattern :: entries) := by
  intro h
  exact h pattern List.mem_cons_self

@[simp] theorem not_inSection_nil : ¬ InSection names [] := by
  rintro ⟨front, pattern, tail, h, -⟩
  simp at h

@[simp] theorem inSection_cons_property :
    InSection names (.property k value :: entries) ↔ InSection names entries := by
  constructor
  · rintro ⟨front, pattern, tail, h, hrest⟩
    cases front with
    | nil => exact absurd (List.cons.inj h).1 (by simp)
    | cons e front => exact ⟨front, pattern, tail, (List.cons.inj h).2, hrest⟩
  · rintro ⟨front, pattern, tail, rfl, hrest⟩
    exact ⟨_ :: front, pattern, tail, rfl, hrest⟩

theorem inSection_cons_header {pattern : List Char} :
    InSection names (.header pattern :: entries) ↔
      (Headless entries ∧ (Section.ofHeader pattern []).accepts names = true) ∨
        InSection names entries := by
  constructor
  · rintro ⟨front, p, tail, h, htail, haccepts⟩
    cases front with
    | nil =>
      obtain ⟨hp, rfl⟩ := List.cons.inj h
      obtain rfl := Entry.header.inj hp
      exact .inl ⟨htail, haccepts⟩
    | cons e front => exact .inr ⟨front, p, tail, (List.cons.inj h).2, htail, haccepts⟩
  · rintro (⟨htail, haccepts⟩ | ⟨front, p, tail, rfl, hrest⟩)
    · exact ⟨[], pattern, entries, rfl, htail, haccepts⟩
    · exact ⟨_ :: front, p, tail, rfl, hrest⟩

/-- Where a section is open there is a header. -/
theorem InSection.not_headless (h : InSection names entries) : ¬ Headless entries := by
  obtain ⟨front, pattern, tail, rfl, -⟩ := h
  intro h
  exact h pattern (by simp)

theorem not_sets_nil {front : List Entry} : ¬ Sets [] front key value := by
  rintro ⟨k, rest, h, -⟩
  simp at h

theorem sets_concat {e : Entry} {front : List Entry} :
    Sets (init ++ [e]) front key value ↔ Sets init front key value ∨
      front = init ∧ ∃ k, e = .property k value ∧ Text.lower k = Text.lower key := by
  constructor
  · rintro ⟨k, rest, h, hk⟩
    cases rest using List.reverseRecOn with
    | nil =>
      obtain ⟨hinit, he⟩ := List.append_inj' h rfl
      exact .inr ⟨hinit.symm, k, (List.cons.inj he).1, hk⟩
    | append_singleton rest last =>
      rw [← List.cons_append, ← List.append_assoc] at h
      exact .inl ⟨k, rest, (List.append_inj' h rfl).1, hk⟩
  · rintro (⟨k, rest, rfl, hk⟩ | ⟨rfl, k, rfl, hk⟩)
    · exact ⟨k, rest ++ [e], by simp, hk⟩
    · exact ⟨k, [], rfl, hk⟩

theorem Sets.length_lt {front : List Entry} (h : Sets entries front key value) :
    front.length < entries.length := by
  obtain ⟨k, rest, rfl, -⟩ := h
  simp

section LastSet

variable {counts : List Entry → Prop} {e : Entry}

theorem not_lastSet_nil : ¬ LastSet counts [] key value := by
  rintro ⟨front, -, h, -⟩
  exact not_sets_nil h

/-- An entry that sets the key where settings count is the last one. -/
theorem lastSet_concat_of_counts (hcounts : counts init) (hk : Text.lower k = Text.lower key) :
    LastSet counts (init ++ [.property k x]) key value ↔ value = x := by
  have hsets : Sets (init ++ [.property k x]) init key x := sets_concat.2 (.inr ⟨rfl, k, rfl, hk⟩)
  constructor
  · rintro ⟨front, -, hfront, hlast⟩
    have hle := hlast init x hcounts hsets
    rcases sets_concat.1 hfront with hbefore | ⟨-, k', he, -⟩
    · have := hbefore.length_lt
      omega
    · exact (Entry.property.inj he).2.symm
  · rintro rfl
    refine ⟨init, hcounts, hsets, fun later value' _ hlater => ?_⟩
    have := hlater.length_lt
    rw [List.length_append, List.length_singleton] at this
    omega

/-- An entry that sets another key, or stands where settings do not count, changes nothing. -/
theorem lastSet_concat_of_not
    (h : ∀ k x, e = .property k x → Text.lower k = Text.lower key → ¬ counts init) :
    LastSet counts (init ++ [e]) key value ↔ LastSet counts init key value := by
  have hsets : ∀ front value, counts front →
      (Sets (init ++ [e]) front key value ↔ Sets init front key value) := by
    intro front value hcounts
    rw [sets_concat]
    apply or_iff_left
    rintro ⟨rfl, k, he, hk⟩
    exact h k value he hk hcounts
  constructor
  · rintro ⟨front, hcounts, hset, hlast⟩
    refine ⟨front, hcounts, (hsets front value hcounts).1 hset, fun later value' hlater h => ?_⟩
    exact hlast later value' hlater ((hsets later value' hlater).2 h)
  · rintro ⟨front, hcounts, hset, hlast⟩
    refine ⟨front, hcounts, (hsets front value hcounts).2 hset, fun later value' hlater h => ?_⟩
    exact hlast later value' hlater ((hsets later value' hlater).1 h)

end LastSet

/-! ### Sections -/

theorem leading_concat_of_headless (h : Headless init) :
    leading (init ++ [.property k value]) = leading init ++ [(k, value)] := by
  induction init with
  | nil => rfl
  | cons e init ih =>
    cases e with
    | header pattern => exact absurd h not_headless_cons_header
    | property k' value' => exact congrArg ((k', value') :: ·) (ih (headless_cons_property.1 h))

theorem leading_concat_of_not {e : Entry} (h : ¬ Headless init ∨ ∃ pattern, e = .header pattern) :
    leading (init ++ [e]) = leading init := by
  induction init with
  | nil =>
    obtain ⟨pattern, rfl⟩ := h.resolve_left (not_not_intro headless_nil)
    rfl
  | cons e' init ih =>
    cases e' with
    | header pattern => rfl
    | property k' value' =>
      rw [headless_cons_property] at h
      exact congrArg ((k', value') :: ·) (ih h)

theorem sectionsOf_of_headless (h : Headless entries) : sectionsOf entries = [] := by
  induction entries with
  | nil => rfl
  | cons e entries ih =>
    cases e with
    | header pattern => exact absurd h not_headless_cons_header
    | property k' value' => exact ih (headless_cons_property.1 h)

theorem propertiesFor_ofEntries_header {pattern : List Char} :
    (ofEntries (.header pattern :: entries)).propertiesFor names =
      (if (Section.ofHeader pattern []).accepts names then leading entries else []) ++
        (ofEntries entries).propertiesFor names := rfl

theorem propertiesFor_of_headless (h : Headless entries) :
    (ofEntries entries).propertiesFor names = [] := by
  rw [propertiesFor, ofEntries, sectionsOf_of_headless h]
  rfl

/-- A header at the end opens a section without properties. -/
theorem propertiesFor_concat_header (names : List String) (pattern : List Char) :
    (ofEntries (init ++ [.header pattern])).propertiesFor names =
      (ofEntries init).propertiesFor names := by
  induction init with
  | nil =>
    rw [List.nil_append, propertiesFor_ofEntries_header]
    split <;> rfl
  | cons e init ih =>
    cases e with
    | header p =>
      rw [List.cons_append, propertiesFor_ofEntries_header, propertiesFor_ofEntries_header, ih,
        leading_concat_of_not (.inr ⟨pattern, rfl⟩)]
    | property k' value' => exact ih

/-- A property at the end belongs to the section that is open there. -/
theorem propertiesFor_concat_of_inSection (k value : String) (h : InSection names init) :
    (ofEntries (init ++ [.property k value])).propertiesFor names =
      (ofEntries init).propertiesFor names ++ [(k, value)] := by
  induction init with
  | nil => exact absurd h not_inSection_nil
  | cons e init ih =>
    cases e with
    | header p =>
      rw [List.cons_append, propertiesFor_ofEntries_header, propertiesFor_ofEntries_header]
      rcases inSection_cons_header.1 h with ⟨hheadless, haccepts⟩ | hsection
      · have hconcat : Headless (init ++ [.property k value]) := by
          simpa [Headless] using hheadless
        rw [if_pos haccepts, if_pos haccepts, leading_concat_of_headless hheadless,
          propertiesFor_of_headless hheadless, propertiesFor_of_headless hconcat]
        simp
      · rw [ih hsection, leading_concat_of_not (.inl hsection.not_headless), List.append_assoc]
    | property k' value' => exact ih (inSection_cons_property.1 h)

/-- A property at the end does not count where no section for the file is open. -/
theorem propertiesFor_concat_of_not_inSection (h : ¬ InSection names init) :
    (ofEntries (init ++ [.property k value])).propertiesFor names =
      (ofEntries init).propertiesFor names := by
  induction init with
  | nil => rfl
  | cons e init ih =>
    cases e with
    | header p =>
      rw [inSection_cons_header, not_or] at h
      rw [List.cons_append, propertiesFor_ofEntries_header, propertiesFor_ofEntries_header, ih h.2]
      by_cases haccepts : (Section.ofHeader p []).accepts names = true
      · have hheadless : ¬ Headless init := fun hheadless => h.1 ⟨hheadless, haccepts⟩
        rw [leading_concat_of_not (.inl hheadless)]
      · rw [if_neg haccepts, if_neg haccepts]
    | property k' value' => exact ih (mt inSection_cons_property.2 h)

/-- A settings file sets a key to the last value it gives, and leaves a key that it gives no value. -/
theorem lookup_apply_ofEntries (entries : List Entry) (names : List String) (o : Options)
    (key value : String) :
    ((ofEntries entries).apply names o).lookup key = some value ↔
      Gives entries names key value ∨
        (∀ x, ¬ Gives entries names key x) ∧ o.lookup key = some value := by
  induction entries using List.reverseRecOn with
  | nil => simp [Gives, not_lastSet_nil, apply, ofEntries, sectionsOf, propertiesFor,
      Options.insertAll]
  | append_singleton init e ih =>
    -- the options stay as they are after `init`
    have hsame : (ofEntries (init ++ [e])).propertiesFor names = (ofEntries init).propertiesFor names →
        (∀ x, Gives (init ++ [e]) names key x ↔ Gives init names key x) →
        (((ofEntries (init ++ [e])).apply names o).lookup key = some value ↔
          Gives (init ++ [e]) names key value ∨
            (∀ x, ¬ Gives (init ++ [e]) names key x) ∧ o.lookup key = some value) := by
      intro hproperties hgives
      simp only [hgives]
      rwa [apply, hproperties]
    cases e with
    | header pattern =>
      apply hsame (propertiesFor_concat_header names pattern)
      intro x
      exact lastSet_concat_of_not fun k x he => absurd he (by simp)
    | property k v =>
      by_cases hsection : InSection names init
      · have hproperties := propertiesFor_concat_of_inSection k v hsection
        have hlookup := Options.lookup_insertAll_concat o ((ofEntries init).propertiesFor names) k v key
        by_cases hk : Text.lower k = Text.lower key
        · have hgives : ∀ x, Gives (init ++ [.property k v]) names key x ↔ x = v := fun x =>
            lastSet_concat_of_counts hsection hk
          rw [apply, hproperties, hlookup, if_pos hk.symm]
          simp only [hgives, Option.some.injEq, eq_comm]
          simp
        · have hgives : ∀ x, Gives (init ++ [.property k v]) names key x ↔ Gives init names key x := by
            intro x
            apply lastSet_concat_of_not
            rintro k' x' he hk'
            exact absurd ((Entry.property.inj he).1 ▸ hk') hk
          simp only [hgives]
          rw [apply, hproperties, hlookup, if_neg fun h => hk h.symm]
          exact ih
      · apply hsame (propertiesFor_concat_of_not_inSection hsection)
        intro x
        exact lastSet_concat_of_not fun _ _ _ _ => hsection

/-! ### The root -/

/-- Keys are kept in small letters. -/
theorem lower_of_mem_ofText {text : String} (h : .property k value ∈ Entry.ofText text) :
    Text.lower k = k := by
  obtain ⟨line, -, hline⟩ := List.mem_filterMap.1 h
  have hproperty : ∀ line, Entry.property? line = some (.property k value) → Text.lower k = k := by
    intro line h
    unfold Entry.property? at h
    split at h
    · exact absurd h (by simp)
    · obtain ⟨rfl, -⟩ := Entry.property.inj (Option.some.inj h)
      exact Text.lower_lower _
  unfold Entry.ofLine? Entry.ofTrimmed? at hline
  split at hline
  · exact absurd hline (by simp)
  · split at hline
    · exact absurd hline (by simp)
    · split at hline
      · exact absurd hline (by simp)
      · exact hproperty _ hline

theorem declaresRoot_concat (ps : List (String × String)) (v : String) :
    declaresRoot (ps ++ [("root", v)]) = Text.sameLetters v "true" := by
  simp [declaresRoot]

theorem declaresRoot_concat_of_ne (ps : List (String × String)) (v : String) (h : k ≠ "root") :
    declaresRoot (ps ++ [(k, v)]) = declaresRoot ps := by
  simp [declaresRoot, h]

theorem declaresRoot_leading (entries : List Entry)
    (hlower : ∀ k x, .property k x ∈ entries → Text.lower k = k) :
    declaresRoot (leading entries) = true ↔ SaysRoot entries := by
  induction entries using List.reverseRecOn with
  | nil => simp [SaysRoot, not_lastSet_nil, leading, declaresRoot]
  | append_singleton init e ih =>
    have hinit := ih fun k x h => hlower k x (List.mem_append_left _ h)
    have hsame : leading (init ++ [e]) = leading init →
        (∀ k x, e = .property k x → Text.lower k = Text.lower "root" → ¬ Headless init) →
        (declaresRoot (leading (init ++ [e])) = true ↔ SaysRoot (init ++ [e])) := by
      intro hleading hcounts
      rw [hleading, hinit]
      simp only [SaysRoot, lastSet_concat_of_not hcounts]
    cases e with
    | header pattern => exact hsame (leading_concat_of_not (.inr ⟨pattern, rfl⟩)) (by simp)
    | property k v =>
      have hk : Text.lower k = k := hlower k v (by simp)
      have hroot : Text.lower "root" = "root" := by decide
      by_cases hheadless : Headless init
      · by_cases hkey : k = "root"
        · have hlast : ∀ x, LastSet Headless (init ++ [.property k v]) "root" x ↔ x = v := fun x =>
            lastSet_concat_of_counts hheadless (by rw [hkey])
          rw [leading_concat_of_headless hheadless, hkey, declaresRoot_concat, ← hkey,
            Text.sameLetters_iff]
          simp only [SaysRoot, hlast, exists_eq_left]
          rfl
        · rw [leading_concat_of_headless hheadless, declaresRoot_concat_of_ne _ _ hkey, hinit]
          have hother : ∀ x, LastSet Headless (init ++ [.property k v]) "root" x ↔
              LastSet Headless init "root" x := by
            intro x
            apply lastSet_concat_of_not
            rintro k' x' he hk'
            obtain ⟨rfl, rfl⟩ := Entry.property.inj he
            rw [hk, hroot] at hk'
            exact absurd hk' hkey
          simp only [SaysRoot, hother]
      · exact hsame (leading_concat_of_not (.inl hheadless)) fun _ _ _ _ => hheadless

/-- A settings file is a root if it says so above its sections. -/
theorem isRoot_ofText (text : String) :
    (ofText text).isRoot = true ↔ SaysRoot (Entry.ofText text) :=
  declaresRoot_leading _ fun _ _ => lower_of_mem_ofText

end EditorConfig

end SelfTypeLint
