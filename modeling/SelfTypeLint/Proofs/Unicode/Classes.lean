import Mathlib.Data.List.Chain
import Mathlib.Data.List.TakeWhile
import SelfTypeLint.Token.Identifier

/-!
# Words and names by character

A name and a word are spelled with different classes of characters. The tables of the classes ascend, so
one walk over two of them shows that no character is in both, or that one class holds the other. The main
statements, `isWordStart_iff_nameStartClasses` and `isWordPart_iff_nameClasses`, say which characters
a name may have that no word has: some marks at its front, enclosed letters and numbers, and what
Unicode 17 adds.
-/

namespace SelfTypeLint

namespace Unicode

/-! ## Tables -/

/-- Holds of a range with a code point and a range above it. -/
def Below (r s : Nat × Nat) : Prop := r.1 ≤ r.2 ∧ r.2 < s.1

instance (r s : Nat × Nat) : Decidable (Below r s) := inferInstanceAs (Decidable (_ ∧ _))

instance : IsTrans (Nat × Nat) Below where
  trans r s t hrs hst := ⟨hrs.1, by unfold Below at hrs hst; omega⟩

/-- What is left of a table from a code point on. -/
def ahead (n : Nat) (ss : List (Nat × Nat)) : List (Nat × Nat) := ss.dropWhile fun s => s.2 < n

/-- Holds if a walk over two tables finds no common code point. -/
def apart : List (Nat × Nat) → List (Nat × Nat) → Bool
  | [], _ => true
  | r :: rs, ss => (ahead r.1 ss).head?.all (fun s => r.2 < s.1) && apart rs (ahead r.1 ss)

/-- The first code point after the ranges at the front of a table that follow one another without a gap
from `n` on. -/
def reach (n : Nat) : List (Nat × Nat) → Nat
  | [] => n
  | s :: ss => if s.1 ≤ n ∧ n ≤ s.2 then reach (s.2 + 1) ss else n

/-- Holds if a walk over two tables finds each code point of the first in the second. -/
def covered : List (Nat × Nat) → List (Nat × Nat) → Bool
  | [], _ => true
  | r :: rs, ss => decide (r.2 < reach r.1 (ahead r.1 ss)) && covered rs (ahead r.1 ss)

theorem ahead_sublist (n : Nat) (ss : List (Nat × Nat)) : (ahead n ss).Sublist ss :=
  List.dropWhile_sublist _

/-- A range that is not ahead of a code point lies below it. -/
theorem lt_or_mem_ahead (n : Nat) {ss : List (Nat × Nat)} {s : Nat × Nat} (hs : s ∈ ss) :
    s.2 < n ∨ s ∈ ahead n ss := by
  rw [← ss.takeWhile_append_dropWhile (p := fun s => s.2 < n), List.mem_append] at hs
  exact hs.imp_left fun h => by simpa using List.mem_takeWhile_imp h

/-- The walk over two ascending tables meets every common code point. -/
theorem lt_or_lt_of_apart {rs ss : List (Nat × Nat)} (hrs : rs.Pairwise Below)
    (hss : ss.Pairwise Below) (h : apart rs ss = true) {r s : Nat × Nat} (hr : r ∈ rs) (hs : s ∈ ss) :
    r.2 < s.1 ∨ s.2 < r.1 := by
  induction rs generalizing ss with
  | nil => exact absurd hr List.not_mem_nil
  | cons first rs ih =>
    obtain ⟨hfirst, hrs⟩ := List.pairwise_cons.1 hrs
    rw [apart, Bool.and_eq_true] at h
    obtain ⟨hhead, htail⟩ := h
    have hahead := hss.sublist (ahead_sublist first.1 ss)
    rcases lt_or_mem_ahead first.1 hs with hlt | hs
    · rcases List.mem_cons.1 hr with rfl | hr
      · exact .inr hlt
      · have hbelow := hfirst r hr
        unfold Below at hbelow
        omega
    · rcases List.mem_cons.1 hr with rfl | hr
      · left
        obtain ⟨next, rest, hcons⟩ := List.exists_cons_of_ne_nil (List.ne_nil_of_mem hs)
        rw [hcons] at hs hhead hahead
        have hlt : r.2 < next.1 := of_decide_eq_true hhead
        rcases List.mem_cons.1 hs with rfl | hs
        · exact hlt
        · have hbelow := (List.pairwise_cons.1 hahead).1 s hs
          unfold Below at hbelow
          omega
      · exact ih hrs hahead htail hr hs

theorem exists_of_lt_reach {n m : Nat} {ss : List (Nat × Nat)} (hlow : n ≤ m) (hhigh : m < reach n ss) :
    ∃ s ∈ ss, s.1 ≤ m ∧ m ≤ s.2 := by
  induction ss generalizing n with
  | nil => exact absurd hhigh (Nat.not_lt.2 hlow)
  | cons s ss ih =>
    rw [reach] at hhigh
    split at hhigh
    · next hin =>
      by_cases hm : m ≤ s.2
      · exact ⟨s, List.mem_cons_self, by omega, hm⟩
      · obtain ⟨t, ht, hmem⟩ := ih (by omega) hhigh
        exact ⟨t, List.mem_cons_of_mem s ht, hmem⟩
    · omega

theorem exists_of_covered {rs ss : List (Nat × Nat)} (h : covered rs ss = true) {r : Nat × Nat}
    (hr : r ∈ rs) {m : Nat} (hlow : r.1 ≤ m) (hhigh : m ≤ r.2) : ∃ s ∈ ss, s.1 ≤ m ∧ m ≤ s.2 := by
  induction rs generalizing ss with
  | nil => exact absurd hr List.not_mem_nil
  | cons first rs ih =>
    rw [covered, Bool.and_eq_true, decide_eq_true_eq] at h
    obtain ⟨hreach, htail⟩ := h
    obtain ⟨s, hs, hmem⟩ : ∃ s ∈ ahead first.1 ss, s.1 ≤ m ∧ m ≤ s.2 := by
      rcases List.mem_cons.1 hr with rfl | hr
      · exact exists_of_lt_reach hlow (by omega)
      · exact ih htail hr
    exact ⟨s, (ahead_sublist first.1 ss).mem hs, hmem⟩

namespace CharSet

/-- Holds of a class whose table ascends. -/
def Regular (s : CharSet) : Prop := s.ranges.IsChain Below

instance (s : CharSet) : Decidable s.Regular := inferInstanceAs (Decidable (List.IsChain _ _))

/-- Classes with ascending tables that a walk finds apart have no character in common. -/
theorem not_contains_of_apart {s t : CharSet} (hs : s.Regular) (ht : t.Regular)
    (h : apart s.ranges t.ranges = true) {c : Char} (hc : t.contains c = true) :
    s.contains c = false := by
  rw [Bool.eq_false_iff]
  intro hin
  obtain ⟨r, hr, hlow, hhigh⟩ := (s.contains_iff c).1 hin
  obtain ⟨r', hr', hlow', hhigh'⟩ := (t.contains_iff c).1 hc
  have happart := lt_or_lt_of_apart (List.isChain_iff_pairwise.1 hs) (List.isChain_iff_pairwise.1 ht) h
    hr hr'
  omega

end CharSet

/-! ## Classes -/

/-- The enclosed letters: symbols with the property Alphabetic. -/
def enclosedLetters : CharSet := .ofRanges [
  (0x24B6, 0x24E9), (0x1F130, 0x1F149), (0x1F150, 0x1F169), (0x1F170, 0x1F189)]

/-- The classes of the characters of words. -/
def wordClasses : List CharSet := [letters, digits, marks, connectors, formats]

/-- The classes of the characters that names have and words do not. -/
def nameClasses : List CharSet := [enclosedLetters, otherNumbers, recentAlphabetic, recentDigits]

/-- The classes of the characters that names begin with and words do not. -/
def nameStartClasses : List CharSet := [otherAlphabetic, recentAlphabetic]

theorem regular_wordClasses : ∀ s ∈ wordClasses, s.Regular := by decide +kernel

theorem regular_nameClasses : ∀ s ∈ nameClasses ++ nameStartClasses, s.Regular := by decide +kernel

theorem apart_nameClasses : ∀ s ∈ nameClasses, ∀ t ∈ wordClasses,
    apart s.ranges t.ranges = true := by decide +kernel

theorem apart_nameStartClasses : ∀ s ∈ nameStartClasses, apart s.ranges letters.ranges = true := by
  decide +kernel

/-- Alphabetic characters that are no letters are marks or enclosed letters. -/
theorem covered_otherAlphabetic :
    covered (otherAlphabetic.ranges.filter (· ∉ enclosedLetters.ranges)) marks.ranges = true := by
  decide +kernel

/-- None of these classes has one of the first 128 characters. -/
theorem le_of_mem_nameClasses : ∀ s ∈ nameClasses ++ nameStartClasses, ∀ r ∈ s.ranges, 128 ≤ r.1 := by
  decide +kernel

theorem mem_marks_or_enclosedLetters {c : Char} (h : otherAlphabetic.contains c = true) :
    marks.contains c = true ∨ enclosedLetters.contains c = true := by
  obtain ⟨r, hr, hlow, hhigh⟩ := (otherAlphabetic.contains_iff c).1 h
  by_cases henclosed : r ∈ enclosedLetters.ranges
  · exact .inr ((enclosedLetters.contains_iff c).2 ⟨r, henclosed, hlow, hhigh⟩)
  · have hrest : r ∈ otherAlphabetic.ranges.filter (· ∉ enclosedLetters.ranges) :=
      List.mem_filter.2 ⟨hr, decide_eq_true henclosed⟩
    exact .inl ((marks.contains_iff c).2 (exists_of_covered covered_otherAlphabetic hrest hlow hhigh))

end Unicode

open Unicode

/-! ## Characters -/

section

variable {c : Char}

theorem not_contains_of_lt {s : CharSet} (hs : s ∈ nameClasses ++ nameStartClasses)
    (hc : c.toNat < 128) : s.contains c = false := by
  rw [Bool.eq_false_iff]
  intro hin
  obtain ⟨r, hr, hlow, -⟩ := (s.contains_iff c).1 hin
  have hle := le_of_mem_nameClasses s hs r hr
  omega

theorem isWordPart_iff_wordClasses (hc : ¬ c.toNat < 128) :
    isWordPart c = true ↔ ∃ s ∈ wordClasses, s.contains c = true := by
  simp [isWordPart, hc, wordClasses, or_assoc]

theorem isAlphanumeric_of_isAlphabetic (h : isAlphabetic c = true) : isAlphanumeric c = true := by
  by_cases hc : c.toNat < 128
  · simp_all [isAlphabetic, isAlphanumeric, Char.isAlphanum]
  · simp [isAlphanumeric, hc, h]

/-- What begins a name begins a word too if it is in no class of those that only names begin with. -/
theorem isWordStart_iff_nameStartClasses (h : (isAlphabetic c || c == '_') = true) :
    isWordStart c = true ↔ ∀ s ∈ nameStartClasses, s.contains c = false := by
  by_cases hc : c.toNat < 128
  · have hword : isWordStart c = true := by simp_all [isAlphabetic, isWordStart]
    exact iff_of_true hword fun s hs => not_contains_of_lt (List.mem_append_right _ hs) hc
  · have hstart : isWordStart c = letters.contains c := by simp [isWordStart, hc]
    rw [hstart]
    constructor
    · intro hletter s hs
      exact CharSet.not_contains_of_apart (regular_nameClasses s (List.mem_append_right _ hs))
        (regular_wordClasses letters List.mem_cons_self) (apart_nameStartClasses s hs) hletter
    · intro hnone
      have hother := hnone otherAlphabetic (by simp [nameStartClasses])
      have hrecent := hnone recentAlphabetic (by simp [nameStartClasses])
      have hne : c ≠ '_' := fun heq => hc (heq ▸ by decide)
      simpa [isAlphabetic, hc, hother, hrecent, hne] using h

/-- What continues a name continues a word too if it is in no class of those that only names have. -/
theorem isWordPart_iff_nameClasses (h : (isAlphanumeric c || c == '_') = true) :
    isWordPart c = true ↔ ∀ s ∈ nameClasses, s.contains c = false := by
  by_cases hc : c.toNat < 128
  · have hword : isWordPart c = true := by simp_all [isAlphanumeric, isWordPart]
    exact iff_of_true hword fun s hs => not_contains_of_lt (List.mem_append_left _ hs) hc
  · rw [isWordPart_iff_wordClasses hc]
    constructor
    · rintro ⟨t, ht, hword⟩ s hs
      exact CharSet.not_contains_of_apart (regular_nameClasses s (List.mem_append_left _ hs))
        (regular_wordClasses t ht) (apart_nameClasses s hs t ht) hword
    · intro hnone
      have henclosed := hnone enclosedLetters (by simp [nameClasses])
      have hnumbers := hnone otherNumbers (by simp [nameClasses])
      have hrecent := hnone recentAlphabetic (by simp [nameClasses])
      have hdigits := hnone recentDigits (by simp [nameClasses])
      have hne : c ≠ '_' := fun heq => hc (heq ▸ by decide)
      simp only [isAlphanumeric, isAlphabetic, hc, if_false, hnumbers, hrecent, hdigits,
        beq_eq_false_iff_ne.2 hne, Bool.or_false, Bool.or_eq_true] at h
      rcases h with (hletter | hother) | hdigit
      · exact ⟨letters, by simp [wordClasses], hletter⟩
      · rcases mem_marks_or_enclosedLetters hother with hmark | hin
        · exact ⟨marks, by simp [wordClasses], hmark⟩
        · exact absurd hin (by simp [henclosed])
      · exact ⟨digits, by simp [wordClasses], hdigit⟩

end

end SelfTypeLint
