import SelfTypeLint.Proofs.Text.Lines
import SelfTypeLint.Report.Sarif

/-!
# Regions in reports

A region gives the place of a span twice: by lines and columns, which count characters, and by an offset and
a length. The main statement, `region_of_boundaries`, says that the lines and columns are those of the text
before the span and up to its end, where 32 bits hold them, that offset and length are in bytes, and that
these are numbers of characters exactly if the characters they count are in ASCII.
-/

namespace SelfTypeLint

namespace Text

/-- A text has as many bytes as characters exactly if it is in ASCII. -/
theorem byteSize_eq_length_iff (cs : List Char) :
    byteSize cs = cs.length ↔ ∀ c ∈ cs, c.toNat < 128 := by
  induction cs with
  | nil => simp
  | cons c cs ih =>
    have hone : c.utf8Size = 1 ↔ c.toNat < 128 := by
      rw [Char.utf8Size_eq_one_iff, UInt32.le_iff_toNat_le]
      exact Nat.lt_succ_iff.symm
    have hpos := c.utf8Size_pos
    have hle := length_le_byteSize cs
    rw [List.forall_mem_cons, ← ih, ← hone, byteSize_cons, List.length_cons]
    omega

end Text

open Text LineTable

/-- Holds of a region whose lines and columns are those of a piece of text that follows another one, at each
end where 32 bits hold them. -/
structure SarifRegion.PlacedAt (r : SarifRegion) (before inside : List Char) : Prop where
  startLine : Fits before → r.startLine = 1 + before.count '\n'
  startColumn : Fits before → r.startColumn = 1 + (before.rtakeWhile (· ≠ '\n')).length
  endLine : Fits (before ++ inside) → r.endLine = 1 + (before ++ inside).count '\n'
  endColumn : Fits (before ++ inside) →
    r.endColumn = 1 + ((before ++ inside).rtakeWhile (· ≠ '\n')).length

namespace SarifReport

/-- A span that begins and ends between characters is the place of a piece of the text. The lines and
columns of its region are those of the piece, counted in characters, if the text has less than four gibibytes
or the span ends before the greatest offset; its offset and length are those of the piece in bytes, which are
numbers of characters exactly if the text before the piece, or the piece, is in ASCII. -/
theorem region_of_boundaries {source : String} {span : Span} (hle : span.start ≤ span.stop)
    (hstart : IsBoundary source.toList span.start) (hstop : IsBoundary source.toList span.stop)
    (path : String) :
    ∃ before inside after, source.toList = before ++ (inside ++ after) ∧
      byteSize before = span.start ∧ byteSize (before ++ inside) = span.stop ∧
      (Apart source.toList span.stop → (region (.new path source) span).PlacedAt before inside) ∧
      (region (.new path source) span).charOffset = byteSize before ∧
      (region (.new path source) span).charLength = byteSize inside ∧
      ((region (.new path source) span).charOffset = before.length ↔ ∀ c ∈ before, c.toNat < 128) ∧
      ((region (.new path source) span).charLength = inside.length ↔ ∀ c ∈ inside, c.toNat < 128) := by
  obtain ⟨before, rest, hsource, hbefore⟩ := hstart
  obtain ⟨front, after, hsource', hfront⟩ := hstop
  obtain ⟨inside, rfl, rfl⟩ := append_split (hsource.symm.trans hsource') (by omega)
  have hlength : (region (.new path source) span).charLength = byteSize inside := by
    rw [byteSize_append] at hfront
    show span.stop - span.start = byteSize inside
    omega
  have hposition := position_of_append hsource
  have hposition' := position_of_append hsource'
  rw [hbefore] at hposition
  rw [hfront] at hposition'
  refine ⟨before, inside, after, hsource, hbefore, hfront, fun hapart => ?_, hbefore.symm, hlength, ?_, ?_⟩
  · have hstart : Apart source.toList span.start := hapart.imp_right fun h => by omega
    exact {
      startLine := fun hfits => congrArg Prod.fst (hposition hstart hfits)
      startColumn := fun hfits => congrArg Prod.snd (hposition hstart hfits)
      endLine := fun hfits => congrArg Prod.fst (hposition' hapart hfits)
      endColumn := fun hfits => congrArg Prod.snd (hposition' hapart hfits) }
  · rw [← byteSize_eq_length_iff, hbefore]
    rfl
  · rw [← byteSize_eq_length_iff, hlength]

/-- A type argument outside of ASCII after a type name outside of ASCII. -/
def outsideAscii : String := "class Bé : I<Öl> {}"

theorem region_outsideAscii : (⟨14, 17⟩ : Span).start ≤ (⟨14, 17⟩ : Span).stop ∧
    IsBoundary outsideAscii.toList 14 ∧ IsBoundary outsideAscii.toList 17 ∧
    ∃ before inside after, outsideAscii.toList = before ++ (inside ++ after) ∧
      byteSize before = 14 ∧ byteSize (before ++ inside) = 17 ∧
      (region (.new "A.cs" outsideAscii) ⟨14, 17⟩).PlacedAt before inside ∧
      (region (.new "A.cs" outsideAscii) ⟨14, 17⟩).charOffset = byteSize before ∧
      (region (.new "A.cs" outsideAscii) ⟨14, 17⟩).charLength = byteSize inside := by
  have hstart : IsBoundary outsideAscii.toList 14 := ⟨"class Bé : I<".toList, "Öl> {}".toList, rfl, rfl⟩
  have hstop : IsBoundary outsideAscii.toList 17 := ⟨"class Bé : I<Öl".toList, "> {}".toList, rfl, rfl⟩
  obtain ⟨before, inside, after, hsource, hbefore, hinside, hplaced, hoffset, hlength, -⟩ :=
    @region_of_boundaries outsideAscii ⟨14, 17⟩ (by decide) hstart hstop "A.cs"
  exact ⟨by decide, hstart, hstop, before, inside, after, hsource, hbefore, hinside, hplaced (.inr (by decide)),
    hoffset, hlength⟩

/-- Thirteen characters stand before that type argument and it has two, but its offset is fourteen and its
length three. -/
theorem region_bytes_not_characters :
    outsideAscii.toList = "class Bé : I<".toList ++ ("Öl".toList ++ "> {}".toList) ∧
    byteSize "class Bé : I<".toList = 14 ∧ byteSize ("class Bé : I<".toList ++ "Öl".toList) = 17 ∧
    (region (.new "A.cs" outsideAscii) ⟨14, 17⟩).charOffset ≠ "class Bé : I<".toList.length ∧
    (region (.new "A.cs" outsideAscii) ⟨14, 17⟩).charLength ≠ "Öl".toList.length := by
  decide

end SarifReport

end SelfTypeLint
