import SelfTypeLint.Proofs.Token.Exchange
import SelfTypeLint.Proofs.Unicode.Classes

/-!
# Names as words

A name that may be given to a declaration is read again as one identifier, unless it is the word `inter`
or has a character that no word has. The main statement, `read_isValidIdentifier_iff`, says this of the
name alone, and of the name wherever no word goes on after it.
-/

namespace SelfTypeLint.Token

open Text Unicode

/-- The token of a word that is read as an identifier at an offset. -/
def identAt (offset : Nat) (name : String) : Token :=
  ⟨.ident, ⟨offset, offset + byteSize name.toList⟩, name⟩

/-- Holds of names other than `inter` that have none of the characters that only names have. -/
structure IsWordName (name : String) : Prop where
  free : name ≠ "inter"
  first : ∀ c, name.toList.head? = some c → ∀ s ∈ nameStartClasses, s.contains c = false
  each : ∀ c ∈ name.toList, ∀ s ∈ nameClasses, s.contains c = false

variable {name : String}

/-- A name that is one piece in front of a text is read as an identifier. -/
theorem readFrom_of_munch_ident {c : Char} {cs rest : List Char} (htext : name.toList = c :: cs)
    (h : munch c (cs ++ rest) = ⟨some .ident, cs.length⟩) (offset : Nat) :
    readFrom offset (name.toList ++ rest) =
      identAt offset name :: readFrom (offset + byteSize name.toList) rest := by
  have hread := readFrom_token h offset
  rwa [← List.cons_append, ← htext, String.ofList_toList] at hread

/-- A plain word is read as one identifier wherever no word goes on after it. -/
theorem readFrom_plain (h : IsPlainWord name) (offset : Nat) {rest : List Char}
    (hrest : run isWordPart rest = 0) :
    readFrom offset (name.toList ++ rest) =
      identAt offset name :: readFrom (offset + byteSize name.toList) rest := by
  obtain ⟨c, cs, htext, -⟩ := h.shape
  exact readFrom_of_munch_ident htext (munch_plain h htext hrest) offset

/-- A word with nothing after it is an identifier only if it is no keyword. -/
theorem ofWord?_of_word_ident {c : Char} {cs : List Char} (hrun : run isWordPart cs = cs.length)
    (h : (word c cs).kind = some .ident) : TokenKind.ofWord? (String.ofList (c :: cs)) = none := by
  rw [← List.append_nil cs, word_append (by rwa [List.append_nil])] at h
  cases hkind : TokenKind.ofWord? (String.ofList (c :: cs)) with
  | none => rfl
  | some k =>
    have hkeyword := TokenKind.isKeyword_of_ofWord? hkind
    rw [hkind] at h
    obtain rfl : k = .ident := Option.some.inj h
    exact absurd hkeyword (by decide)

/-- What is read as one identifier is one piece. -/
theorem munch_of_read_ident {c : Char} {cs : List Char} (htext : name.toList = c :: cs) {ts : List Token}
    (h : read name = identAt 0 name :: ts) : munch c cs = ⟨some .ident, cs.length⟩ := by
  rw [read, htext, readFrom] at h
  cases hk : (munch c cs).kind with
  | none =>
    -- The identifier would stand after what is skipped.
    simp only [hk] at h
    have hle := le_start_of_mem_readFrom (h ▸ List.mem_cons_self)
    have hpos := Char.utf8Size_pos c
    simp only [identAt, byteSize_cons] at hle
    omega
  | some k =>
    simp only [hk] at h
    obtain ⟨hkind, -, hword⟩ := Token.mk.inj (List.cons.inj h).1
    rw [← String.ofList_toList (s := name), String.ofList_inj, htext] at hword
    have hlength := congrArg List.length (List.cons.inj hword).2
    have hle := more_munch_le c cs
    rw [List.length_take] at hlength
    rw [← hkind, ← hk, show cs.length = (munch c cs).more by omega]

/-- An identifier without a sign in front is a plain word. -/
theorem isPlainWord_of_munch {c : Char} {cs : List Char} (hc : isWordStart c = true)
    (h : munch c cs = ⟨some .ident, cs.length⟩) : IsPlainWord (String.ofList (c :: cs)) := by
  rw [munch_word hc (not_isLayout_of_opens (.inl hc))] at h
  have hrun : run isWordPart cs = cs.length := by rw [← more_word c, h]
  have hparts : ∀ x ∈ cs, isWordPart x = true :=
    all_of_run_eq (show run isWordPart (cs ++ []) = cs.length by rwa [List.append_nil])
  exact ⟨⟨c, cs, String.toList_ofList, hc, hparts⟩, ofWord?_of_word_ident hrun (congrArg Piece.kind h)⟩

/-- What is read as one identifier without a sign in front is a plain word. -/
theorem isPlainWord_of_read {c : Char} {cs : List Char} (htext : name.toList = c :: cs) (hc : c ≠ '@')
    {ts : List Token} (h : read name = identAt 0 name :: ts) : IsPlainWord name := by
  have hmunch := munch_of_read_ident htext h
  have hstart := (start_of_munch_ident (congrArg Piece.kind hmunch)).resolve_right hc
  have hplain := isPlainWord_of_munch hstart hmunch
  rwa [← htext, String.ofList_toList] at hplain

/-- An identifier goes on as far wherever no word goes on after it. -/
theorem munch_ident_append {c : Char} {cs rest : List Char} (h : munch c cs = ⟨some .ident, cs.length⟩)
    (hrest : run isWordPart rest = 0) : munch c (cs ++ rest) = ⟨some .ident, cs.length⟩ := by
  rcases start_of_munch_ident (congrArg Piece.kind h) with hstart | rfl
  · exact munch_plain (isPlainWord_of_munch hstart h) String.toList_ofList hrest
  · obtain ⟨d, r, rfl, hd, hlength⟩ := atSign_ident (show atSign cs = _ from h)
    rw [List.length_cons] at hlength
    have hparts := all_of_run_eq (show run isWordPart (r ++ []) = r.length by
      rw [List.append_nil]
      omega)
    have hquote : d ≠ '"' := by
      rintro rfl
      exact absurd hd (by decide)
    have hat : atSign (d :: (r ++ rest)) = .token .ident (1 + run isWordPart (r ++ rest)) := by
      rw [atSign, if_pos hd]
      exact hquote
    rw [run_append_eq_iff.2 ⟨hparts, hrest⟩, Nat.add_comm] at hat
    exact hat

/-- What is read as one identifier is read so wherever no word goes on after it. -/
theorem readFrom_ident {ts : List Token} (h : read name = identAt 0 name :: ts) (offset : Nat)
    {rest : List Char} (hrest : run isWordPart rest = 0) :
    readFrom offset (name.toList ++ rest) =
      identAt offset name :: readFrom (offset + byteSize name.toList) rest := by
  obtain ⟨c, cs, htext⟩ : ∃ c cs, name.toList = c :: cs := by
    apply List.exists_cons_of_ne_nil
    intro hnil
    rw [read, hnil, readFrom] at h
    exact absurd (Token.mk.inj (List.cons.inj h).1).1 (by simp)
  have hmunch := munch_ident_append (munch_of_read_ident htext h) hrest
  exact readFrom_of_munch_ident htext hmunch offset

/-- The only keyword that is no reserved word is `inter`. -/
theorem mem_reservedWords : ∀ entry ∈ TokenKind.words, ∀ w ∈ entry.2,
    w = "inter" ∨ w ∈ reservedWords := by decide

theorem ofWord?_eq_none (hfree : name ≠ "inter") (hname : name ∉ reservedWords) :
    TokenKind.ofWord? name = none := by
  rw [TokenKind.ofWord?, Option.map_eq_none_iff, List.find?_eq_none]
  intro entry hentry hmem
  rcases mem_reservedWords entry hentry name (List.contains_iff_mem.1 hmem) with hinter | hreserved
  · exact hfree hinter
  · exact hname hreserved

/-- A name that may be given to a declaration is not empty, and it is spelled with other characters than
a word at most by the classes of characters. -/
theorem exists_of_isValidIdentifier (h : isValidIdentifier name = true) :
    ∃ c cs, name.toList = c :: cs ∧ name ∉ reservedWords ∧ c ≠ '@' ∧
      (isWordStart c = true ↔ ∀ s ∈ nameStartClasses, s.contains c = false) ∧
      ∀ x ∈ name.toList, isWordPart x = true ↔ ∀ s ∈ nameClasses, s.contains x = false := by
  rw [isValidIdentifier] at h
  cases htext : name.toList with
  | nil => simp [htext] at h
  | cons c cs =>
    simp only [htext, Bool.and_eq_true, List.all_eq_true, Bool.not_eq_true'] at h
    obtain ⟨⟨hc, hcs⟩, hreserved⟩ := h
    refine ⟨c, cs, rfl, ?_, ?_, isWordStart_iff_nameStartClasses hc, fun x hx => ?_⟩
    · simpa using hreserved
    · rintro rfl
      exact absurd hc (by decide)
    · apply isWordPart_iff_nameClasses
      rcases List.mem_cons.1 hx with rfl | hx
      · rw [Bool.or_eq_true] at hc ⊢
        exact hc.imp_left isAlphanumeric_of_isAlphabetic
      · exact hcs x hx

/-- A name that may be given to a declaration is a plain word just if it has no character of those that
only names have. -/
theorem isPlainWord_iff_isWordName (h : isValidIdentifier name = true) :
    IsPlainWord name ↔ IsWordName name := by
  obtain ⟨c, cs, htext, hreserved, -, hstart, hpart⟩ := exists_of_isValidIdentifier h
  constructor
  · rintro ⟨⟨d, ds, hshape, hd, hds⟩, hfree⟩
    obtain ⟨rfl, rfl⟩ := List.cons.inj (htext.symm.trans hshape)
    refine ⟨?_, ?_, fun x hx => (hpart x hx).1 ?_⟩
    · rintro rfl
      exact absurd hfree (by decide)
    · intro x hx
      rw [htext, List.head?_cons, Option.some.injEq] at hx
      exact hx ▸ hstart.1 hd
    · rw [htext] at hx
      rcases List.mem_cons.1 hx with rfl | hx
      · exact isWordPart_of_isWordStart hd
      · exact hds x hx
  · rintro ⟨hfree, hfirst, heach⟩
    refine ⟨⟨c, cs, htext, hstart.2 (hfirst c (by rw [htext]; rfl)), fun x hx => ?_⟩,
      ofWord?_eq_none hfree hreserved⟩
    have hmem : x ∈ name.toList := htext ▸ List.mem_cons_of_mem c hx
    exact (hpart x hmem).2 (heach x hmem)

/-- A name that may be given to a declaration is read again as one identifier just if it is not `inter`,
begins with no mark and has none of the characters that only names have. It is read so wherever no word goes
on after it. -/
theorem read_isValidIdentifier_iff (h : isValidIdentifier name = true) :
    (read name = [identAt 0 name, ⟨.eof, .point (byteSize name.toList), ""⟩] ↔ IsWordName name) ∧
      (IsWordName name → ∀ offset rest, (∀ c, rest.head? = some c → isWordPart c = false) →
        readFrom offset (name.toList ++ rest) =
          identAt offset name :: readFrom (offset + byteSize name.toList) rest) := by
  have hplain := isPlainWord_iff_isWordName h
  have hanywhere : IsWordName name → ∀ offset rest,
      (∀ c, rest.head? = some c → isWordPart c = false) →
        readFrom offset (name.toList ++ rest) =
          identAt offset name :: readFrom (offset + byteSize name.toList) rest :=
    fun hname offset rest hrest => readFrom_plain (hplain.2 hname) offset (run_eq_zero_iff.2 hrest)
  refine ⟨⟨fun hread => ?_, fun hname => ?_⟩, hanywhere⟩
  · obtain ⟨c, cs, htext, -, hsign, -⟩ := exists_of_isValidIdentifier h
    exact hplain.1 (isPlainWord_of_read htext hsign hread)
  · have halone := hanywhere hname 0 [] (by simp)
    rw [List.append_nil, Nat.zero_add] at halone
    rw [read, halone, readFrom]

/-- A name with letters of several scripts, a mark and a digit is read as one identifier. -/
theorem read_mixedName : isValidIdentifier "Tñεः_1" = true ∧
    read "Tñεः_1" = [⟨.ident, ⟨0, 10⟩, "Tñεः_1"⟩, ⟨.eof, ⟨10, 10⟩, ""⟩] := by
  have hvalid : isValidIdentifier "Tñε\u0903_1" = true := by decide +kernel
  have hplain : IsPlainWord "Tñε\u0903_1" := by decide +kernel
  exact ⟨hvalid, (read_isValidIdentifier_iff hvalid).1.2 ((isPlainWord_iff_isWordName hvalid).1 hplain)⟩

/-- A name with a superscript number is read as two tokens, and the name `inter` as a keyword. -/
theorem read_superscriptName : isValidIdentifier "x²" = true ∧
    read "x²" = [⟨.ident, ⟨0, 1⟩, "x"⟩, ⟨.error, ⟨1, 3⟩, "²"⟩, ⟨.eof, ⟨3, 3⟩, ""⟩] ∧
    isValidIdentifier "inter" = true ∧
    read "inter" = [⟨.kwIn, ⟨0, 5⟩, "inter"⟩, ⟨.eof, ⟨5, 5⟩, ""⟩] := by
  decide +kernel

end SelfTypeLint.Token
