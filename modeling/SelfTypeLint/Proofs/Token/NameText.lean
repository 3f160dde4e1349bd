import SelfTypeLint.Proofs.Token.Between

/-!
# The text of dotted names

Words with dots between them spell a dotted name: their own names, joined by dots. The main statement,
`identName_text_iff`, says when that is also the text from the first word to the last: exactly if nothing
stands between the tokens, and no word after the first is verbatim.
-/

namespace SelfTypeLint.Token

open Text

/-- Holds of words with a dot between every two of them. -/
inductive DottedWords : List Token → Prop
  | word {t : Token} (kind : t.kind = .ident) : DottedWords [t]
  | dot {t d : Token} {ts : List Token} (kind : t.kind = .ident) (dot : d.kind = .dot)
      (rest : DottedWords ts) : DottedWords (t :: d :: ts)

/-- Holds of tokens that stand side by side, where only the first may be a verbatim word. -/
structure WrittenOut (ts : List Token) : Prop where
  adjacent : ts.IsChain fun t u => t.span.stop = u.span.start
  bare : ∀ t ∈ ts.tail, identName t.text = t.text

/-- The texts of tokens without the signs of verbatim words. -/
def nameText (ts : List Token) : List Char := ts.flatMap fun t => (identName t.text).toList

/-! ## Names of words -/

theorem identName_cases (text : String) :
    identName text = text ∨ text.toList = '@' :: (identName text).toList := by
  rw [identName]
  split
  · next heq => exact .inr (by rw [String.toList_ofList, heq])
  · exact .inl rfl

theorem byteSize_identName_le (text : String) :
    byteSize (identName text).toList ≤ byteSize text.toList := by
  rcases identName_cases text with h | h
  · rw [h]
  · rw [h, byteSize_cons]
    exact Nat.le_add_left _ _

/-- Only a word that is not verbatim has as many bytes as its name. -/
theorem identName_eq_of_byteSize {text : String}
    (h : byteSize (identName text).toList = byteSize text.toList) : identName text = text := by
  rcases identName_cases text with heq | heq
  · exact heq
  · have hpos := '@'.utf8Size_pos
    rw [heq, byteSize_cons] at h
    omega

/-- What follows a text has no part in whether it is verbatim. -/
theorem identName_append {text : String} (hne : text.toList ≠ []) (cs : List Char) :
    (identName (String.ofList (text.toList ++ cs))).toList = (identName text).toList ++ cs := by
  obtain ⟨c, more, htext⟩ := List.exists_cons_of_ne_nil hne
  rw [identName, identName, String.toList_ofList, htext, List.cons_append]
  by_cases hc : c = '@'
  · subst hc
    simp
  · split
    · next heq => exact absurd (List.cons.inj heq).1 hc
    · split
      · next heq => exact absurd (List.cons.inj heq).1 hc
      · rw [String.toList_ofList, htext, List.cons_append]

/-- A dot is one character. -/
theorem text_of_dot {source : String} {t : Token} (ht : t ∈ (Cursor.ofSource source).ahead)
    (hk : t.kind = .dot) : t.text = "." := by
  rw [ahead_ofSource] at ht
  obtain ⟨before, u, after, hts, hkind, htext, -⟩ := exists_of_mem_tokensAt ht
  have hcut := hts ▸ cut_tiles source.toList
  obtain ⟨⟨c, more, hu, hmunch⟩, -⟩ := hcut.append_right.exists_munch
  rw [hkind, hk] at hmunch
  rcases munch_cases hmunch (by decide) with ⟨hkeyword, -⟩ | ⟨hmore, hmark⟩
  · exact absurd hkeyword (by decide)
  · obtain rfl := List.length_eq_zero_iff.1 hmore
    obtain rfl : c = '.' := by
      unfold mark? at hmark
      split at hmark <;> simp_all
    rw [htext, hu]

/-- Words with dots between them spell their names, joined by dots. -/
theorem DottedWords.toList_intercalate {us : List Token} (h : DottedWords us)
    (hdot : ∀ t ∈ us, t.kind = .dot → t.text = ".") :
    (".".intercalate ((idents us).map (·.name))).toList = nameText us := by
  induction h with
  | @word t kind =>
    rw [idents_cons_of_ident kind, idents_nil]
    simp [nameText]
  | @dot t d ts kind dot rest ih =>
    have hd := hdot d (by simp) dot
    have hname : identName "." = "." := by decide
    obtain ⟨i, is, his⟩ : ∃ i is, idents ts = i :: is := by
      cases rest with
      | word kind => exact ⟨_, _, idents_cons_of_ident kind _⟩
      | dot kind _ _ => exact ⟨_, _, idents_cons_of_ident kind _⟩
    have hrest := ih fun t ht => hdot t (List.mem_cons_of_mem _ (List.mem_cons_of_mem _ ht))
    rw [idents_cons_of_ident kind, idents_cons_of_ne (t := d) (by simp [dot])]
    rw [his] at hrest ⊢
    rw [List.map_cons, List.map_cons, String.intercalate_cons_cons, String.toList_append, String.toList_append,
      ← List.map_cons, hrest]
    simp [nameText, hd, hname]

/-! ## Texts from one token to another -/

/-- A token stands in its text. -/
theorem exists_split_of_mem_ofSource {source : String} {t : Token} (h : t ∈ (Cursor.ofSource source).ahead) :
    ∃ front back, source.toList = front ++ (t.text.toList ++ back) ∧ byteSize front = t.span.start ∧
      t.span.stop = t.span.start + byteSize t.text.toList := by
  rw [ahead_ofSource] at h
  obtain ⟨as, u, bs, hsplit, -, htext, hspan⟩ := exists_of_mem_tokensAt h
  have hcs := textOf_tiles source.toList
  rw [hsplit, textOf_append, textOf_cons] at hcs
  refine ⟨textOf as, textOf bs, ?_, ?_, ?_⟩
  · rw [htext, String.toList_ofList, hcs]
  · rw [hspan, Nat.zero_add]
  · rw [hspan, htext, String.toList_ofList]

/-- The text after a token up to the end of some more is at least as long as their names, and is what these
spell exactly if the tokens are written out. -/
theorem exists_text_after {source : String} {t : Token} {ts : List Token} {offset : Nat}
    (hplaced : Placed offset (t :: ts)) (hmem : ∀ u ∈ t :: ts, u ∈ (Cursor.ofSource source).ahead)
    {front back : List Char} (htext : source.toList = front ++ (t.text.toList ++ back))
    (hfront : byteSize front = t.span.start) :
    ∃ cs rest, back = cs ++ rest ∧ t.span.stop + byteSize cs = stopOf t.span.stop ts ∧
      byteSize (nameText ts) ≤ byteSize cs ∧ (cs = nameText ts ↔ WrittenOut (t :: ts)) := by
  induction ts generalizing t offset front back with
  | nil => exact ⟨[], back, rfl, rfl, Nat.le_refl _, fun _ => ⟨by simp, by simp⟩, fun _ => rfl⟩
  | cons u ts ih =>
    obtain ⟨-, -, hu⟩ := hplaced
    obtain ⟨-, -, -, -, hsize⟩ := exists_split_of_mem_ofSource (hmem t List.mem_cons_self)
    have hut := hmem u (List.mem_cons_of_mem _ List.mem_cons_self)
    obtain ⟨front', back', htext', hfront', hsize'⟩ := exists_split_of_mem_ofSource hut
    obtain ⟨cs, rest, rfl, hstop, hle, hiff⟩ :=
      ih hu (fun v hv => hmem v (List.mem_cons_of_mem _ hv)) htext' hfront'
    have hlater : byteSize (front ++ t.text.toList) ≤ byteSize front' := by
      have := hu.1
      rw [byteSize_append]
      omega
    rw [← List.append_assoc] at htext
    obtain ⟨gap, rfl, rfl⟩ := append_split (htext.symm.trans htext') hlater
    rw [byteSize_append, byteSize_append] at hfront'
    have hname := byteSize_identName_le u.text
    have hcons : nameText (u :: ts) = (identName u.text).toList ++ nameText ts := rfl
    refine ⟨gap ++ (u.text.toList ++ cs), rest, by simp, ?_, ?_, ?_⟩
    · rw [stopOf_cons, ← hstop, byteSize_append, byteSize_append]
      omega
    · rw [hcons, byteSize_append, byteSize_append, byteSize_append]
      omega
    · rw [hcons]
      constructor
      · intro heq
        -- Nothing is left for a gap, nor for the sign of a verbatim word.
        have hbytes := congrArg byteSize heq
        rw [byteSize_append, byteSize_append, byteSize_append] at hbytes
        obtain rfl := eq_nil_of_byteSize_eq_zero (show byteSize gap = 0 by omega)
        have hbare : identName u.text = u.text := identName_eq_of_byteSize (by omega)
        rw [hbare, List.nil_append] at heq
        obtain ⟨hadjacent, hrest⟩ := hiff.1 (List.append_cancel_left heq)
        refine ⟨List.isChain_cons_cons.2 ⟨?_, hadjacent⟩, List.forall_mem_cons.2 ⟨hbare, hrest⟩⟩
        rw [byteSize_nil] at hfront'
        omega
      · rintro ⟨hadjacent, hbare⟩
        obtain ⟨hnext, hadjacent⟩ := List.isChain_cons_cons.1 hadjacent
        obtain ⟨hword, hbare⟩ := List.forall_mem_cons.1 hbare
        obtain rfl := eq_nil_of_byteSize_eq_zero (show byteSize gap = 0 by omega)
        rw [hiff.2 ⟨hadjacent, hbare⟩, hword, List.nil_append]

/-- The text from the first to the last of some words with dots between them, minus the sign of the first, is
the name that they spell exactly if they are written out. -/
theorem identName_text_iff {source : String} {us : List Token} (h : DottedWords us)
    (hin : us <:+: (Cursor.ofSource source).ahead) :
    identName ((spanOf us).text source) = ".".intercalate ((idents us).map (·.name)) ↔ WrittenOut us := by
  have hmem : ∀ t ∈ us, t ∈ (Cursor.ofSource source).ahead := fun t ht => hin.subset ht
  have hname := h.toList_intercalate fun t ht => text_of_dot (hmem t ht)
  obtain ⟨t, ts, rfl⟩ : ∃ t ts, us = t :: ts := by
    cases h <;> exact ⟨_, _, rfl⟩
  obtain ⟨before, after, hsource⟩ := hin
  have hplaced : Placed 0 (t :: ts) := by
    have hall := placed_ofSource source
    rw [← hsource] at hall
    exact hall.append_left.append_right
  obtain ⟨front, back, htext, hfront, hsize⟩ := exists_split_of_mem_ofSource (hmem t List.mem_cons_self)
  obtain ⟨cs, rest, rfl, hstop, -, hiff⟩ := exists_text_after hplaced hmem htext hfront
  have hne : t.text.toList ≠ [] := by
    intro hnil
    have := hplaced.2.1
    rw [hnil, byteSize_nil] at hsize
    omega
  have hslice : (spanOf (t :: ts)).text source = String.ofList (t.text.toList ++ cs) := by
    have hslice := slice?_append front (t.text.toList ++ cs) rest
    have hend : stopOf 0 (t :: ts) = byteSize front + byteSize (t.text.toList ++ cs) := by
      rw [stopOf_cons, ← hstop, hsize, hfront, byteSize_append, Nat.add_assoc]
    rw [Span.text, spanOf, startOf_cons, hend, ← hfront, htext, ← List.append_assoc t.text.toList, hslice,
      Option.getD_some]
  rw [← String.toList_inj, hslice, hname, identName_append hne, ← hiff]
  exact List.append_right_inj _

end SelfTypeLint.Token
