import SelfTypeLint.Proofs.Fix.Directive
import SelfTypeLint.Proofs.Grammar.Heads

/-!
# What the fixes write

The texts that the fixes put into a document, as tokens: a declaring type is a word of a name with its
arguments (`reads_selfTypeText`), and a directive behind another is a directive.
-/

namespace SelfTypeLint.Fix

open Text Token Grammar

/-- A word is a type. -/
theorem exists_type_identAt (offset : Nat) (name : String) :
    ∃ e, TypeDerivation [identAt offset name] e := by
  have hword : SegmentDerivation [identAt offset name] _ := .plain rfl
  exact hword.type (List.forall_mem_nil _)

/-- Type parameters joined by commas are read as types, where the closing angle follows. -/
theorem reads_params {ps : List String} (hne : ps ≠ []) (hplain : ∀ p ∈ ps, IsPlainWord p)
    (offset : Nat) (rest : List Char) : ∃ ws es, TypesDerivation ws es ∧
      Reads offset (", ".intercalate ps).toList ('>' :: rest) ws := by
  induction ps generalizing offset with
  | nil => exact absurd rfl hne
  | cons p ps ih =>
    obtain ⟨hp, hps⟩ := List.forall_mem_cons.1 hplain
    obtain ⟨e, he⟩ := exists_type_identAt offset p
    cases ps with
    | nil =>
      have hjoin : ", ".intercalate [p] = p := by simp
      rw [hjoin]
      exact ⟨_, _, .last he, reads_plain hp offset rfl⟩
    | cons q ps =>
      obtain ⟨ws, es, hws, hread⟩ := ih (by simp) hps (offset + byteSize p.toList + 1 + 1)
      have hjoin : (", ".intercalate (p :: q :: ps)).toList =
          p.toList ++ ([','] ++ ([' '] ++ (", ".intercalate (q :: ps)).toList)) := by
        rw [String.intercalate_cons_cons, String.toList_append, String.toList_append, List.append_assoc]
        rfl
      have hblank : ∀ c ∈ [' '], isLayout c = true := List.forall_mem_singleton.2 rfl
      have htail := (reads_blanks hblank (offset + byteSize p.toList + 1) _).append hread
      obtain ⟨c, hc, -, hcomma⟩ := exists_reads_mark (k := .comma) (c := ',') (by decide)
        (offset + byteSize p.toList) ([' '] ++ (", ".intercalate (q :: ps)).toList ++ '>' :: rest)
      rw [hjoin]
      exact ⟨_, _, .more he hc hws, (reads_plain hp offset rfl).append (hcomma.append htail)⟩

/-- The text of a declaring type of plain words is read as a word of a name with its arguments, where a mark
or a star follows. -/
theorem reads_selfTypeText {d : TypeDecl} (hname : IsPlainWord d.name)
    (hparams : ∀ p ∈ d.typeParams, IsPlainWord p.name) {cs : List Tile} (hcut : Cut cs) {n : Nat}
    {t : Token} {ts : List Token} (hfirst : tokensAt n cs = t :: ts)
    (ht : t.kind ∈ listMarks.map (·.1) ∨ t.text = "*") (offset : Nat) :
    ∃ ws s, SegmentDerivation ws s ∧ Reads offset d.selfTypeText.toList (textOf cs) ws := by
  by_cases hempty : d.typeParams = []
  · have htext : d.selfTypeText = d.name := by simp [TypeDecl.selfTypeText, hempty]
    obtain ⟨i, hi, hread⟩ := exists_ident_of_plain hname hcut hfirst ht offset
    rw [htext]
    exact ⟨[i], _, .plain hi, hread, by simp [hi]⟩
  · have htext : d.selfTypeText.toList = d.name.toList ++
        (['<'] ++ ((", ".intercalate (d.typeParams.map (·.name))).toList ++ ['>'])) := by
      simp [TypeDecl.selfTypeText, hempty]
    have hne : d.typeParams.map (·.name) ≠ [] := by simpa using hempty
    have hplain : ∀ p ∈ d.typeParams.map (·.name), IsPlainWord p := by simpa using hparams
    obtain ⟨ws, es, hws, hread⟩ := reads_params hne hplain (offset + byteSize d.name.toList + 1) (textOf cs)
    obtain ⟨c, hc, -, hclose⟩ := exists_reads_mark (k := .gt) (c := '>') (by decide)
      (offset + byteSize d.name.toList + 1 + byteSize (", ".intercalate (d.typeParams.map (·.name))).toList)
      (textOf cs)
    obtain ⟨o, ho, -, hopen⟩ := exists_reads_mark (k := .lt) (c := '<') (by decide)
      (offset + byteSize d.name.toList) _
    rw [htext]
    refine ⟨_, _, .generic rfl ho hws hc, (reads_plain hname offset rfl).append (hopen.append (hread.append hclose))⟩

/-- An attribute list of a plain word is read as its tokens. -/
theorem reads_markText {name : String} (h : IsPlainWord name) (offset : Nat) (rest : List Char) :
    ∃ o t c : Token, o.kind = .lbracket ∧ t.kind = .ident ∧ t.text = name ∧ c.kind = .rbracket ∧
      Reads offset ("[" ++ name ++ "] ").toList rest [o, t, c] := by
  have htext : ("[" ++ name ++ "] ").toList = ['['] ++ (name.toList ++ ([']'] ++ [' '])) := by simp
  have hblank : ∀ c ∈ [' '], isLayout c = true := List.forall_mem_singleton.2 rfl
  obtain ⟨c, hc, -, hclose⟩ := exists_reads_mark (k := .rbracket) (c := ']') (by decide)
    (offset + 1 + byteSize name.toList) ([' '] ++ rest)
  obtain ⟨o, ho, -, hopen⟩ := exists_reads_mark (k := .lbracket) (c := '[') (by decide) offset
    (name.toList ++ ([']'] ++ [' ']) ++ rest)
  have hname := (reads_plain h (offset + 1) rfl).append (hclose.append (reads_blanks hblank _ rest))
  rw [htext]
  exact ⟨o, _, c, ho, rfl, rfl, hc, hopen.append hname⟩

/-! ## Directives -/

theorem identName_of_plain {w : String} (h : IsPlainWord w) : identName w = w := by
  obtain ⟨c, cs, hshape, hstart, -⟩ := h.shape
  unfold identName
  split
  · next heq =>
    obtain ⟨rfl, -⟩ := List.cons.inj (hshape.symm.trans heq)
    exact absurd hstart (by decide)
  · rfl

/-- The parts of a dotted name join up to it. -/
theorem intercalate_parts (name : String) : ".".intercalate (Dotted.parts name) = name := by
  have hpieces : ∀ {ps : List (List Char)} {cs : List Char}, Dotted.pieces '.' cs = ps →
      ['.'].intercalate ps = cs := by
    intro ps
    induction ps with
    | nil => exact fun h => absurd h (Dotted.pieces_ne_nil '.' _)
    | cons p ps ih =>
      intro cs h
      rcases Dotted.eq_of_pieces_eq_cons h with ⟨rfl, rfl⟩ | ⟨more, rfl, hmore⟩
      · simp
      · obtain ⟨q, qs, rfl⟩ := List.exists_cons_of_ne_nil (hmore ▸ Dotted.pieces_ne_nil '.' more)
        rw [List.intercalate_cons_cons, ih hmore]
        simp
  rw [← String.toList_inj, String.toList_intercalate, Dotted.parts, List.map_map]
  have hid : (String.toList ∘ String.ofList) = id := funext fun _ => String.toList_ofList
  rw [hid, List.map_id]
  exact hpieces rfl

/-- The tokens of a dotted name of plain words are the words of a name. -/
theorem segments_dottedTokens {ps : List String} (hne : ps ≠ []) (hplain : ∀ p ∈ ps, IsPlainWord p)
    (offset : Nat) :
    ∃ ss, SegmentsDerivation (dottedTokens offset ps) ss ∧ ss.map (·.name) = ps := by
  induction ps generalizing offset with
  | nil => exact absurd rfl hne
  | cons p ps ih =>
    obtain ⟨hp, hps⟩ := List.forall_mem_cons.1 hplain
    have hword : SegmentDerivation [identAt offset p] ⟨p, (identAt offset p).span, [], none⟩ := by
      have h := SegmentDerivation.plain (t := identAt offset p) rfl
      rwa [show identName (identAt offset p).text = p from identName_of_plain hp] at h
    cases ps with
    | nil => exact ⟨_, .last hword, rfl⟩
    | cons q ps =>
      obtain ⟨ss, hss, hnames⟩ := ih (by simp) hps (offset + byteSize p.toList + 1)
      have hdot : (⟨.dot, ⟨offset + byteSize p.toList, offset + byteSize p.toList + 1⟩, "."⟩ : Token).kind =
        .dot := rfl
      exact ⟨_, .more hword hdot hss, by rw [List.map_cons, hnames]⟩

/-- The directive that brings in a namespace, as it is read from the tokens of its line. -/
def usingDirective (offset : Nat) (space : String) : UsingDirective where
  kind := .ofNamespace
  isGlobal := false
  newName := none
  target := space
  targetSpan := spanOf (dottedTokens (offset + 6) (Dotted.parts space))
  span := spanOf (usingTokens offset space)

/-- The tokens of the line that brings in a namespace are a directive that does. -/
theorem usingForm_usingTokens {space : String} (hparts : ∀ p ∈ Dotted.parts space, IsPlainWord p)
    (offset : Nat) (slice : Span → String) (rest : List Token) :
    UsingForm slice (usingTokens offset space) rest (usingDirective offset space) := by
  have hne : Dotted.parts space ≠ [] := by simp [Dotted.parts, Dotted.pieces_ne_nil]
  obtain ⟨ss, hss, hnames⟩ := segments_dottedTokens hne hparts (offset + 6)
  let stop := offset + 6 + byteSize space.toList
  let s : Token := ⟨.semi, ⟨stop, stop + 1⟩, ";"⟩
  have htarget : (TypeExpr.path false ss (spanOf (dottedTokens (offset + 6) (Dotted.parts space)))).dottedName?
      = some space := by
    rw [TypeExpr.dottedName?, hnames, intercalate_parts]
  rw [usingTokens, usingDirective, usingTokens]
  generalize dottedTokens (offset + 6) (Dotted.parts space) = ts at hss htarget
  have hends : TypeEnds ts (s :: rest) := by
    refine ⟨⟨by simp [s], by simp [s], starAt_of_kind_ne (by simp [s])⟩, ?_⟩
    exact nameEnds_of_kindAt (by simp [s]) (by simp [s]) (by simp [s])
  have htype : TypeForm ts (s :: rest) (.path false ss (spanOf ts)) := by
    have h := TypeDerivation.mk (.path .none hss) .nil
    simp only [List.append_nil, List.nil_append] at h
    exact h.form hends
  have hkind : UsingKindForm [] (ts ++ s :: rest) .ofNamespace none := by
    refine .space ?_ ?_
    · rw [kindAt_append_left hss.ne_nil]
      rcases htype.kindAt_eq with h | h | h <;> simp [h]
    · rintro ⟨-, hsign⟩
      rcases hss.kindAt_one (s :: rest) with ⟨t, rfl, -⟩ | h | h
      · simp [s] at hsign
      · simp [h] at hsign
      · simp [h] at hsign
  have hform : UsingForm slice ([] ++ ⟨.kwUsing, ⟨offset, offset + 5⟩, "using"⟩ :: ([] ++ (ts ++ [s]))) rest _ :=
    .mk .none rfl hkind htype rfl
  rwa [htarget, Option.getD_some] at hform

theorem kind_of_mem_dottedTokens {offset : Nat} {ps : List String} {t : Token}
    (h : t ∈ dottedTokens offset ps) : t.kind = .ident ∨ t.kind = .dot := by
  induction ps generalizing offset with
  | nil => exact absurd h List.not_mem_nil
  | cons p ps ih =>
    cases ps with
    | nil =>
      obtain rfl := List.mem_singleton.1 h
      exact .inl rfl
    | cons q ps =>
      rcases List.mem_cons.1 h with rfl | h
      · exact .inl rfl
      · rcases List.mem_cons.1 h with rfl | h
        · exact .inr rfl
        · exact ih h

/-- A plain word is read as one identifier. -/
theorem read_plain {w : String} (h : IsPlainWord w) :
    read w = [identAt 0 w, ⟨.eof, .point (byteSize w.toList), ""⟩] := by
  have hread := readFrom_plain h 0 (show run isWordPart [] = 0 from rfl)
  rwa [List.append_nil, Token.readFrom, Nat.zero_add] at hread

/-- A directive is read as its tokens in front of any text. -/
theorem reads_using {space : String} (hparts : ∀ p ∈ Dotted.parts space, IsPlainWord p) (offset : Nat)
    (rest : List Char) :
    Reads offset ("using " ++ space ++ ";").toList rest (usingTokens offset space) where
  read := readFrom_using (fun p hp => ⟨_, read_plain (hparts p hp)⟩) offset rest
  clean := by
    intro t ht
    simp only [usingTokens, List.cons_append, List.mem_cons, List.mem_append, List.not_mem_nil,
      or_false] at ht
    rcases ht with rfl | ht | rfl
    · simp
    · rcases kind_of_mem_dottedTokens ht with h | h <;> simp [h]
    · simp

end SelfTypeLint.Fix
