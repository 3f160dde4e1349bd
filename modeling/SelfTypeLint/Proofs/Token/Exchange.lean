import SelfTypeLint.Proofs.Reader.Moves
import SelfTypeLint.Proofs.Token.Lookahead

/-!
# Exchanging words

Some identifiers of a text get another word. If each of these words is plain and joins no character
before it, the new text has the same tokens at their new places (`tokensAt_exchange`): reading cuts it
where the old text was cut.
-/

namespace SelfTypeLint.Token

open Text

/-- Holds of words that are read as one identifier where no other word stands at their side. -/
structure IsPlainWord (w : String) : Prop where
  shape : ∃ c cs, w.toList = c :: cs ∧ isWordStart c = true ∧ ∀ x ∈ cs, isWordPart x = true
  free : TokenKind.ofWord? w = none

instance (w : String) : Decidable (IsPlainWord w) :=
  decidable_of_iff
    (w.toList.head?.any isWordStart = true ∧ w.toList.tail.all isWordPart = true ∧
      TokenKind.ofWord? w = none) <| by
    constructor
    · rintro ⟨hhead, hparts, hfree⟩
      obtain ⟨c, hc, hstart⟩ := (Option.any_eq_true _ _).1 hhead
      obtain ⟨cs, hlist⟩ := List.head?_eq_some_iff.1 hc
      rw [hlist] at hparts
      exact ⟨⟨c, cs, hlist, hstart, List.all_eq_true.1 hparts⟩, hfree⟩
    · rintro ⟨⟨c, cs, hlist, hstart, hparts⟩, hfree⟩
      rw [hlist]
      exact ⟨hstart, List.all_eq_true.2 hparts, hfree⟩

/-- Holds of tiles that reading cuts their text into. -/
def Cut (ts : List Tile) : Prop := tiles (textOf ts) = ts

theorem cut_tiles (cs : List Char) : Cut (tiles cs) := by rw [Cut, textOf_tiles]

/-- What reading cuts is cut at each of its ends. -/
theorem Cut.exists_munch {t : Tile} {ts : List Tile} (h : Cut (t :: ts)) :
    (∃ c more, t.text = c :: more ∧ munch c (more ++ textOf ts) = ⟨t.kind, more.length⟩) ∧
      Cut ts := by
  rw [Cut, textOf_cons] at h
  cases htext : t.text with
  | nil =>
    have hmem : t ∈ tiles (t.text ++ textOf ts) := by rw [h]; exact List.mem_cons_self
    exact absurd htext (text_ne_nil_of_mem_tiles hmem)
  | cons c more =>
    rw [htext, List.cons_append, tiles_cons] at h
    obtain ⟨hhead, htail⟩ := List.cons.inj h
    have hle := more_munch_le c (more ++ textOf ts)
    have hmore : (more ++ textOf ts).take (munch c (more ++ textOf ts)).more = more := by
      have := congrArg Tile.text hhead
      rw [htext] at this
      exact (List.cons.inj this).2
    have hlength : (munch c (more ++ textOf ts)).more = more.length := by
      have := congrArg List.length hmore
      rw [List.length_take] at this
      omega
    constructor
    · refine ⟨c, more, rfl, ?_⟩
      rw [← hlength, ← congrArg Tile.kind hhead]
    · rw [hlength, List.drop_left] at htail
      exact htail

theorem Cut.cons {c : Char} {more : List Char} {k : Option TokenKind} {ts : List Tile}
    (h : munch c (more ++ textOf ts) = ⟨k, more.length⟩) (hts : Cut ts) :
    Cut (⟨k, c :: more⟩ :: ts) := by
  rw [Cut, textOf_cons, List.cons_append, tiles_cons, h, List.take_left, List.drop_left, hts]

/-- A plain word is read as an identifier. -/
theorem munch_plain {w : String} (hw : IsPlainWord w) {c : Char} {more : List Char}
    (htext : w.toList = c :: more) {rest : List Char} (hrest : run isWordPart rest = 0) :
    munch c (more ++ rest) = ⟨some .ident, more.length⟩ := by
  obtain ⟨d, ds, hshape, hstart, hparts⟩ := hw.shape
  obtain ⟨rfl, rfl⟩ := List.cons.inj (htext.symm.trans hshape)
  have hrun := run_append_eq_iff.2 ⟨hparts, hrest⟩
  have hword : String.ofList (c :: more) = w := by rw [← htext, String.ofList_toList]
  rw [munch_word hstart (not_isLayout_of_opens (.inl hstart)), word_append hrun, hword, hw.free]
  rfl

/-- An identifier begins with a word or with the sign of a verbatim one. -/
theorem start_of_munch_ident {c : Char} {cs : List Char} (h : (munch c cs).kind = some .ident) :
    isWordStart c = true ∨ c = '@' := by
  by_cases hword : isWordStart c = true
  · exact .inl hword
  · right
    simp only [munch, hword, number, stroke, lineComment, doubleQuote, dollar, apostrophe,
      string, rawString, Piece.token, Piece.skipped, mark?] at h
    grind

theorem atSign_ident {cs : List Char} {n : Nat} (h : atSign cs = ⟨some .ident, n⟩) :
    ∃ d r, cs = d :: r ∧ isWordStart d = true ∧ n = 1 + run isWordPart r := by
  revert h
  fun_cases atSign cs
  · intro h
    simp only [verbatimString, Piece.token] at h
    split at h <;> simp at h
  · next d r _ hd =>
    intro h
    exact ⟨d, r, rfl, hd, (Piece.mk.inj h).2.symm⟩
  · simp [Piece.token]
  · simp [Piece.token]

/-- An identifier ends in a character of a word, and no word goes on after it. -/
theorem end_of_munch_ident {c z : Char} {more rest : List Char}
    (h : munch c (more ++ rest) = ⟨some .ident, more.length⟩)
    (hz : (c :: more).getLast? = some z) : isWordPart z = true ∧ run isWordPart rest = 0 := by
  rcases start_of_munch_ident (congrArg Piece.kind h) with hstart | rfl
  · rw [munch_word hstart (not_isLayout_of_opens (.inl hstart))] at h
    have hrun : run isWordPart (more ++ rest) = more.length := by rw [← more_word c, h]
    obtain ⟨hall, hrest⟩ := run_append_eq_iff.1 hrun
    refine ⟨?_, hrest⟩
    rcases List.mem_cons.1 (List.mem_of_getLast? hz) with rfl | hmem
    · exact isWordPart_of_isWordStart hstart
    · exact hall z hmem
  · obtain ⟨d, r, hr, hd, hlength⟩ := atSign_ident (show atSign (more ++ rest) = _ from h)
    cases more with
    | nil =>
      rw [List.length_nil] at hlength
      omega
    | cons e more =>
      rw [List.cons_append] at hr
      obtain ⟨rfl, rfl⟩ := List.cons.inj hr
      rw [List.length_cons] at hlength
      obtain ⟨hall, hrest⟩ := run_append_eq_iff.1
        (show run isWordPart (more ++ rest) = more.length by omega)
      refine ⟨?_, hrest⟩
      have hlast : (e :: more).getLast? = some z := by simpa using hz
      rcases List.mem_cons.1 (List.mem_of_getLast? hlast) with rfl | hmem
      · exact isWordPart_of_isWordStart hd
      · exact hall z hmem

/-- A quote after a dollar sign that is a piece of its own begins an error. -/
theorem munch_quote_after_dollar {rest : List Char} {k : Option TokenKind}
    (h : munch '$' ('"' :: rest) = ⟨k, 0⟩) (hk : k ≠ some .error) :
    (munch '"' rest).kind = some .error := by
  have hdollar : dollar ('"' :: rest) = ⟨k, 0⟩ := h
  by_cases hrun : run (· == '"') rest < 2
  · rw [dollar_quote hrun] at hdollar
    split at hdollar
    · next hstring =>
      simp only [string, Piece.token] at hstring
      split at hstring
      · exact absurd (Piece.mk.inj hstring).1 (by simp)
      · next hopen =>
        have hzero : elements '"' rest = 0 := by
          have := (Piece.mk.inj hstring).2
          omega
        rw [hzero, List.drop_zero] at hopen
        have hnone : run (· == '"') rest = 0 := by
          rw [run_eq_zero_iff]
          intro c hc
          rw [hc] at hopen
          simpa using hopen
        show (doubleQuote rest).kind = _
        simp only [doubleQuote, hnone]
        rw [if_neg (by omega), string, hzero, List.drop_zero, if_neg hopen]
        rfl
    · have hmore := congrArg Piece.more hdollar
      simp only [string] at hmore
      split at hmore
      · simp only [Piece.token] at hmore
        omega
      · simp only [Piece.token] at hmore
        omega
  · have hquotes : run (· == '"') ('"' :: rest) = 1 + run (· == '"') rest :=
      run_append (show ∀ c ∈ ['"'], (c == '"') = true by simp) rest
    have hdollars : run (· == '$') ('"' :: rest) = 0 := rfl
    simp only [dollar, hdollars, List.drop_zero, hquotes] at hdollar
    rw [if_pos (by omega), rawString] at hdollar
    split at hdollar
    · have := (Piece.mk.inj hdollar).2
      omega
    · exact absurd (Piece.mk.inj hdollar).1.symm hk

/-- A dollar sign that is a piece of its own stands before no quote, unless this begins an error. -/
theorem Cut.head?_ne_quote {ts : List Tile} (hcut : Cut ts) {k : Option TokenKind}
    (h : munch '$' (textOf ts) = ⟨k, 0⟩) (hk : k ≠ some .error)
    (herror : ∀ t, ts.head? = some t → t.kind ≠ some .error) : (textOf ts).head? ≠ some '"' := by
  intro hquote
  cases ts with
  | nil => simp at hquote
  | cons u us =>
    obtain ⟨⟨d, ds, hu, hnext⟩, -⟩ := hcut.exists_munch
    rw [textOf_cons, hu] at hquote h
    obtain rfl : d = '"' := by simpa using hquote
    have hkind : (munch '"' (ds ++ textOf us)).kind = some .error := munch_quote_after_dollar h hk
    rw [hnext] at hkind
    exact herror u rfl hkind

/-- The text of a tile at an offset, or the word that it gets. -/
def newText (word : Span → Option String) (offset : Nat) (t : Tile) : List Char :=
  ((word ⟨offset, offset + byteSize t.text⟩).map String.toList).getD t.text

/-- Tiles that begin at an offset, with the words at the spans that get one. -/
def exchange (word : Span → Option String) : Nat → List Tile → List Tile
  | _, [] => []
  | offset, t :: ts =>
    ⟨t.kind, newText word offset t⟩ :: exchange word (offset + byteSize t.text) ts

/-- Where an offset comes to lie, if tiles at an offset move to a new one and get words. -/
def moved (word : Span → Option String) : Nat → Nat → List Tile → Nat → Nat
  | _, new, [], _ => new
  | offset, new, t :: ts, p =>
    if p ≤ offset then new
    else moved word (offset + byteSize t.text) (new + byteSize (newText word offset t)) ts p

/-- Holds of tiles at an offset, after the character `z` if there is one, whose words may be
exchanged: no tile is an error, and what gets a word is an identifier that joins no character before
it. -/
def Exchangeable (word : Span → Option String) : Option Char → Nat → List Tile → Prop
  | _, _, [] => True
  | z, offset, t :: ts =>
    let next := offset + byteSize t.text
    t.kind ≠ some .error ∧
      (∀ w, word ⟨offset, next⟩ = some w → t.kind = some .ident ∧ IsPlainWord w ∧
        ∀ c, z = some c → isWordPart c = false ∧ c ≠ '@') ∧
      Exchangeable word t.text.getLast? next ts

theorem exchange_cons (word : Span → Option String) (offset : Nat) (t : Tile) (ts : List Tile) :
    exchange word offset (t :: ts) =
      ⟨t.kind, newText word offset t⟩ :: exchange word (offset + byteSize t.text) ts := rfl

variable {word : Span → Option String} {offset : Nat} {ts : List Tile}

theorem not_isDigit_of_isWordStart {c : Char} (h : isWordStart c = true) : c.isDigit = false := by
  by_cases hd : c.isDigit = true
  · have hrange := isDigit_iff.1 hd
    rw [isWordStart, if_pos (by omega), Bool.or_eq_true, isAlpha_iff, beq_iff_eq] at h
    rcases h with h | rfl
    · omega
    · exact absurd hd (by decide)
  · simpa using hd

/-- The head of an identifier is neither a digit nor a quote. -/
theorem head_ne_of_start {c d : Char} (h : isWordStart c = true ∨ c = '@')
    (hd : d.isDigit = true ∨ d = '"') : c ≠ d := by
  rintro rfl
  rcases h with h | rfl
  · rcases hd with hd | rfl
    · rw [not_isDigit_of_isWordStart h] at hd
      exact absurd hd (by simp)
    · revert h
      decide
  · rcases hd with hd | hd
    · revert hd
      decide
    · revert hd
      decide

/-- At the front the texts agree on digits and quotes. -/
private theorem head?_exchange {z : Option Char} (hcut : Cut ts) (h : Exchangeable word z offset ts)
    {d : Char} (hd : d.isDigit = true ∨ d = '"') :
    (textOf (exchange word offset ts)).head? = some d ↔ (textOf ts).head? = some d := by
  cases ts with
  | nil => rfl
  | cons t ts =>
    obtain ⟨⟨c, more, htext, hmunch⟩, -⟩ := hcut.exists_munch
    obtain ⟨-, hword, -⟩ := h
    rw [exchange_cons, textOf_cons, textOf_cons, newText, htext]
    cases hw : word ⟨offset, offset + byteSize (c :: more)⟩ with
    | none => simp
    | some w =>
      rw [htext] at hword
      obtain ⟨hkind, hplain, -⟩ := hword w hw
      obtain ⟨c', more', hshape, hstart, -⟩ := hplain.shape
      rw [hkind] at hmunch
      have hold := head_ne_of_start (start_of_munch_ident (congrArg Piece.kind hmunch)) hd
      have hnew := head_ne_of_start (.inl hstart) hd
      simp [hshape, hold, hnew]

/-- After a character that the words do not join, the texts look alike. -/
theorem alike_exchange {z : Char} (hcut : Cut ts) (h : Exchangeable word (some z) offset ts) :
    Alike z (textOf ts) (textOf (exchange word offset ts)) := by
  cases ts with
  | nil => exact .nil
  | cons t ts =>
    obtain ⟨⟨c, more, htext, hmunch⟩, htail⟩ := hcut.exists_munch
    obtain ⟨-, hword, hrest⟩ := h
    rw [exchange_cons, textOf_cons, textOf_cons, newText, htext]
    rw [htext] at hword hrest
    cases hw : word ⟨offset, offset + byteSize (c :: more)⟩ with
    | none =>
      apply Alike.same
      intro _ d hd
      cases more with
      | nil => exact head?_exchange htail hrest hd
      | cons x more => exact Iff.rfl
    | some w =>
      obtain ⟨hkind, hplain, hz⟩ := hword w hw
      obtain ⟨c', more', hshape, hstart, -⟩ := hplain.shape
      obtain ⟨hpart, hsign⟩ := hz z rfl
      have hold : c ≠ '\n' := by
        rw [hkind] at hmunch
        rcases start_of_munch_ident (congrArg Piece.kind hmunch) with hc | rfl
        · exact Opens.ne (.inl hc) (by decide) (by decide)
        · decide
      simp only [Option.map_some, Option.getD_some, hshape]
      exact .fresh hold (.inl hstart) hpart hsign

/-- Words may be exchanged if at each place that gets one an identifier stands free. -/
theorem exchangeable_of_splits {z : Option Char} (hne : ∀ t ∈ ts, t.text ≠ [])
    (herror : ∀ t ∈ ts, t.kind ≠ some .error)
    (hword : ∀ as u bs w, ts = as ++ u :: bs →
      word ⟨offset + byteSize (textOf as), offset + byteSize (textOf as) + byteSize u.text⟩ = some w →
      u.kind = some .ident ∧ IsPlainWord w ∧
        ∀ c, (textOf as).getLast?.or z = some c → isWordPart c = false ∧ c ≠ '@') :
    Exchangeable word z offset ts := by
  induction ts generalizing z offset with
  | nil => trivial
  | cons t ts ih =>
    refine ⟨herror t List.mem_cons_self, ?_, ?_⟩
    · intro w hw
      exact hword [] t ts w rfl hw
    · apply ih (fun u hu => hne u (List.mem_cons_of_mem t hu))
        (fun u hu => herror u (List.mem_cons_of_mem t hu))
      intro as u bs w hsplit hw
      have hsize : offset + byteSize (textOf (t :: as)) =
          offset + byteSize t.text + byteSize (textOf as) := by
        rw [textOf_cons, byteSize_append, Nat.add_assoc]
      obtain ⟨hkind, hplain, hfree⟩ := hword (t :: as) u bs w (by rw [hsplit]; rfl) (by rwa [hsize])
      refine ⟨hkind, hplain, fun c hc => hfree c ?_⟩
      rw [textOf_cons, List.getLast?_append]
      cases hlast : (textOf as).getLast? with
      | none =>
        rw [hlast, Option.none_or] at hc
        rw [Option.none_or, hc]
        rfl
      | some x =>
        rw [hlast, Option.some_or] at hc
        rw [Option.some_or, hc]
        rfl

/-- Reading cuts the new text where it cut the old one. -/
theorem Cut.exchange {z : Option Char} (hcut : Cut ts) (h : Exchangeable word z offset ts) :
    Cut (exchange word offset ts) := by
  induction ts generalizing z offset with
  | nil => exact tiles_nil
  | cons t ts ih =>
    obtain ⟨⟨c, more, htext, hmunch⟩, htail⟩ := hcut.exists_munch
    obtain ⟨herror, hword, hrest⟩ := h
    have hnew := ih htail hrest
    rw [exchange_cons, newText]
    rw [htext] at hword hrest hnew ⊢
    cases hw : word ⟨offset, offset + byteSize (c :: more)⟩ with
    | none =>
      obtain ⟨z', hz'⟩ : ∃ z', (c :: more).getLast? = some z' :=
        ⟨_, List.getLast?_eq_some_getLast (by simp)⟩
      rw [hz'] at hrest
      refine Cut.cons (munch_congr hmunch herror ?_ hz' (alike_exchange htail hrest)) hnew
      rintro rfl rfl
      refine htail.head?_ne_quote hmunch herror fun u hu => ?_
      obtain ⟨us, rfl⟩ := List.head?_eq_some_iff.1 hu
      exact hrest.1
    | some w =>
      obtain ⟨hkind, hplain, -⟩ := hword w hw
      obtain ⟨c', more', hshape, -, -⟩ := hplain.shape
      rw [hkind] at hmunch ⊢
      simp only [Option.map_some, Option.getD_some, hshape]
      obtain ⟨z', hz'⟩ : ∃ z', (c :: more).getLast? = some z' :=
        ⟨_, List.getLast?_eq_some_getLast (by simp)⟩
      obtain ⟨hpart, hend⟩ := end_of_munch_ident hmunch hz'
      rw [hz'] at hrest
      have hhead := (alike_exchange htail hrest).head?_eq (.inl hpart)
      exact Cut.cons (munch_plain hplain hshape (run_eq_zero_of_head? hhead hend)) hnew

/-! ## Tokens at their new places -/

theorem moved_of_le {new p : Nat} (hp : p ≤ offset) : moved word offset new ts p = new := by
  cases ts with
  | nil => rfl
  | cons t ts => exact if_pos hp

theorem moved_cons_of_lt {new p : Nat} {t : Tile} (hp : offset < p) :
    moved word offset new (t :: ts) p =
      moved word (offset + byteSize t.text) (new + byteSize (newText word offset t)) ts p :=
  if_neg (Nat.not_le.2 hp)

/-- The tokens of the new tiles are those of the old ones with their new places and words. -/
theorem tokensAt_exchange (hts : ∀ t ∈ ts, t.text ≠ []) (offset new : Nat) :
    tokensAt new (exchange word offset ts) = (tokensAt offset ts).map fun t =>
      ⟨t.kind, ⟨moved word offset new ts t.span.start, moved word offset new ts t.span.stop⟩,
        (word t.span).getD t.text⟩ := by
  induction ts generalizing offset new with
  | nil => rfl
  | cons t ts ih =>
    have hrest : ∀ u ∈ ts, u.text ≠ [] := fun u hu => hts u (List.mem_cons_of_mem t hu)
    have hpos : 0 < byteSize t.text := by
      apply Nat.pos_of_ne_zero
      intro hzero
      exact hts t List.mem_cons_self (eq_nil_of_byteSize_eq_zero hzero)
    have htail := ih hrest (offset + byteSize t.text) (new + byteSize (newText word offset t))
    have hplaced := placed_tokensAt hrest (offset + byteSize t.text)
    have hcongr : ∀ u ∈ tokensAt (offset + byteSize t.text) ts,
        (⟨u.kind, ⟨moved word (offset + byteSize t.text) (new + byteSize (newText word offset t)) ts
          u.span.start, moved word (offset + byteSize t.text)
          (new + byteSize (newText word offset t)) ts u.span.stop⟩, (word u.span).getD u.text⟩ :
            Token) =
        ⟨u.kind, ⟨moved word offset new (t :: ts) u.span.start,
          moved word offset new (t :: ts) u.span.stop⟩, (word u.span).getD u.text⟩ := by
      intro u hu
      have hle := hplaced.start_le hu
      rw [moved_cons_of_lt (by omega), moved_cons_of_lt (by omega)]
    rw [exchange_cons, tokensAt, tokensAt]
    cases hk : t.kind with
    | none =>
      dsimp only
      rw [htail]
      exact List.map_congr_left hcongr
    | some k =>
      dsimp only
      rw [htail, List.map_cons]
      congr 1
      · have hstop : moved word offset new (t :: ts) (offset + byteSize t.text) =
            new + byteSize (newText word offset t) := by
          rw [moved_cons_of_lt (by omega), moved_of_le (Nat.le_refl _)]
        rw [moved_of_le (Nat.le_refl _), hstop, newText]
        cases word ⟨offset, offset + byteSize t.text⟩ with
        | none => rfl
        | some w => simp
      · exact List.map_congr_left hcongr

/-! ## Texts that keep their words -/

theorem exchange_append (as bs : List Tile) (offset : Nat) :
    exchange word offset (as ++ bs) =
      exchange word offset as ++ exchange word (offset + byteSize (textOf as)) bs := by
  induction as generalizing offset with
  | nil => rfl
  | cons a as ih =>
    rw [List.cons_append, exchange_cons, exchange_cons, ih, textOf_cons, byteSize_append,
      Nat.add_assoc]
    rfl

theorem moved_append {as : List Tile} (has : ∀ t ∈ as, t.text ≠ []) (bs : List Tile)
    (offset new : Nat) :
    moved word offset new (as ++ bs) (offset + byteSize (textOf as)) =
      new + byteSize (textOf (exchange word offset as)) := by
  induction as generalizing offset new with
  | nil => exact moved_of_le (Nat.le_refl _)
  | cons a as ih =>
    have hpos : 0 < byteSize a.text := by
      apply Nat.pos_of_ne_zero
      intro hzero
      exact has a List.mem_cons_self (eq_nil_of_byteSize_eq_zero hzero)
    have htail := ih (fun t ht => has t (List.mem_cons_of_mem a ht)) (offset + byteSize a.text)
      (new + byteSize (newText word offset a))
    rw [textOf_cons, byteSize_append, List.cons_append, moved_cons_of_lt (by omega),
      ← Nat.add_assoc, htail, exchange_cons, textOf_cons, byteSize_append, Nat.add_assoc]

theorem Exchangeable.append_right {z : Option Char} {as bs : List Tile}
    (h : Exchangeable word z offset (as ++ bs)) :
    ∃ z', Exchangeable word z' (offset + byteSize (textOf as)) bs := by
  induction as generalizing z offset with
  | nil => exact ⟨z, h⟩
  | cons a as ih =>
    obtain ⟨z', hz'⟩ := ih h.2.2
    rw [textOf_cons, byteSize_append, ← Nat.add_assoc]
    exact ⟨z', hz'⟩

/-- Tiles of which no token gets a word stay as they are. -/
theorem exchange_eq_self {z : Option Char} {as bs : List Tile}
    (h : Exchangeable word z offset (as ++ bs))
    (hnone : ∀ t ∈ tokensAt offset as, word t.span = none) : exchange word offset as = as := by
  induction as generalizing z offset with
  | nil => rfl
  | cons a as ih =>
    obtain ⟨-, hword, hrest⟩ := h
    have hhead : word ⟨offset, offset + byteSize a.text⟩ = none := by
      cases hw : word ⟨offset, offset + byteSize a.text⟩ with
      | none => rfl
      | some w =>
        have hkind := (hword w hw).1
        rw [tokensAt, hkind] at hnone
        exact absurd (hnone _ List.mem_cons_self) (by simp [hw])
    have htail : ∀ t ∈ tokensAt (offset + byteSize a.text) as, word t.span = none := by
      intro t ht
      apply hnone
      rw [tokensAt]
      cases a.kind with
      | none => exact ht
      | some k => exact List.mem_cons_of_mem _ ht
    rw [exchange_cons, newText, hhead, ih hrest htail]
    rfl

/-- The tile of a token, between those of the tokens before and after it. -/
theorem tokensAt_eq_append_cons {xs ys : List Token} {t : Token}
    (h : tokensAt offset ts = xs ++ t :: ys) : ∃ as u bs, ts = as ++ u :: bs ∧
      tokensAt offset as = xs ∧
      t.span = ⟨offset + byteSize (textOf as), offset + byteSize (textOf as) + byteSize u.text⟩ ∧
      tokensAt (offset + byteSize (textOf as)) [u] = [t] ∧
      tokensAt (offset + byteSize (textOf as) + byteSize u.text) bs = ys := by
  induction ts generalizing offset xs with
  | nil => simp at h
  | cons a ts ih =>
    rw [tokensAt] at h
    cases hk : a.kind with
    | none =>
      rw [hk] at h
      obtain ⟨as, u, bs, rfl, has, hspan, hu, hbs⟩ := ih h
      have hsize : offset + byteSize (textOf (a :: as)) =
          offset + byteSize a.text + byteSize (textOf as) := by
        rw [textOf_cons, byteSize_append]
        omega
      refine ⟨a :: as, u, bs, rfl, ?_, ?_, ?_, ?_⟩
      · rw [tokensAt, hk]
        exact has
      · rw [hsize]
        exact hspan
      · rw [hsize]
        exact hu
      · rw [hsize]
        exact hbs
    | some k =>
      rw [hk] at h
      cases xs with
      | nil =>
        obtain ⟨rfl, hys⟩ := List.cons.inj h
        refine ⟨[], a, ts, rfl, rfl, rfl, ?_, hys⟩
        rw [tokensAt, hk]
        rfl
      | cons x xs =>
        obtain ⟨rfl, hrest⟩ := List.cons.inj h
        obtain ⟨as, u, bs, rfl, has, hspan, hu, hbs⟩ := ih hrest
        have hsize : offset + byteSize (textOf (a :: as)) =
            offset + byteSize a.text + byteSize (textOf as) := by
          rw [textOf_cons, byteSize_append]
          omega
        refine ⟨a :: as, u, bs, rfl, ?_, ?_, ?_, ?_⟩
        · rw [tokensAt, hk]
          exact congrArg _ has
        · rw [hsize]
          exact hspan
        · rw [hsize]
          exact hu
        · rw [hsize]
          exact hbs

theorem kind_of_tokensAt_singleton {u : Tile} {t : Token} (h : tokensAt offset [u] = [t]) :
    u.kind = some t.kind := by
  rw [tokensAt] at h
  cases hk : u.kind with
  | none =>
    rw [hk] at h
    exact absurd h (by simp)
  | some k =>
    rw [hk] at h
    rw [← (List.cons.inj h).1]

/-- The tiles of some tokens, from the first of these to the last, between those of the tokens before and
after them. -/
theorem exists_tiles_of_append {xs ys us : List Token} {t : Token}
    (h : tokensAt offset ts = xs ++ (t :: us ++ ys)) : ∃ as u bs cs, ts = as ++ (u :: bs ++ cs) ∧
      u.kind = some t.kind ∧ tokensAt offset as = xs ∧
      tokensAt (offset + byteSize (textOf as)) (u :: bs) = t :: us ∧
      tokensAt (offset + byteSize (textOf as) + byteSize (textOf (u :: bs))) cs = ys ∧
      spanOf (t :: us) = ⟨offset + byteSize (textOf as),
        offset + byteSize (textOf as) + byteSize (textOf (u :: bs))⟩ := by
  rw [List.cons_append] at h
  obtain ⟨as, u, bs, rfl, has, hspan, hu, hbs⟩ := tokensAt_eq_append_cons h
  have hkind := kind_of_tokensAt_singleton hu
  rcases List.eq_nil_or_concat us with rfl | ⟨us, s, rfl⟩
  · have hsize : byteSize (textOf [u]) = byteSize u.text := by
      rw [textOf_cons, textOf_nil, List.append_nil]
    rw [← hsize] at hspan hbs
    exact ⟨as, u, [], bs, rfl, hkind, has, hu, hbs, hspan⟩
  · rw [List.concat_eq_append, List.append_assoc, List.singleton_append] at hbs
    rw [List.concat_eq_append]
    obtain ⟨ds, v, es, rfl, hds, hspan', hv, hes⟩ := tokensAt_eq_append_cons hbs
    have hsize : offset + byteSize (textOf as) + byteSize (textOf (u :: (ds ++ [v]))) =
        offset + byteSize (textOf as) + byteSize u.text + byteSize (textOf ds) + byteSize v.text := by
      simp only [textOf_cons, textOf_append, textOf_nil, byteSize_append, byteSize_nil]
      omega
    refine ⟨as, u, ds ++ [v], es, by simp, hkind, has, ?_, ?_, ?_⟩
    · rw [show u :: (ds ++ [v]) = [u] ++ (ds ++ [v]) from rfl, tokensAt_append, hu, textOf_cons,
        textOf_nil, List.append_nil, tokensAt_append, hds, hv]
      rfl
    · rw [hsize, hes]
    · rw [spanOf, startOf_cons, ← List.cons_append, stopOf_concat, hspan, hspan', hsize]

theorem exists_tiles_of_infix {us : List Token} (h : us <:+: tokensAt offset ts) (hne : us ≠ []) :
    ∃ as bs cs, ts = as ++ (bs ++ cs) ∧ tokensAt (offset + byteSize (textOf as)) bs = us ∧
      spanOf us = ⟨offset + byteSize (textOf as),
        offset + byteSize (textOf as) + byteSize (textOf bs)⟩ := by
  obtain ⟨xs, ys, h⟩ := h
  obtain ⟨t, us, rfl⟩ := List.exists_cons_of_ne_nil hne
  rw [List.append_assoc] at h
  obtain ⟨as, u, bs, cs, hsplit, -, -, hus, -, hspan⟩ := exists_tiles_of_append h.symm
  exact ⟨as, u :: bs, cs, hsplit, hus, hspan⟩

/-- Where no token gets a word, the text between two tokens stays as it is. -/
theorem text_exchange {cs : List Char} (h : Exchangeable word none 0 (tiles cs)) {us : List Token}
    (hus : us <:+: tokensAt 0 (tiles cs)) (hne : us ≠ [])
    (hnone : ∀ t ∈ us, word t.span = none) :
    Span.text ⟨moved word 0 0 (tiles cs) (spanOf us).start, moved word 0 0 (tiles cs) (spanOf us).stop⟩
        (String.ofList (textOf (exchange word 0 (tiles cs)))) =
      (spanOf us).text (String.ofList cs) := by
  obtain ⟨as, bs, ds, hsplit, rfl, hspan⟩ := exists_tiles_of_infix hus hne
  have hne : ∀ t ∈ tiles cs, t.text ≠ [] := fun t => text_ne_nil_of_mem_tiles
  have hcs : cs = textOf as ++ (textOf bs ++ textOf ds) := by
    rw [← textOf_append, ← textOf_append, ← hsplit, textOf_tiles]
  rw [hsplit] at h hne ⊢
  obtain ⟨z, hbs⟩ := h.append_right
  have hsame := exchange_eq_self hbs hnone
  rw [← List.append_assoc] at hne
  have hstart : moved word 0 0 (as ++ (bs ++ ds)) _ = _ := moved_append
    (fun t ht => hne t (List.mem_append_left _ (List.mem_append_left _ ht))) (bs ++ ds) 0 0
  have hstop : moved word 0 0 (as ++ bs ++ ds) _ = _ := moved_append
    (fun t ht => hne t (List.mem_append_left _ ht)) ds 0 0
  rw [List.append_assoc, textOf_append, byteSize_append, ← Nat.add_assoc, exchange_append, hsame,
    textOf_append, byteSize_append, ← Nat.add_assoc] at hstop
  rw [hspan, hstart, hstop, exchange_append, exchange_append, hsame, textOf_append, textOf_append,
    Span.text, Span.text, String.toList_ofList, String.toList_ofList, hcs]
  simp only [Nat.zero_add]
  rw [slice?_append, slice?_append]

/-! ## Edits at tokens -/

theorem mem_tokensAt_cons {t : Tile} {u : Token} (h : u ∈ tokensAt offset (t :: ts)) :
    u.span = ⟨offset, offset + byteSize t.text⟩ ∨ u ∈ tokensAt (offset + byteSize t.text) ts := by
  rw [tokensAt] at h
  cases hk : t.kind with
  | none =>
    rw [hk] at h
    exact .inr h
  | some k =>
    rw [hk] at h
    rcases List.mem_cons.1 h with rfl | h
    · exact .inl rfl
    · exact .inr h

/-- Editing tokens puts the words of the edits into their tiles. -/
theorem splice?_exchange {es : List TextEdit} (hts : ∀ t ∈ ts, t.text ≠ [])
    (hspaced : TextEdit.Spaced offset es) (hes : ∀ e ∈ es, ∃ t ∈ tokensAt offset ts, e.span = t.span)
    (hword : ∀ s w, offset ≤ s.start → (word s = some w ↔ ⟨s, w⟩ ∈ es)) :
    TextEdit.splice? offset es (textOf ts) = some (textOf (exchange word offset ts)) := by
  induction ts generalizing offset es with
  | nil =>
    cases es with
    | nil => rfl
    | cons e es =>
      obtain ⟨t, ht, -⟩ := hes e List.mem_cons_self
      exact absurd ht List.not_mem_nil
  | cons t ts ih =>
    have hpos : 0 < byteSize t.text := by
      apply Nat.pos_of_ne_zero
      intro hzero
      exact hts t List.mem_cons_self (eq_nil_of_byteSize_eq_zero hzero)
    have hrest : ∀ u ∈ ts, u.text ≠ [] := fun u hu => hts u (List.mem_cons_of_mem t hu)
    have hplaced := placed_tokensAt hrest (offset + byteSize t.text)
    -- No edit is at this tile: the text is copied, and all edits are for the tiles after it.
    have hkeep : (∀ e ∈ es, ∃ u ∈ tokensAt (offset + byteSize t.text) ts, e.span = u.span) →
        TextEdit.splice? offset es (textOf (t :: ts)) =
          some (textOf (exchange word offset (t :: ts))) := by
      intro hlater
      have hstart : ∀ e ∈ es, offset + byteSize t.text ≤ e.span.start := by
        intro e he
        obtain ⟨u, hu, hspan⟩ := hlater e he
        rw [hspan]
        exact (hplaced.start_le hu).1
      have hnone : word ⟨offset, offset + byteSize t.text⟩ = none := by
        cases hw : word ⟨offset, offset + byteSize t.text⟩ with
        | none => rfl
        | some w =>
          have hlow := hstart _ ((hword _ w (Nat.le_refl _)).1 hw)
          dsimp only at hlow
          omega
      have htail := ih hrest (hspaced.of_le hstart) hlater fun s w hs => hword s w (by omega)
      rw [exchange_cons, newText, hnone, textOf_cons, textOf_cons]
      exact TextEdit.splice?_append hstart htail
    cases es with
    | nil => exact hkeep (by simp)
    | cons e es =>
      obtain ⟨-, hle, hlater⟩ := hspaced
      by_cases hhead : e.span = ⟨offset, offset + byteSize t.text⟩
      · -- The first edit is at this tile.
        have hstop : e.span.stop = offset + byteSize t.text := by rw [hhead]
        have hnew : newText word offset t = e.newText.toList := by
          have hw := (hword ⟨offset, offset + byteSize t.text⟩ e.newText (Nat.le_refl _)).2
            (by rw [← hhead]; exact List.mem_cons_self)
          rw [newText, hw]
          rfl
        rw [hstop] at hlater
        have htail : TextEdit.splice? (offset + byteSize t.text) es (textOf ts) =
            some (textOf (exchange word (offset + byteSize t.text) ts)) := ih hrest hlater ?_ ?_
        · rw [exchange_cons, textOf_cons, textOf_cons, hnew]
          have hstart : e.span.start = offset := by rw [hhead]
          have hsize : offset + byteSize t.text - offset = byteSize t.text := by omega
          simp only [TextEdit.splice?, hstart, hstop, hsize, Nat.sub_self, splitAt?_zero,
            splitAt?_append, htail, Option.bind_eq_bind, Option.bind_some, Option.pure_def]
          rfl
        · intro f hf
          obtain ⟨u, hu, hspan⟩ := hes f (List.mem_cons_of_mem e hf)
          rcases mem_tokensAt_cons hu with hfirst | hu
          · have hlow := (hlater.le_of_mem hf).1
            rw [hspan, hfirst] at hlow
            dsimp only at hlow
            omega
          · exact ⟨u, hu, hspan⟩
        · intro s w hs
          rw [hword s w (by omega), List.mem_cons]
          constructor
          · rintro (he | he)
            · have hsame : s = ⟨offset, offset + byteSize t.text⟩ := by rw [← hhead, ← he]
              rw [hsame] at hs
              dsimp only at hs
              omega
            · exact he
          · exact .inr
      · -- The first edit is at a later tile, and so are the others.
        apply hkeep
        have hfirst : offset + byteSize t.text ≤ e.span.start := by
          obtain ⟨u, hu, hspan⟩ := hes e List.mem_cons_self
          rcases mem_tokensAt_cons hu with hu | hu
          · exact absurd (hspan.trans hu) hhead
          · rw [hspan]
            exact (hplaced.start_le hu).1
        intro f hf
        obtain ⟨u, hu, hspan⟩ := hes f hf
        rcases mem_tokensAt_cons hu with hu | hu
        · have hlow : offset + byteSize t.text ≤ f.span.start := by
            rcases List.mem_cons.1 hf with rfl | hf
            · exact hfirst
            · have := (hlater.le_of_mem hf).1
              omega
          rw [hspan, hu] at hlow
          dsimp only at hlow
          omega
        · exact ⟨u, hu, hspan⟩

end SelfTypeLint.Token
