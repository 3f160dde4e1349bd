import SelfTypeLint.Proofs.Text.Splice
import SelfTypeLint.Tree.Reader.Cursor

/-!
# Tiles

Reading tokens cuts a text into pieces that lie side by side: tokens, and what is skipped between
them. `tiles` gives these pieces with their texts, which join up to the whole text, and the tokens are
the tiles that have a kind. From this follows where tokens stand: one after another (`Placed`), none
of them empty, and each end between two characters.
-/

namespace SelfTypeLint.Token

open Text

/-- A piece of a text as reading cuts it; it has no kind if it is skipped. -/
structure Tile where
  kind : Option TokenKind
  text : List Char
  deriving DecidableEq, Repr

/-- The pieces that a text is cut into. -/
def tiles : List Char → List Tile
  | [] => []
  | c :: cs =>
    let piece := munch c cs
    ⟨piece.kind, c :: cs.take piece.more⟩ :: tiles (cs.drop piece.more)
  termination_by cs => cs.length
  decreasing_by
    simp only [List.length_drop, List.length_cons]
    omega

/-- The text of some tiles. -/
def textOf (ts : List Tile) : List Char := ts.flatMap (·.text)

/-- The tokens among tiles that begin at an offset. -/
def tokensAt (offset : Nat) : List Tile → List Token
  | [] => []
  | t :: ts =>
    let next := offset + byteSize t.text
    match t.kind with
    | some kind => ⟨kind, ⟨offset, next⟩, String.ofList t.text⟩ :: tokensAt next ts
    | none => tokensAt next ts

/-- Holds of tokens that stand one after another from an offset on, none of them empty. -/
def Placed : Nat → List Token → Prop
  | _, [] => True
  | offset, t :: ts => offset ≤ t.span.start ∧ t.span.start < t.span.stop ∧ Placed t.span.stop ts

@[simp] theorem textOf_nil : textOf [] = [] := rfl

@[simp] theorem textOf_cons (t : Tile) (ts : List Tile) : textOf (t :: ts) = t.text ++ textOf ts :=
  rfl

@[simp] theorem textOf_append (ts us : List Tile) : textOf (ts ++ us) = textOf ts ++ textOf us := by
  simp [textOf]

theorem tiles_nil : tiles [] = [] := by rw [tiles]

theorem tiles_cons (c : Char) (cs : List Char) :
    tiles (c :: cs) =
      ⟨(munch c cs).kind, c :: cs.take (munch c cs).more⟩ :: tiles (cs.drop (munch c cs).more) := by
  rw [tiles]

/-- The tiles of a text join up to it. -/
theorem textOf_tiles (cs : List Char) : textOf (tiles cs) = cs := by
  induction cs using tiles.induct with
  | case1 => rw [tiles_nil]; rfl
  | case2 c cs piece ih =>
    rw [tiles_cons, textOf_cons, ih]
    simp [piece]

/-- Reading gives the tokens among the tiles, and the end. -/
theorem readFrom_eq (offset : Nat) (cs : List Char) :
    readFrom offset cs =
      tokensAt offset (tiles cs) ++ [⟨.eof, .point (offset + byteSize cs), ""⟩] := by
  induction cs using tiles.induct generalizing offset with
  | case1 => rw [readFrom, tiles_nil]; rfl
  | case2 c cs piece ih =>
    have hsize : offset + byteSize (c :: cs) =
        offset + byteSize (c :: cs.take piece.more) + byteSize (cs.drop piece.more) := by
      have := congrArg byteSize (List.take_append_drop piece.more cs)
      rw [byteSize_append] at this
      simp only [byteSize_cons]
      omega
    rw [readFrom, tiles_cons, hsize]
    simp only [tokensAt]
    cases hk : piece.kind with
    | some k => simp only [piece] at hk ih ⊢; simp only [ih, List.cons_append]
    | none => simp only [piece] at hk ih ⊢; simp only [ih]

/-- A token in front of a text is read as the piece that it is. -/
theorem readFrom_token {c : Char} {more rest : List Char} {k : TokenKind}
    (h : munch c (more ++ rest) = ⟨some k, more.length⟩) (offset : Nat) :
    readFrom offset (c :: (more ++ rest)) =
      ⟨k, ⟨offset, offset + byteSize (c :: more)⟩, String.ofList (c :: more)⟩ ::
        readFrom (offset + byteSize (c :: more)) rest := by
  rw [readFrom, h]
  simp only [List.take_left, List.drop_left]

/-- The tokens of a source text without the end. -/
theorem dropLast_read (source : String) :
    (read source).dropLast = tokensAt 0 (tiles source.toList) := by
  rw [read, readFrom_eq, List.dropLast_concat]

theorem ahead_ofSource (source : String) :
    (Cursor.ofSource source).ahead = tokensAt 0 (tiles source.toList) := dropLast_read source

theorem eof_ofSource (source : String) : (Cursor.ofSource source).eof.kind = .eof := by
  simp only [Cursor.ofSource, read, readFrom_eq, List.getLast?_concat, Option.getD_some]

@[simp] theorem tokensAt_nil (offset : Nat) : tokensAt offset [] = [] := rfl

theorem tokensAt_append (offset : Nat) (ts us : List Tile) :
    tokensAt offset (ts ++ us) = tokensAt offset ts ++ tokensAt (offset + byteSize (textOf ts)) us := by
  induction ts generalizing offset with
  | nil => rfl
  | cons t ts ih =>
    have hsize : offset + byteSize (textOf (t :: ts)) =
        offset + byteSize t.text + byteSize (textOf ts) := by
      rw [textOf_cons, byteSize_append]; omega
    rw [List.cons_append, tokensAt, tokensAt, hsize]
    cases t.kind with
    | some k => simp only [ih, List.cons_append]
    | none => simp only [ih]

/-- No tile of a text is empty. -/
theorem text_ne_nil_of_mem_tiles {cs : List Char} {t : Tile} (h : t ∈ tiles cs) : t.text ≠ [] := by
  induction cs using tiles.induct with
  | case1 => simp [tiles_nil] at h
  | case2 c cs piece ih =>
    rw [tiles_cons] at h
    rcases List.mem_cons.1 h with rfl | h
    · simp
    · exact ih h

/-- The tokens among nonempty tiles stand one after another. -/
theorem placed_tokensAt {ts : List Tile} (h : ∀ t ∈ ts, t.text ≠ []) (offset : Nat) :
    Placed offset (tokensAt offset ts) := by
  suffices hs : ∀ low ≤ offset, Placed low (tokensAt offset ts) from hs offset (Nat.le_refl _)
  induction ts generalizing offset with
  | nil => intro _ _; trivial
  | cons t ts ih =>
    intro low hlow
    have ht : 0 < byteSize t.text := by
      have hne := h t List.mem_cons_self
      exact Nat.pos_of_ne_zero fun h0 => hne (eq_nil_of_byteSize_eq_zero h0)
    have hrest := ih (fun u hu => h u (List.mem_cons_of_mem _ hu)) (offset + byteSize t.text)
    rw [tokensAt]
    cases t.kind with
    | some k => exact ⟨hlow, by dsimp only; omega, hrest _ (Nat.le_refl _)⟩
    | none => exact hrest low (by omega)

/-- Both ends of a token among tiles are boundaries of the text, and the token has the text between
them. -/
theorem exists_of_mem_tokensAt {ts : List Tile} {offset : Nat} {t : Token}
    (h : t ∈ tokensAt offset ts) : ∃ before u after, ts = before ++ u :: after ∧
      u.kind = some t.kind ∧ t.text = String.ofList u.text ∧
      t.span = ⟨offset + byteSize (textOf before), offset + byteSize (textOf before) + byteSize u.text⟩
    := by
  induction ts generalizing offset with
  | nil => simp at h
  | cons u ts ih =>
    rw [tokensAt] at h
    have key : t ∈ tokensAt (offset + byteSize u.text) ts → ∃ before v after,
        u :: ts = before ++ v :: after ∧ v.kind = some t.kind ∧ t.text = String.ofList v.text ∧
        t.span = ⟨offset + byteSize (textOf before),
          offset + byteSize (textOf before) + byteSize v.text⟩ := by
      intro ht
      obtain ⟨before, v, after, rfl, hk, hx, hs⟩ := ih ht
      exact ⟨u :: before, v, after, rfl, hk, hx, by
        rw [hs, textOf_cons, byteSize_append, Nat.add_assoc offset]⟩
    cases hk : u.kind with
    | none => rw [hk] at h; exact key h
    | some k =>
      rw [hk] at h
      rcases List.mem_cons.1 h with rfl | h
      · exact ⟨[], u, ts, rfl, hk, rfl, by simp⟩
      · exact key h

/-- A tile with a kind is a token. -/
theorem mem_tokensAt_of_kind {offset : Nat} (as : List Tile) {u : Tile} (bs : List Tile)
    {k : TokenKind} (hk : u.kind = some k) :
    (⟨k, ⟨offset + byteSize (textOf as), offset + byteSize (textOf as) + byteSize u.text⟩,
      String.ofList u.text⟩ : Token) ∈ tokensAt offset (as ++ u :: bs) := by
  rw [tokensAt_append, tokensAt, hk]
  exact List.mem_append_right _ List.mem_cons_self

/-- Tiles are told apart by the size of the text before them. -/
theorem split_unique {as bs as' bs' : List Tile} {u u' : Tile}
    (hne : ∀ t ∈ as ++ u :: bs, t.text ≠ []) (h : as ++ u :: bs = as' ++ u' :: bs')
    (hsize : byteSize (textOf as) = byteSize (textOf as')) : as = as' ∧ u = u' := by
  induction as generalizing as' with
  | nil =>
    cases as' with
    | nil => exact ⟨rfl, (List.cons.inj h).1⟩
    | cons a as' =>
      obtain ⟨rfl, -⟩ := List.cons.inj h
      rw [textOf_cons, byteSize_append, textOf_nil, byteSize_nil] at hsize
      exact absurd (eq_nil_of_byteSize_eq_zero (by omega)) (hne u List.mem_cons_self)
  | cons a as ih =>
    cases as' with
    | nil =>
      rw [textOf_cons, byteSize_append, textOf_nil, byteSize_nil] at hsize
      exact absurd (eq_nil_of_byteSize_eq_zero (by omega)) (hne a List.mem_cons_self)
    | cons a' as' =>
      obtain ⟨rfl, hrest⟩ := List.cons.inj h
      rw [textOf_cons, textOf_cons, byteSize_append, byteSize_append] at hsize
      obtain ⟨rfl, rfl⟩ := ih (fun t ht => hne t (List.mem_cons_of_mem a ht)) hrest (by omega)
      exact ⟨rfl, rfl⟩

/-! ## Places of tokens -/

theorem Placed.mono {m n : Nat} {ts : List Token} (h : Placed n ts) (hm : m ≤ n) : Placed m ts := by
  cases ts with
  | nil => trivial
  | cons t ts => exact ⟨Nat.le_trans hm h.1, h.2⟩

theorem Placed.start_le {offset : Nat} {ts : List Token} (h : Placed offset ts) {t : Token}
    (ht : t ∈ ts) : offset ≤ t.span.start ∧ t.span.start < t.span.stop := by
  induction ts generalizing offset with
  | nil => simp at ht
  | cons u ts ih =>
    obtain ⟨h1, h2, h3⟩ := h
    rcases List.mem_cons.1 ht with rfl | ht
    · exact ⟨h1, h2⟩
    · have := ih h3 ht
      omega

/-- Of two tokens that stand one after another, the later begins where the earlier ends or after. -/
theorem Placed.pairwise {offset : Nat} {ts : List Token} (h : Placed offset ts) :
    ts.Pairwise fun t u => t.span.stop ≤ u.span.start := by
  induction ts generalizing offset with
  | nil => exact List.Pairwise.nil
  | cons t ts ih => exact List.pairwise_cons.2 ⟨fun u hu => (h.2.2.start_le hu).1, ih h.2.2⟩

theorem Placed.append_right {offset : Nat} {ts us : List Token} (h : Placed offset (ts ++ us)) :
    Placed offset us := by
  induction ts generalizing offset with
  | nil => exact h
  | cons t ts ih =>
    obtain ⟨h1, h2, h3⟩ := h
    exact (ih h3).mono (by omega)

theorem Placed.append_left {offset : Nat} {ts us : List Token} (h : Placed offset (ts ++ us)) :
    Placed offset ts := by
  induction ts generalizing offset with
  | nil => trivial
  | cons t ts ih => exact ⟨h.1, h.2.1, ih h.2.2⟩

/-- Tokens that stand one after another are told apart by their spans. -/
theorem Placed.nodup_spans {offset : Nat} {ts : List Token} (h : Placed offset ts) :
    (ts.map (·.span)).Nodup := by
  induction ts generalizing offset with
  | nil => exact List.nodup_nil
  | cons t ts ih =>
    refine List.nodup_cons.2 ⟨?_, ih h.2.2⟩
    intro hm
    obtain ⟨u, hu, he⟩ := List.mem_map.1 hm
    have h1 := (h.2.2.start_le hu).1
    have h2 := h.2.1
    rw [show u.span = t.span from he] at h1
    omega

theorem Placed.eq_of_span {offset : Nat} {ts : List Token} (h : Placed offset ts) {t u : Token}
    (ht : t ∈ ts) (hu : u ∈ ts) (hspan : t.span = u.span) : t = u := by
  induction ts generalizing offset with
  | nil => exact absurd ht List.not_mem_nil
  | cons v ts ih =>
    have hlater : ∀ x ∈ ts, x.span ≠ v.span := by
      intro x hx he
      have h1 := (h.2.2.start_le hx).1
      have h2 := h.2.1
      rw [he] at h1
      omega
    rcases List.mem_cons.1 ht with rfl | htv
    · rcases List.mem_cons.1 hu with rfl | huv
      · rfl
      · exact absurd hspan.symm (hlater u huv)
    · rcases List.mem_cons.1 hu with rfl | huv
      · exact absurd hspan (hlater t htv)
      · exact ih h.2.2 htv huv

theorem le_start_of_mem_readFrom {offset : Nat} {cs : List Char} {t : Token}
    (h : t ∈ readFrom offset cs) : offset ≤ t.span.start := by
  rw [readFrom_eq, List.mem_append] at h
  rcases h with h | h
  · exact (placed_tokensAt (fun u hu => text_ne_nil_of_mem_tiles hu) offset).start_le h |>.1
  · obtain rfl := List.mem_singleton.1 h
    exact Nat.le_add_right _ _

/-- The tokens of a source text stand one after another. -/
theorem placed_ofSource (source : String) : Placed 0 (Cursor.ofSource source).ahead := by
  rw [ahead_ofSource]
  exact placed_tokensAt (fun _ ht => text_ne_nil_of_mem_tiles ht) 0

/-- Both ends of a token are boundaries of its source text. -/
theorem isBoundary_of_mem_ofSource {source : String} {t : Token}
    (h : t ∈ (Cursor.ofSource source).ahead) :
    IsBoundary source.toList t.span.start ∧ IsBoundary source.toList t.span.stop := by
  rw [ahead_ofSource] at h
  obtain ⟨before, u, after, hts, -, -, hs⟩ := exists_of_mem_tokensAt h
  have hcs := textOf_tiles source.toList
  rw [hts, textOf_append, textOf_cons] at hcs
  rw [hs]
  constructor
  · exact ⟨textOf before, u.text ++ textOf after, hcs.symm, by simp⟩
  · exact ⟨textOf before ++ u.text, textOf after, by simp [← hcs], by simp⟩

/-- A token has the text that stands at its span. -/
theorem text_of_mem_ofSource {source : String} {t : Token}
    (h : t ∈ (Cursor.ofSource source).ahead) : t.span.text source = t.text := by
  rw [ahead_ofSource] at h
  obtain ⟨as, u, bs, hsplit, -, htext, hspan⟩ := exists_of_mem_tokensAt h
  have hcs : source.toList = textOf as ++ (u.text ++ textOf bs) := by
    rw [← textOf_tiles source.toList, hsplit, textOf_append, textOf_cons]
  rw [hspan, htext, Span.text, hcs, Nat.zero_add, slice?_append, Option.getD_some]

/-! ## Kinds of tokens -/

private theorem word_kind_ne_eof (c : Char) (cs : List Char) : (word c cs).kind ≠ some .eof := by
  simp only [word]
  split
  · next k hk =>
    have hkw := TokenKind.isKeyword_of_ofWord? hk
    split
    · rintro ⟨⟩; simp [TokenKind.isKeyword] at hkw
    · simp [Piece.token]
  · simp [Piece.token]

/-- Nothing in a text is read as its end. -/
theorem munch_kind_ne_eof (c : Char) (cs : List Char) : (munch c cs).kind ≠ some .eof := by
  have hw := word_kind_ne_eof c cs
  simp only [munch, number, stroke, lineComment, doubleQuote, dollar, atSign, apostrophe, string,
    verbatimString, rawString, Piece.token, Piece.skipped, mark?]
  grind

theorem kind_ne_eof_of_mem_ofSource {source : String} {t : Token}
    (h : t ∈ (Cursor.ofSource source).ahead) : t.kind ≠ .eof := by
  rw [ahead_ofSource] at h
  obtain ⟨before, u, after, hts, hk, -, -⟩ := exists_of_mem_tokensAt h
  have hu : u ∈ tiles source.toList := by rw [hts]; simp
  have hall : ∀ cs : List Char, ∀ u ∈ tiles cs, u.kind ≠ some .eof := by
    intro cs
    induction cs using tiles.induct with
    | case1 => simp [tiles_nil]
    | case2 c cs piece ih =>
      rw [tiles_cons]
      intro v hv
      rcases List.mem_cons.1 hv with rfl | hv
      · exact munch_kind_ne_eof c cs
      · exact ih v hv
  intro he
  exact hall _ u hu (he ▸ hk)

end SelfTypeLint.Token
