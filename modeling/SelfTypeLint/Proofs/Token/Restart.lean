import SelfTypeLint.Proofs.Token.Cover

/-!
# Reading the rest of a text

What reading gives from a place on depends on the text that follows and not on the text before. The main
statement, `read_restarts`, says that the rest of a text is read as it was in the whole text, only that spans
count from its own start: from the start of any token on, and from any place between tokens on that cuts no
comment and no directive.
-/

namespace SelfTypeLint

/-- A span after a text of that many bytes is put in front. -/
def Span.shift (n : Nat) (s : Span) : Span := ⟨n + s.start, n + s.stop⟩

namespace Token

open Text

/-- A token after a text of that many bytes is put in front. -/
def shift (n : Nat) (t : Token) : Token := { t with span := t.span.shift n }

/-- Trivia and single blanks one after another in front of a text. A comment or a directive among them is
whole, and the blanks at the end may go on in the text. -/
inductive TriviaRun : List Char → List Char → Prop
  | nil {rest : List Char} : TriviaRun [] rest
  | blank {c : Char} {more rest : List Char} (layout : isLayout c = true)
      (others : TriviaRun more rest) : TriviaRun (c :: more) rest
  | cons {piece more rest : List Char} (first : Trivia piece (more ++ rest))
      (others : TriviaRun more rest) : TriviaRun (piece ++ more) rest

/-- Holds of two parts of a source text that meet between its tokens, where no comment or directive is cut
in two. -/
def MeetInGap (source : String) (front back : List Char) : Prop :=
  source.toList = front ++ back ∧ ∃ before gap, front = before ++ gap ∧
    (before = [] ∨ ∃ t ∈ read source, t.kind ≠ .eof ∧ t.span.stop = byteSize before) ∧
    TriviaRun gap back

/-! ## Spans -/

theorem tokensAt_add (n offset : Nat) (ts : List Tile) :
    tokensAt (n + offset) ts = (tokensAt offset ts).map (shift n) := by
  induction ts generalizing offset with
  | nil => rfl
  | cons t ts ih =>
    rw [tokensAt, tokensAt, Nat.add_assoc]
    cases t.kind with
    | some k => simp only [ih, List.map_cons, shift, Span.shift]
    | none => exact ih _

/-- Where a text stands shows in the spans alone. -/
theorem readFrom_add (n offset : Nat) (cs : List Char) :
    readFrom (n + offset) cs = (readFrom offset cs).map (shift n) := by
  rw [readFrom_eq, readFrom_eq, List.map_append, tokensAt_add, Nat.add_assoc]
  rfl

theorem map_shift_read (n : Nat) (cs : List Char) :
    (read (String.ofList cs)).map (shift n) = readFrom n cs := by
  rw [read, String.toList_ofList, ← readFrom_add, Nat.add_zero]

/-! ## Trivia in front -/

theorem Trivia.ne_nil {piece rest : List Char} (h : Trivia piece rest) : piece ≠ [] := by
  cases h with
  | blanks nonempty _ _ => exact nonempty
  | line opening _ _ => rcases opening with rfl | rfl <;> simp
  | block _ => simp
  | byteOrderMark => simp

/-- Trivia in front of a text are passed over. -/
theorem Trivia.readFrom {piece rest : List Char} (h : Trivia piece rest) (offset : Nat) :
    readFrom offset (piece ++ rest) = readFrom (offset + byteSize piece) rest := by
  obtain ⟨c, cs, rfl⟩ := List.exists_cons_of_ne_nil h.ne_nil
  rw [List.cons_append, Token.readFrom, munch_of_trivia h]
  simp [Piece.skipped]

/-- A blank in front of a text is passed over, alone or with those after it. -/
theorem readFrom_blank {c : Char} (h : isLayout c = true) (cs : List Char) (offset : Nat) :
    readFrom offset (c :: cs) = readFrom (offset + c.utf8Size) cs := by
  obtain ⟨xs, rest, rfl, -, hxs, hrest⟩ := exists_run isLayout cs
  have hstop := run_eq_zero_iff.1 hrest
  have hall : Trivia (c :: xs) rest :=
    .blanks (by simp) (List.forall_mem_cons.2 ⟨h, hxs⟩) hstop
  rw [← List.cons_append, hall.readFrom, byteSize_cons, ← Nat.add_assoc]
  by_cases hne : xs = []
  · rw [hne]
    rfl
  · exact ((Trivia.blanks hne hxs hstop).readFrom _).symm

theorem TriviaRun.readFrom {gap rest : List Char} (h : TriviaRun gap rest) (offset : Nat) :
    readFrom offset (gap ++ rest) = readFrom (offset + byteSize gap) rest := by
  induction h generalizing offset with
  | nil => rfl
  | blank layout _ ih => rw [List.cons_append, readFrom_blank layout, ih, byteSize_cons, Nat.add_assoc]
  | cons first _ ih => rw [List.append_assoc, first.readFrom, ih, byteSize_append, Nat.add_assoc]

theorem TriviaRun.of_blanks {cs : List Char} (h : ∀ c ∈ cs, isLayout c = true) (rest : List Char) :
    TriviaRun cs rest := by
  induction cs with
  | nil => exact .nil
  | cons c cs ih =>
    obtain ⟨hc, hcs⟩ := List.forall_mem_cons.1 h
    exact .blank hc (ih hcs)

theorem TriviaRun.append {gap more rest : List Char} (h : TriviaRun gap (more ++ rest))
    (hmore : TriviaRun more rest) : TriviaRun (gap ++ more) rest := by
  generalize htext : more ++ rest = text at h
  induction h with
  | nil => exact hmore
  | blank layout _ ih => exact .blank layout (ih htext)
  | cons first _ ih =>
    rw [← htext, ← List.append_assoc] at first
    rw [List.append_assoc]
    exact .cons first (ih htext)

/-! ## Places between tokens -/

/-- What reading cuts into tiles is read as the tokens among them. -/
theorem Cut.readFrom {ts : List Tile} (h : Cut ts) (offset : Nat) :
    readFrom offset (textOf ts) =
      tokensAt offset ts ++ [⟨.eof, .point (offset + byteSize (textOf ts)), ""⟩] := by
  rw [readFrom_eq, h]

/-- What is skipped between two tokens are trivia. -/
theorem triviaRun_of_cut {gs bs : List Tile} (hcut : Cut (gs ++ bs)) (hgs : ∀ g ∈ gs, g.kind = none) :
    TriviaRun (textOf gs) (textOf bs) := by
  induction gs with
  | nil => exact .nil
  | cons g gs ih =>
    have hfirst := hcut.trivia (hgs g List.mem_cons_self)
    rw [List.append_eq, textOf_append] at hfirst
    exact .cons hfirst (ih hcut.exists_munch.2 fun x hx => hgs x (List.mem_cons_of_mem g hx))

/-- The last token marks the end, and those before it are the tokens among the tiles. -/
theorem eq_of_read_concat {source : String} {ts : List Token} {last : Token}
    (h : read source = ts ++ [last]) : tokensAt 0 (tiles source.toList) = ts ∧
      last = ⟨.eof, .point (byteSize source.toList), ""⟩ := by
  rw [read, readFrom_eq, Nat.zero_add] at h
  obtain ⟨hts, hlast⟩ := List.append_inj' h rfl
  exact ⟨hts, (List.singleton_inj.1 hlast).symm⟩

/-- A token that others follow has its text in the source text. What begins with this text is read as the
token and those after it, and what follows it as those after it. -/
theorem exists_place_of_read {source : String} {ts us : List Token} {t : Token}
    (h : read source = ts ++ t :: us) (hne : us ≠ []) : ∃ front word back,
      source.toList = front ++ (word ++ back) ∧
        t.span = ⟨byteSize front, byteSize front + byteSize word⟩ ∧
        Token.readFrom (byteSize front) (word ++ back) = t :: us ∧
        Token.readFrom (byteSize front + byteSize word) back = us ∧
        ∀ u ∈ ts, u.span.stop ≤ byteSize front := by
  obtain ⟨us, last, rfl⟩ := (List.eq_nil_or_concat us).resolve_left hne
  rw [List.concat_eq_append, ← List.cons_append, ← List.append_assoc] at h
  obtain ⟨htokens, rfl⟩ := eq_of_read_concat h
  obtain ⟨as, u, bs, htiles, -, hspan, hu, hbs⟩ := tokensAt_eq_append_cons htokens
  rw [Nat.zero_add] at hspan hu hbs
  have htext := textOf_tiles source.toList
  rw [htiles, textOf_append, textOf_cons] at htext
  have hsize : byteSize source.toList =
      byteSize (textOf as) + byteSize u.text + byteSize (textOf bs) := by
    rw [← htext, byteSize_append, byteSize_append, Nat.add_assoc]
  have hcut : Cut (u :: bs) := (htiles ▸ cut_tiles source.toList).append_right
  have hplaced := placed_ofSource source
  rw [ahead_ofSource, htokens] at hplaced
  refine ⟨textOf as, u.text, textOf bs, htext.symm, hspan, ?_, ?_, fun x hx => ?_⟩
  · have hfirst : tokensAt (byteSize (textOf as)) (u :: bs) = t :: us := by
      rw [← List.singleton_append, tokensAt_append, hu, textOf_cons, textOf_nil, List.append_nil, hbs]
      rfl
    rw [← textOf_cons, hcut.readFrom, hfirst, textOf_cons, byteSize_append, ← Nat.add_assoc, ← hsize,
      List.concat_eq_append]
    rfl
  · rw [hcut.exists_munch.2.readFrom, hbs, ← hsize, List.concat_eq_append]
  · have := (List.pairwise_append.1 hplaced.pairwise).2.2 x hx t List.mem_cons_self
    rwa [hspan] at this

/-- The last token among tiles, if there is any. -/
theorem exists_last_token (ts : List Tile) : (∀ t ∈ ts, t.kind = none) ∨
    ∃ as u gs k, ts = as ++ u :: gs ∧ u.kind = some k ∧ ∀ g ∈ gs, g.kind = none := by
  induction ts with
  | nil => exact .inl (by simp)
  | cons t ts ih =>
    rcases ih with hnone | ⟨as, u, gs, k, rfl, hk, hgs⟩
    · cases hk : t.kind with
      | none => exact .inl (List.forall_mem_cons.2 ⟨hk, hnone⟩)
      | some k => exact .inr ⟨[], t, ts, k, rfl, hk, hnone⟩
    · exact .inr ⟨t :: as, u, gs, k, rfl, hk, hgs⟩

/-- Where skipped blanks are cut in two, the parts of a source text meet between its tokens. -/
theorem meetInGap_of_tiles {source : String} {as bs : List Tile} {xs ys : List Char}
    (h : tiles source.toList = as ++ ⟨none, xs ++ ys⟩ :: bs)
    (hblank : ∀ c ∈ xs ++ ys, isLayout c = true) :
    MeetInGap source (textOf as ++ xs) (ys ++ textOf bs) := by
  have hcut : Cut (as ++ ⟨none, xs ++ ys⟩ :: bs) := h ▸ cut_tiles source.toList
  have htext : source.toList = textOf as ++ xs ++ (ys ++ textOf bs) := by
    rw [← textOf_tiles source.toList, h]
    simp
  have hrun : ∀ gs : List Tile, Cut (gs ++ ⟨none, xs ++ ys⟩ :: bs) → (∀ g ∈ gs, g.kind = none) →
      TriviaRun (textOf gs ++ xs) (ys ++ textOf bs) := by
    intro gs hcut hgs
    have hfirst := triviaRun_of_cut hcut hgs
    rw [textOf_cons, List.append_assoc] at hfirst
    exact hfirst.append (.of_blanks (fun c hc => hblank c (List.mem_append_left _ hc)) _)
  rcases exists_last_token as with hnone | ⟨ls, u, gs, k, rfl, hk, hgs⟩
  · exact ⟨htext, [], textOf as ++ xs, rfl, .inl rfl, hrun as hcut hnone⟩
  · rw [List.append_assoc, List.cons_append] at h hcut
    obtain ⟨t, ht, hstop⟩ : ∃ t ∈ (Cursor.ofSource source).ahead,
        t.span.stop = byteSize (textOf ls ++ u.text) := by
      rw [ahead_ofSource, h]
      refine ⟨_, mem_tokensAt_of_kind ls _ hk, ?_⟩
      rw [byteSize_append, Nat.zero_add]
    exact ⟨htext, textOf ls ++ u.text, textOf gs ++ xs, by simp,
      .inr ⟨t, List.dropLast_subset _ ht, kind_ne_eof_of_mem_ofSource ht, hstop⟩,
      hrun gs hcut.append_right.exists_munch.2 hgs⟩

/-- Reading begins again at the start of a token. -/
theorem exists_suffix_of_read {source : String} {ts us : List Token} {t : Token}
    (h : read source = ts ++ t :: us) : ∃ front back, source.toList = front ++ back ∧
      byteSize front = t.span.start ∧
        (read (String.ofList back)).map (shift t.span.start) = t :: us := by
  by_cases hus : us = []
  · -- The token marks the end.
    subst hus
    obtain ⟨-, rfl⟩ := eq_of_read_concat h
    refine ⟨source.toList, [], (List.append_nil _).symm, rfl, ?_⟩
    rw [map_shift_read, Token.readFrom]
    rfl
  · obtain ⟨front, word, back, htext, hspan, hread, -, -⟩ := exists_place_of_read h hus
    refine ⟨front, word ++ back, htext, by rw [hspan], ?_⟩
    rw [map_shift_read, hspan, hread]

/-- A token other than the end is followed by the end. -/
theorem ne_nil_of_read {source : String} {ts us : List Token} {t : Token}
    (h : read source = ts ++ t :: us) (hkind : t.kind ≠ .eof) : us ≠ [] := by
  rintro rfl
  obtain ⟨-, rfl⟩ := eq_of_read_concat h
  exact hkind rfl

/-- Reading begins again between tokens. -/
theorem exists_of_meetInGap {source : String} {front back : List Char}
    (h : MeetInGap source front back) : ∃ ts, (∀ t ∈ ts, t.span.stop ≤ byteSize front) ∧
      read source = ts ++ (read (String.ofList back)).map (shift (byteSize front)) := by
  obtain ⟨htext, before, gap, rfl, hbefore, hgap⟩ := h
  rw [map_shift_read]
  rcases hbefore with rfl | ⟨t, ht, hkind, hstop⟩
  · refine ⟨[], by simp, ?_⟩
    rw [read, htext, List.nil_append, hgap.readFrom, Nat.zero_add]
    rfl
  · obtain ⟨ts, us, hread⟩ := List.append_of_mem ht
    obtain ⟨start, word, rest, hplace, hspan, -, hrest, hearlier⟩ :=
      exists_place_of_read hread (ne_nil_of_read hread hkind)
    rw [hspan, ← byteSize_append] at hstop
    rw [hplace, ← List.append_assoc, List.append_assoc before] at htext
    obtain ⟨rfl, rfl⟩ := eq_of_append_eq htext hstop
    refine ⟨ts ++ [t], fun u hu => ?_, ?_⟩
    · rw [byteSize_append, byteSize_append]
      rcases List.mem_append.1 hu with hu | hu
      · have := hearlier u hu
        omega
      · rw [List.mem_singleton.1 hu, hspan]
        dsimp only
        omega
    · rw [hread, ← hrest, hgap.readFrom, ← byteSize_append, ← byteSize_append, List.append_assoc,
        List.append_assoc, List.singleton_append]

/-- The rest of a source text from the start of a token on is read as this token and those after it. From a
place between tokens on, it is read as the tokens after this place, which are all but those that end before
it. Each place in blanks that reading skips is such a place. -/
theorem read_restarts (source : String) :
    (∀ ts t us, read source = ts ++ t :: us → ∃ front back, source.toList = front ++ back ∧
      byteSize front = t.span.start ∧
        (read (String.ofList back)).map (shift t.span.start) = t :: us) ∧
    (∀ front back, MeetInGap source front back → ∃ ts, (∀ t ∈ ts, t.span.stop ≤ byteSize front) ∧
      read source = ts ++ (read (String.ofList back)).map (shift (byteSize front))) ∧
    ∀ as xs ys bs, tiles source.toList = as ++ ⟨none, xs ++ ys⟩ :: bs →
      (∀ c ∈ xs ++ ys, isLayout c = true) → MeetInGap source (textOf as ++ xs) (ys ++ textOf bs) :=
  ⟨fun _ _ _ => exists_suffix_of_read, fun _ _ => exists_of_meetInGap,
    fun _ _ _ _ => meetInGap_of_tiles⟩

/-- In front of a comment that follows another one. -/
theorem read_restarts_betweenComments :
    MeetInGap "A /* b */ // c\nD" "A /* b */ ".toList "// c\nD".toList ∧
      ∃ ts, (∀ t ∈ ts, t.span.stop ≤ 10) ∧
        read "A /* b */ // c\nD" = ts ++ (read "// c\nD").map (shift 10) := by
  have htiles : tiles "A /* b */ // c\nD".toList =
      [⟨some .ident, ['A']⟩, ⟨none, [' ']⟩, ⟨none, "/* b */".toList⟩] ++ ⟨none, [' '] ++ []⟩ ::
        [⟨none, "// c".toList⟩, ⟨none, ['\n']⟩, ⟨some .ident, ['D']⟩] := by decide +kernel
  have hmeet : MeetInGap "A /* b */ // c\nD" "A /* b */ ".toList "// c\nD".toList :=
    (read_restarts _).2.2 _ _ _ _ htiles (by simp [isLayout])
  have hrest := (read_restarts "A /* b */ // c\nD").2.1 _ _ hmeet
  rw [String.ofList_toList] at hrest
  exact ⟨hmeet, hrest⟩

end Token

end SelfTypeLint
