import SelfTypeLint.Proofs.Token.Exchange

/-!
# What reading passes over

A text is made of its tokens and of trivia: blanks, comments, directive lines and byte order marks.
`Trivia` says what these are without looking at how they are read. The main statement, `read_covers`,
says that each byte of a text lies in exactly one of the spans of its tokens and of the trivia between
them, and that no token is trivia.
-/

namespace SelfTypeLint.Token

open Text

/-- What is no token where the given text follows it. -/
inductive Trivia : List Char → List Char → Prop
  /-- As many blanks as stand together. -/
  | blanks {cs rest : List Char} (nonempty : cs ≠ []) (blank : ∀ c ∈ cs, isLayout c = true)
      (stop : ∀ c, rest.head? = some c → isLayout c = false) : Trivia cs rest
  /-- A comment or a directive up to the end of its line. -/
  | line {mark cs rest : List Char} (opening : mark = ['/', '/'] ∨ mark = ['#']) (inner : '\n' ∉ cs)
      (stop : ∀ c, rest.head? = some c → c = '\n') : Trivia (mark ++ cs) rest
  /-- A comment up to the first mark that closes it. -/
  | block {cs rest : List Char}
      (first : ∀ as bs, cs ++ ['*', '/'] = as ++ ['*', '/'] ++ bs → bs = []) :
      Trivia (['/', '*'] ++ cs ++ ['*', '/']) rest
  /-- A byte order mark. -/
  | byteOrderMark {rest : List Char} : Trivia ['\ufeff'] rest

/-- Holds of a span of a text where trivia stand. -/
def TriviaAt (cs : List Char) (s : Span) : Prop :=
  ∃ front piece back, cs = front ++ piece ++ back ∧ Trivia piece back ∧
    s = ⟨byteSize front, byteSize front + byteSize piece⟩

/-- Leading pieces of one text that take the same number of bytes are equal. -/
theorem eq_of_append_eq {as bs cs ds : List Char} (h : as ++ bs = cs ++ ds)
    (hsize : byteSize as = byteSize cs) : as = cs ∧ bs = ds := by
  have hleft := splitAt?_append as bs
  rw [hsize, h, splitAt?_append] at hleft
  obtain ⟨rfl, rfl⟩ := Prod.mk.inj (Option.some.inj hleft)
  exact ⟨rfl, rfl⟩

/-! ## Trivia are skipped -/

private theorem trivia_lineComment {mark : List Char} (hmark : mark = ['/', '/'] ∨ mark = ['#'])
    (cs : List Char) :
    Trivia (mark ++ cs.take (run (· != '\n') cs)) (cs.drop (run (· != '\n') cs)) := by
  obtain ⟨xs, rest, rfl, hlength, hxs, hrest⟩ := exists_run (· != '\n') cs
  rw [← hlength, List.take_left, List.drop_left]
  apply Trivia.line hmark
  · intro hmem
    simpa using hxs _ hmem
  · intro c hc
    simpa using run_eq_zero_iff.1 hrest c hc

private theorem trivia_stroke {cs : List Char} (h : (stroke cs).kind = none) :
    Trivia ('/' :: cs.take (stroke cs).more) (cs.drop (stroke cs).more) := by
  unfold stroke at h ⊢
  split at h
  · next cs =>
    have hrun : run (· != '\n') ('/' :: cs) = run (· != '\n') cs + 1 := by
      simp [run]
    simp only [lineComment, Piece.skipped, hrun]
    exact trivia_lineComment (.inl rfl) cs
  · next cs =>
    split at h
    · next inner hbefore =>
      obtain ⟨rest, rfl⟩ := exists_of_before? hbefore
      rw [← List.append_assoc] at hbefore
      have hlength : inner.length + 3 = ('*' :: (inner ++ ['*', '/'])).length := by
        simp
      rw [← List.append_assoc, ← List.cons_append, Piece.skipped, hlength, List.take_left,
        List.drop_left]
      apply Trivia.block
      intro as bs hsplit
      exact eq_nil_of_before? hbefore hsplit
    · exact absurd h (by simp [Piece.token])
  · exact absurd h (by simp [Piece.token])

/-- Words, numbers and literals are not skipped. -/
private theorem literal_kind (c : Char) (cs : List Char) :
    (word c cs).kind ≠ none ∧ (number cs).kind ≠ none ∧ (doubleQuote cs).kind ≠ none ∧
      (dollar cs).kind ≠ none ∧ (atSign cs).kind ≠ none ∧ (apostrophe cs).kind ≠ none := by
  have hstring : ∀ n cs, (string n cs).kind ≠ none := by
    intro n cs
    simp only [string]
    split <;> simp [Piece.token]
  have hraw : ∀ n quotes cs, (rawString n quotes cs).kind ≠ none := by
    intro n quotes cs
    simp only [rawString]
    split <;> simp [Piece.token]
  refine ⟨?_, ?_, ?_, ?_, ?_, ?_⟩
  · simp only [word, Piece.token]
    grind
  · simp only [number, Piece.token]
    grind
  · simp only [doubleQuote]
    split
    · exact hraw _ _ _
    · exact hstring _ _
  · fun_cases dollar cs
    · exact hraw _ _ _
    · simp [Piece.token]
    · simp [Piece.token]
    · exact hstring _ _
    · exact hstring _ _
    · simp [Piece.token]
  · simp only [atSign, verbatimString, Piece.token]
    grind
  · simp only [apostrophe, Piece.token]
    grind

/-- Only blanks, comments, directives and byte order marks are skipped. -/
private theorem skipped_cases {c : Char} {cs : List Char} (h : (munch c cs).kind = none) :
    isLayout c = true ∨ c = '/' ∧ munch c cs = stroke cs ∨ c = '#' ∧ munch c cs = lineComment cs ∨
      c = '\ufeff' ∧ munch c cs = .skipped 0 := by
  obtain ⟨hword, hnumber, hquote, hdollar, hat, hchar⟩ := literal_kind c cs
  by_cases hlayout : isLayout c = true
  · exact .inl hlayout
  · right
    unfold munch at h ⊢
    rw [if_neg hlayout] at h ⊢
    by_cases hstart : isWordStart c = true
    · rw [if_pos hstart] at h
      exact absurd h hword
    · rw [if_neg hstart] at h ⊢
      by_cases hdigit : c.isDigit = true
      · rw [if_pos hdigit] at h
        exact absurd h hnumber
      · rw [if_neg hdigit] at h ⊢
        split at h
        · exact .inl ⟨rfl, rfl⟩
        · exact .inr (.inl ⟨rfl, rfl⟩)
        · exact absurd h hquote
        · exact absurd h hdollar
        · exact absurd h hat
        · exact absurd h hchar
        · exact absurd h (by simp [Piece.token])
        · exact absurd h (by simp [Piece.token])
        · exact .inr (.inr ⟨rfl, rfl⟩)
        · exact absurd h (by simp [Piece.token])

/-- What is skipped is trivia. -/
theorem trivia_of_munch {c : Char} {cs : List Char} (h : (munch c cs).kind = none) :
    Trivia (c :: cs.take (munch c cs).more) (cs.drop (munch c cs).more) := by
  obtain hlayout | ⟨rfl, hstroke⟩ | ⟨rfl, hline⟩ | ⟨rfl, hmark⟩ := skipped_cases h
  · obtain ⟨xs, rest, rfl, hlength, hxs, hrest⟩ := exists_run isLayout cs
    have hmunch : munch c (xs ++ rest) = .skipped xs.length := by
      rw [munch_layout hlayout, ← hlength]
    rw [hmunch, Piece.skipped, List.take_left, List.drop_left]
    apply Trivia.blanks (by simp)
    · intro x hx
      rcases List.mem_cons.1 hx with rfl | hx
      · exact hlayout
      · exact hxs x hx
    · exact run_eq_zero_iff.1 hrest
  · rw [hstroke] at h ⊢
    exact trivia_stroke h
  · rw [hline]
    exact trivia_lineComment (.inr rfl) cs
  · rw [hmark]
    exact Trivia.byteOrderMark

/-- Trivia are skipped as one piece. -/
theorem munch_of_trivia {c : Char} {cs rest : List Char} (h : Trivia (c :: cs) rest) :
    munch c (cs ++ rest) = .skipped cs.length := by
  have hline : ∀ inner : List Char, '\n' ∉ inner → (∀ c, rest.head? = some c → c = '\n') →
      run (· != '\n') (inner ++ rest) = inner.length := by
    intro inner hinner hstop
    refine run_append_eq_iff.2 ⟨fun x hx => ?_, run_eq_zero_iff.2 fun x hx => ?_⟩
    · exact bne_iff_ne.2 fun hx' => hinner (hx' ▸ hx)
    · simp [hstop x hx]
  generalize hpiece : c :: cs = piece at h
  cases h with
  | blanks nonempty blank stop =>
    subst hpiece
    rw [munch_layout (blank c List.mem_cons_self)]
    apply congrArg Piece.skipped
    refine run_append_eq_iff.2 ⟨fun x hx => blank x (List.mem_cons_of_mem c hx), ?_⟩
    exact run_eq_zero_iff.2 stop
  | @line _ inner rest opening hinner stop =>
    rcases opening with rfl | rfl
    · obtain ⟨rfl, rfl⟩ := List.cons.inj hpiece
      have hrun : run (· != '\n') ('/' :: (inner ++ rest)) = inner.length + 1 := by
        rw [← hline inner hinner stop]
        simp [run]
      exact congrArg Piece.skipped hrun
    · obtain ⟨rfl, rfl⟩ := List.cons.inj hpiece
      exact congrArg Piece.skipped (hline _ hinner stop)
  | @block inner rest first =>
    obtain ⟨rfl, rfl⟩ := List.cons.inj hpiece
    have hbefore := before?_eq_some (by simp) first rest
    have hstroke : stroke ('*' :: (inner ++ ['*', '/'] ++ rest)) = .skipped (inner.length + 3) := by
      simp only [stroke, hbefore]
    exact hstroke.trans (by simp)
  | byteOrderMark =>
    obtain ⟨rfl, rfl⟩ := List.cons.inj hpiece
    have hword : isWordStart '\ufeff' = false := by decide +kernel
    exact munch_byteOrderMark (by decide) hword (by decide) _

/-! ## Every byte is covered once -/

/-- The spans of what is skipped among tiles that begin at an offset. -/
def gapsAt (offset : Nat) : List Tile → List Span
  | [] => []
  | t :: ts =>
    let next := offset + byteSize t.text
    if t.kind.isNone then ⟨offset, next⟩ :: gapsAt next ts else gapsAt next ts

/-- Says if a span covers the byte after an offset. -/
def covers (n : Nat) (s : Span) : Bool := s.start ≤ n && n < s.stop

/-- The bytes of tiles are covered once, by a token or by a gap. -/
theorem countP_covers (n offset : Nat) (ts : List Tile) :
    ((tokensAt offset ts).map (·.span) ++ gapsAt offset ts).countP (covers n) =
      if offset ≤ n ∧ n < offset + byteSize (textOf ts) then 1 else 0 := by
  induction ts generalizing offset with
  | nil =>
    rw [if_neg (by simp)]
    rfl
  | cons t ts ih =>
    have hrest := ih (offset + byteSize t.text)
    have hsplit : byteSize (textOf (t :: ts)) = byteSize t.text + byteSize (textOf ts) := by
      rw [textOf_cons, byteSize_append]
    have hhead : (covers n ⟨offset, offset + byteSize t.text⟩ = true) =
        (offset ≤ n ∧ n < offset + byteSize t.text) := by
      simp [covers]
    rw [List.countP_append] at hrest ⊢
    rw [hsplit, tokensAt, gapsAt]
    cases t.kind with
    | none =>
      simp only [Option.isNone_none, if_true, List.countP_cons, hhead]
      split <;> split <;> split at hrest <;> omega
    | some k =>
      simp only [Option.isNone_some, Bool.false_eq_true, if_false, List.map_cons,
        List.countP_cons, hhead]
      split <;> split <;> split at hrest <;> omega

/-- A tile that is skipped is trivia. -/
theorem Cut.trivia {t : Tile} {ts : List Tile} (h : Cut (t :: ts)) (hkind : t.kind = none) :
    Trivia t.text (textOf ts) := by
  obtain ⟨⟨c, more, htext, hmunch⟩, -⟩ := h.exists_munch
  have htrivia := trivia_of_munch ((congrArg Piece.kind hmunch).trans hkind)
  rwa [hmunch, List.take_left, List.drop_left, ← htext] at htrivia

/-- What is skipped in a text is trivia. -/
theorem triviaAt_of_mem_gapsAt {ts : List Tile} (hcut : Cut ts) {front : List Char} {s : Span}
    (h : s ∈ gapsAt (byteSize front) ts) : TriviaAt (front ++ textOf ts) s := by
  induction ts generalizing front with
  | nil => exact absurd h List.not_mem_nil
  | cons t ts ih =>
    have hrest := hcut.exists_munch.2
    have hjoin : front ++ textOf (t :: ts) = front ++ t.text ++ textOf ts := by
      rw [textOf_cons, List.append_assoc]
    rw [gapsAt, ← byteSize_append] at h
    rw [hjoin]
    split at h
    · next hkind =>
      rcases List.mem_cons.1 h with rfl | h
      · have htrivia := hcut.trivia (Option.isNone_iff_eq_none.1 hkind)
        exact ⟨front, t.text, textOf ts, rfl, htrivia, by rw [byteSize_append]⟩
      · exact ih hrest h
    · exact ih hrest h

theorem Cut.append_right {as bs : List Tile} (h : Cut (as ++ bs)) : Cut bs := by
  induction as with
  | nil => exact h
  | cons a as ih => exact ih h.exists_munch.2

/-- No token stands where trivia stand. -/
theorem not_triviaAt_of_mem_tokensAt {ts : List Tile} (hcut : Cut ts) {t : Token}
    (h : t ∈ tokensAt 0 ts) : ¬ TriviaAt (textOf ts) t.span := by
  rintro ⟨front, piece, back, htext, htrivia, hspan⟩
  obtain ⟨as, u, bs, rfl, hkind, -, hplace⟩ := exists_of_mem_tokensAt h
  obtain ⟨c, more, hu, hmunch⟩ := hcut.append_right.exists_munch.1
  rw [hspan, Nat.zero_add] at hplace
  obtain ⟨hstart, hstop⟩ := Span.mk.inj hplace
  rw [textOf_append, textOf_cons, List.append_assoc] at htext
  obtain ⟨rfl, hrest⟩ := eq_of_append_eq htext hstart.symm
  obtain ⟨rfl, rfl⟩ := eq_of_append_eq hrest (by omega)
  rw [hu] at htrivia
  have hskipped := munch_of_trivia htrivia
  rw [hmunch, hkind] at hskipped
  exact absurd (Piece.mk.inj hskipped).1 (by simp)

/-- Each byte of a text lies in exactly one of the spans of its tokens and of the trivia between them.
The tokens stand one after another, none of them empty, with each end between two characters, and the
token that marks the end follows them. -/
theorem read_covers (source : String) : ∃ ts gaps,
    read source = ts ++ [⟨.eof, .point (byteSize source.toList), ""⟩] ∧
      (∀ t ∈ ts, t.kind ≠ .eof ∧ t.span.start < t.span.stop ∧
        IsBoundary source.toList t.span.start ∧ IsBoundary source.toList t.span.stop ∧
        t.span.text source = t.text ∧ ¬ TriviaAt source.toList t.span) ∧
      ts.Pairwise (fun t u => t.span.stop ≤ u.span.start) ∧
      (∀ s ∈ gaps, TriviaAt source.toList s) ∧
      ∀ n < byteSize source.toList, (ts.map (·.span) ++ gaps).countP (covers n) = 1 := by
  have hcut := cut_tiles source.toList
  have hahead := ahead_ofSource source
  have hplaced := placed_ofSource source
  refine ⟨tokensAt 0 (tiles source.toList), gapsAt 0 (tiles source.toList), ?_, ?_, ?_, ?_, ?_⟩
  · rw [read, readFrom_eq, Nat.zero_add]
  · intro t ht
    rw [← hahead] at ht
    have hboundary := isBoundary_of_mem_ofSource ht
    refine ⟨kind_ne_eof_of_mem_ofSource ht, (hplaced.start_le ht).2, hboundary.1, hboundary.2,
      text_of_mem_ofSource ht, ?_⟩
    rw [hahead] at ht
    have := not_triviaAt_of_mem_tokensAt hcut ht
    rwa [textOf_tiles] at this
  · rw [← hahead]
    exact hplaced.pairwise
  · intro s hs
    have htrivia : TriviaAt ([] ++ textOf (tiles source.toList)) s := triviaAt_of_mem_gapsAt hcut hs
    rwa [List.nil_append, textOf_tiles] at htrivia
  · intro n hn
    rw [countP_covers, textOf_tiles, if_pos]
    omega

end SelfTypeLint.Token
