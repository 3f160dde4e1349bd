import SelfTypeLint.Proofs.Token.Restart
import SelfTypeLint.Proofs.Token.ValidNames

/-!
# Texts between tokens

A text is put between the tokens of another one, or in the place of some of them. The tokens in front of
the place are read as they were if what follows them now looks alike (`readFrom_front`): after an opening
angle, a comma or a closing bracket that is so for each text that a word or an opening bracket begins.
-/

namespace SelfTypeLint.Token

open Text

/-! ## What is read in front -/

variable {as bs : List Tile} {new : List Char}

private theorem head?_append_iff {d : Char} (h : new.head? = some d ↔ (textOf bs).head? = some d)
    (cs : List Char) : (cs ++ new).head? = some d ↔ (cs ++ textOf bs).head? = some d := by
  cases cs with
  | nil => exact h
  | cons c cs => rfl

/-- A piece is cut as it was in front of a text that looks alike. -/
theorem Cut.before {v : Tile} (hcut : Cut (v :: bs)) (herror : ∀ t ∈ v :: bs, t.kind ≠ some .error)
    (halike : ∀ z, v.text.getLast? = some z → Alike z (textOf bs) new) : Cut (v :: tiles new) := by
  obtain ⟨⟨c, more, htext, hmunch⟩, htail⟩ := hcut.exists_munch
  obtain ⟨k, text⟩ := v
  obtain rfl : text = c :: more := htext
  obtain ⟨hk, hrest⟩ := List.forall_mem_cons.1 herror
  have hz := List.getLast?_eq_some_getLast (List.cons_ne_nil c more)
  have halike := halike _ hz
  rw [← textOf_tiles new] at halike
  refine Cut.cons (munch_congr hmunch hk ?_ hz halike) (cut_tiles new)
  rintro rfl rfl
  exact htail.head?_ne_quote hmunch hk fun u hu => hrest u (List.mem_of_mem_head? hu)

/-- Pieces are cut as they were if the last one is and the texts after it agree on digits and quotes at
their front. -/
theorem Cut.front (hcut : Cut (as ++ bs)) (herror : ∀ t ∈ as ++ bs, t.kind ≠ some .error)
    (hlast : ∀ v, as.getLast? = some v → Cut (v :: tiles new))
    (hhead : ∀ d, d.isDigit = true ∨ d = '"' → (new.head? = some d ↔ (textOf bs).head? = some d)) :
    Cut (as ++ tiles new) := by
  induction as with
  | nil => exact cut_tiles new
  | cons a as ih =>
    cases as with
    | nil => exact hlast a rfl
    | cons b as =>
      have htail := hcut.exists_munch.2
      have hnew := ih htail (fun t ht => herror t (List.mem_cons_of_mem a ht)) hlast
      have halike : ∀ z, a.text.getLast? = some z →
          Alike z (textOf (b :: as ++ bs)) (textOf (b :: as ++ tiles new)) := by
        intro z _
        obtain ⟨⟨d, ds, hd, -⟩, -⟩ := htail.exists_munch
        rw [textOf_append, textOf_append, textOf_tiles, textOf_cons, hd, List.cons_append,
          List.cons_append, List.cons_append]
        exact .same fun _ e he => head?_append_iff (hhead e he) _
      have hfirst := Cut.before hcut herror halike
      rwa [hnew] at hfirst

/-- The tokens in front of a text are read as they were. -/
theorem readFrom_front (hcut : Cut (as ++ bs)) (herror : ∀ t ∈ as ++ bs, t.kind ≠ some .error)
    (hlast : ∀ v, as.getLast? = some v → Cut (v :: tiles new))
    (hhead : ∀ d, d.isDigit = true ∨ d = '"' → (new.head? = some d ↔ (textOf bs).head? = some d))
    (offset : Nat) : readFrom offset (textOf as ++ new) =
      tokensAt offset as ++ readFrom (offset + byteSize (textOf as)) new := by
  have htiles : tiles (textOf as ++ new) = as ++ tiles new := by
    have hfront := hcut.front herror hlast hhead
    rwa [Cut, textOf_append, textOf_tiles] at hfront
  rw [readFrom_eq, readFrom_eq, htiles, tokensAt_append, byteSize_append, List.append_assoc,
    Nat.add_assoc]

/-- In front of the character that stood there before the tokens are read as they were. Only a point or an
at sign would see more. -/
theorem readFrom_front_same {c : Char} {cs : List Char} (hcut : Cut (as ++ bs))
    (herror : ∀ t ∈ as ++ bs, t.kind ≠ some .error) (hbs : textOf bs = c :: cs) (hc : c ≠ '.' ∧ c ≠ '@')
    (more : List Char) (offset : Nat) : readFrom offset (textOf as ++ c :: more) =
      tokensAt offset as ++ readFrom (offset + byteSize (textOf as)) (c :: more) := by
  refine readFrom_front hcut herror (fun v hv => ?_) (fun d _ => ?_) offset
  · obtain ⟨ls, rfl⟩ := List.getLast?_eq_some_iff.1 hv
    rw [List.append_assoc, List.singleton_append] at hcut herror
    refine hcut.append_right.before (fun t ht => herror t (List.mem_append_right ls ht)) fun z _ => ?_
    rw [hbs]
    exact .same fun h => absurd h (by simp [hc])
  · rw [hbs, List.head?_cons, List.head?_cons]

/-! ## First and last characters -/

/-- A word is an identifier or a keyword. -/
theorem kind_of_word {c : Char} {cs : List Char} {k : TokenKind} (h : (word c cs).kind = some k) :
    k = .ident ∨ k.isKeyword = true := by
  simp only [word] at h
  split at h
  · next k' hk' =>
    split at h
    · obtain rfl := Option.some.inj h
      exact .inr (TokenKind.isKeyword_of_ofWord? hk')
    · exact .inl (Option.some.inj h).symm
  · exact .inl (Option.some.inj h).symm

theorem not_isKeyword_of_mark? {c : Char} {k : TokenKind} (h : mark? c = some k) :
    k.isKeyword = false := by
  unfold mark? at h
  split at h <;> cases h <;> rfl

/-- Only words are keywords, and a punctuation mark of one character is a piece of its own. -/
theorem munch_cases {c : Char} {cs : List Char} {k : TokenKind} {n : Nat}
    (h : munch c cs = ⟨some k, n⟩)
    (hk : k ∉ [.ident, .str, .char, .number, .op, .error, .colonColon, .arrow]) :
    k.isKeyword = true ∧ isWordStart c = true ∨ n = 0 ∧ mark? c = some k := by
  simp only [List.mem_cons, List.not_mem_nil, or_false, not_or] at hk
  obtain ⟨h1, h2, h3, h4, h5, h6, h7, h8⟩ := hk
  unfold munch at h
  split at h
  · simp [Piece.skipped] at h
  split at h
  · next hstart =>
    rcases kind_of_word (congrArg Piece.kind h) with rfl | hkeyword
    · exact absurd rfl h1
    · exact .inl ⟨hkeyword, hstart⟩
  right
  simp only [number, stroke, lineComment, doubleQuote, dollar, atSign, verbatimString, apostrophe,
    string, rawString, Piece.token, Piece.skipped] at h
  cases hmark : mark? c with
  | none =>
    rw [hmark] at h
    grind
  | some k' =>
    rw [hmark] at h
    grind

/-- The marks around and between types and behind a directive, and their characters. -/
def listMarks : List (TokenKind × Char) :=
  [(.lparen, '('), (.rbracket, ']'), (.lt, '<'), (.gt, '>'), (.comma, ','), (.semi, ';')]

/-- Such a mark is read by itself. -/
theorem mark_of_munch {c : Char} {cs : List Char} {k : TokenKind} {n : Nat}
    (h : munch c cs = ⟨some k, n⟩) (hk : k ∈ listMarks.map (·.1)) : n = 0 ∧ (k, c) ∈ listMarks := by
  simp only [listMarks, List.map_cons, List.map_nil, List.mem_cons, List.not_mem_nil, or_false] at hk
  rcases munch_cases h (by rcases hk with rfl | rfl | rfl | rfl | rfl | rfl <;> decide) with
    ⟨hkeyword, -⟩ | ⟨hn, hmark⟩
  · rcases hk with rfl | rfl | rfl | rfl | rfl | rfl <;> exact absurd hkeyword (by decide)
  · refine ⟨hn, ?_⟩
    unfold mark? at hmark
    rcases hk with rfl | rfl | rfl | rfl | rfl | rfl <;> split at hmark <;> simp_all [listMarks]

/-- Holds of the kinds of token that a type or a type parameter begins with. -/
def StartsItem (k : TokenKind) : Prop := k = .ident ∨ k.isKeyword = true ∨ k = .lparen

/-- What begins a type or a type parameter is a word, the sign of a verbatim one or a parenthesis. -/
theorem StartsItem.char {k : TokenKind} (hk : StartsItem k) {c : Char} {cs : List Char} {n : Nat}
    (h : munch c cs = ⟨some k, n⟩) : isWordStart c = true ∨ c = '@' ∨ c = '(' := by
  rcases hk with rfl | hkeyword | rfl
  · exact (start_of_munch_ident (congrArg Piece.kind h)).imp_right .inl
  · rcases munch_cases h (by cases k <;> simp_all [TokenKind.isKeyword]) with ⟨-, hstart⟩ | ⟨-, hmark⟩
    · exact .inl hstart
    · rw [not_isKeyword_of_mark? hmark] at hkeyword
      exact absurd hkeyword (by simp)
  · obtain ⟨-, hmark⟩ := mark_of_munch h (by simp [listMarks])
    simp only [listMarks, List.mem_cons, Prod.mk.injEq] at hmark
    simp_all

/-! ## Places between types -/

/-- Trivia that do not reach to the end of their line end in a character that no word goes on from,
unless they are a byte order mark. -/
theorem Trivia.free {piece : List Char} {c : Char} {rest : List Char} (h : Trivia piece (c :: rest))
    (hline : c ≠ '\n') : piece = ['\ufeff'] ∨
      ∀ z, piece.getLast? = some z → isWordPart z = false ∧ z ≠ '@' := by
  generalize htext : c :: rest = text at h
  cases h with
  | blanks _ blank _ =>
    refine .inr fun z hz => ?_
    have hz := blank z (List.mem_of_getLast? hz)
    simp only [isLayout, Bool.or_eq_true, beq_iff_eq] at hz
    rcases hz with (((rfl | rfl) | rfl) | rfl) | rfl <;> decide
  | line _ _ stop => exact absurd (stop c (by rw [← htext]; rfl)) hline
  | block _ =>
    refine .inr fun z hz => ?_
    rw [List.getLast?_append, List.getLast?_cons_cons, List.getLast?_singleton, Option.some_or] at hz
    obtain rfl := Option.some.inj hz
    decide
  | byteOrderMark => exact .inl rfl

/-- A byte order mark is passed over whatever follows it. -/
theorem cut_byteOrderMark (new : List Char) : Cut (⟨none, ['\ufeff']⟩ :: tiles new) := by
  have hstart : isWordStart '\ufeff' = false := by decide +kernel
  exact Cut.cons (munch_byteOrderMark (by decide) hstart (by decide) _) (cut_tiles new)

/-- A mark, and what is passed over behind it in the same line, is cut as it was in front of what opens a
piece. -/
theorem cut_last {as : List Tile} {v : Tile} {c : Char} {cs : List Char} (hcut : Cut (as ++ v :: bs))
    (herror : ∀ t ∈ v :: bs, t.kind ≠ some .error) (hbs : textOf bs = c :: cs) (hline : c ≠ '\n')
    {offset : Nat} {t : Token} (hlast : (tokensAt offset (as ++ [v])).getLast? = some t)
    (ht : t.kind ∈ listMarks.map (·.1)) {d : Char} (hd : Opens d) (more : List Char) :
    Cut (v :: tiles (d :: more)) := by
  have hlate := hcut.append_right
  have hfresh : (∀ z, v.text.getLast? = some z → isWordPart z = false ∧ z ≠ '@') →
      Cut (v :: tiles (d :: more)) := by
    refine fun hfree => hlate.before herror fun z hz => ?_
    rw [hbs]
    exact .fresh hline hd (hfree z hz).1 (hfree z hz).2
  cases hk : v.kind with
  | none =>
    have htrivia := hlate.trivia hk
    rw [hbs] at htrivia
    rcases htrivia.free hline with hmark | hfree
    · obtain ⟨k, text⟩ := v
      obtain rfl : k = none := hk
      obtain rfl : text = _ := hmark
      exact cut_byteOrderMark _
    · exact hfresh hfree
  | some k =>
    obtain ⟨⟨e, es, he, hmunch⟩, -⟩ := hlate.exists_munch
    have hkind : t.kind = k := by
      rw [tokensAt_append, tokensAt, hk] at hlast
      simp only [tokensAt_nil, List.getLast?_append, List.getLast?_singleton, Option.some_or,
        Option.some.injEq] at hlast
      rw [← hlast]
    rw [hk, ← hkind] at hmunch
    obtain ⟨hnil, hmark⟩ := mark_of_munch hmunch ht
    refine hfresh fun z hz => ?_
    rw [he, List.eq_nil_of_length_eq_zero hnil, List.getLast?_singleton, Option.some.injEq] at hz
    simp only [listMarks, List.mem_cons, Prod.mk.injEq, List.not_mem_nil, or_false] at hmark
    rw [← hz]
    rcases hmark with ⟨-, rfl⟩ | ⟨-, rfl⟩ | ⟨-, rfl⟩ | ⟨-, rfl⟩ | ⟨-, rfl⟩ | ⟨-, rfl⟩ <;> decide

/-- After a mark the tokens are read as they were if a word or an opening bracket is put in the place of
what begins a type or a type parameter. -/
theorem readFrom_behind_mark {u : Tile} (hcut : Cut (as ++ u :: bs))
    (herror : ∀ t ∈ as ++ u :: bs, t.kind ≠ some .error) {offset : Nat} {t : Token}
    (hlast : (tokensAt offset as).getLast? = some t) (ht : t.kind ∈ listMarks.map (·.1))
    {k : TokenKind} (hu : u.kind = some k) (hk : StartsItem k) {d : Char} (hd : Opens d)
    (more : List Char) : readFrom offset (textOf as ++ d :: more) =
      tokensAt offset as ++ readFrom (offset + byteSize (textOf as)) (d :: more) := by
  obtain ⟨⟨c, cs, hc, hmunch⟩, -⟩ := hcut.append_right.exists_munch
  rw [hu] at hmunch
  have hchar := hk.char hmunch
  have htext : textOf (u :: bs) = c :: (cs ++ textOf bs) := by rw [textOf_cons, hc]; rfl
  have hline : c ≠ '\n' := by
    rcases hchar with hstart | rfl | rfl
    · exact Opens.ne (.inl hstart) (by decide) (by decide)
    · decide
    · decide
  refine readFrom_front hcut herror (fun v hv => ?_) (fun e he => ?_) offset
  · obtain ⟨ls, rfl⟩ := List.getLast?_eq_some_iff.1 hv
    rw [List.append_assoc, List.singleton_append] at hcut herror
    exact cut_last hcut (fun x hx => herror x (List.mem_append_right _ hx)) htext hline hlast ht hd more
  · -- Neither text begins with a digit or a quote.
    have hnew : d ≠ e := by
      rcases hd with hstart | rfl
      · exact head_ne_of_start (.inl hstart) he
      · rintro rfl
        revert he
        decide
    have hold : c ≠ e := by
      rcases hchar with hstart | rfl | rfl
      · exact head_ne_of_start (.inl hstart) he
      · exact head_ne_of_start (.inr rfl) he
      · rintro rfl
        revert he
        decide
    rw [htext]
    simp [hnew, hold]

/-! ## What is put between -/

/-- Marks that are tokens wherever they stand. -/
def loneMarks : List (TokenKind × Char) :=
  [(.dot, '.'), (.semi, ';'), (.lbracket, '['), (.rbracket, ']'), (.lt, '<'), (.gt, '>'), (.comma, ',')]

theorem readFrom_mark {k : TokenKind} {c : Char} (h : (k, c) ∈ loneMarks) (rest : List Char)
    (offset : Nat) : readFrom offset (c :: rest) =
      ⟨k, ⟨offset, offset + 1⟩, String.ofList [c]⟩ :: readFrom (offset + 1) rest := by
  have hmunch : munch c ([] ++ rest) = ⟨some k, 0⟩ ∧ byteSize [c] = 1 := by
    simp only [loneMarks, List.mem_cons, Prod.mk.injEq, List.not_mem_nil, or_false] at h
    rcases h with ⟨rfl, rfl⟩ | ⟨rfl, rfl⟩ | ⟨rfl, rfl⟩ | ⟨rfl, rfl⟩ | ⟨rfl, rfl⟩ | ⟨rfl, rfl⟩ | ⟨rfl, rfl⟩
    all_goals exact ⟨munch_mark (by decide) (by decide) (by decide) (by decide), rfl⟩
  have hread := readFrom_token hmunch.1 offset
  rwa [hmunch.2] at hread

/-- Holds of a piece that is read as some tokens in front of a text, without errors. -/
structure Reads (offset : Nat) (piece rest : List Char) (ts : List Token) : Prop where
  read : readFrom offset (piece ++ rest) = ts ++ readFrom (offset + byteSize piece) rest
  clean : ∀ t ∈ ts, t.kind ≠ .error

theorem Reads.append {offset : Nat} {piece more rest : List Char} {ts us : List Token}
    (h : Reads offset piece (more ++ rest) ts) (h' : Reads (offset + byteSize piece) more rest us) :
    Reads offset (piece ++ more) rest (ts ++ us) where
  read := by rw [List.append_assoc, h.read, h'.read, byteSize_append, Nat.add_assoc, List.append_assoc]
  clean := List.forall_mem_append.2 ⟨h.clean, h'.clean⟩

theorem exists_reads_mark {k : TokenKind} {c : Char} (h : (k, c) ∈ loneMarks) (offset : Nat)
    (rest : List Char) :
    ∃ t : Token, t.kind = k ∧ t.text = String.ofList [c] ∧ Reads offset [c] rest [t] := by
  refine ⟨⟨k, ⟨offset, offset + 1⟩, String.ofList [c]⟩, rfl, rfl, ?_, ?_⟩
  · have hsize : byteSize [c] = 1 := by
      simp only [loneMarks, List.mem_cons, Prod.mk.injEq, List.not_mem_nil, or_false] at h
      rcases h with ⟨-, rfl⟩ | ⟨-, rfl⟩ | ⟨-, rfl⟩ | ⟨-, rfl⟩ | ⟨-, rfl⟩ | ⟨-, rfl⟩ | ⟨-, rfl⟩ <;> rfl
    rw [hsize]
    exact readFrom_mark h rest offset
  · have hkind : ∀ entry ∈ loneMarks, entry.1 ≠ .error := by decide
    exact List.forall_mem_singleton.2 (hkind _ h)

/-- Pieces are read as their tokens wherever they stand. -/
theorem reads_of_cut (hcut : Cut (as ++ bs)) (herror : ∀ t ∈ as, t.kind ≠ some .error) (offset : Nat) :
    Reads offset (textOf as) (textOf bs) (tokensAt offset as) where
  read := by
    rw [readFrom_eq, readFrom_eq, ← textOf_append, show tiles (textOf (as ++ bs)) = as ++ bs from hcut,
      show tiles (textOf bs) = bs from hcut.append_right, tokensAt_append, textOf_append,
      byteSize_append, List.append_assoc, Nat.add_assoc]
  clean := by
    intro t ht hk
    obtain ⟨us, u, vs, rfl, hu, -, -⟩ := exists_of_mem_tokensAt ht
    exact herror u (by simp) (hu.trans (congrArg some hk))

theorem reads_plain {w : String} (h : IsPlainWord w) (offset : Nat) {rest : List Char}
    (hrest : run isWordPart rest = 0) : Reads offset w.toList rest [identAt offset w] :=
  ⟨readFrom_plain h offset hrest, by simp [identAt]⟩

theorem reads_blanks {blanks : List Char} (h : ∀ c ∈ blanks, isLayout c = true) (offset : Nat)
    (rest : List Char) : Reads offset blanks rest [] where
  read := by
    induction blanks generalizing offset with
    | nil => rfl
    | cons c blanks ih =>
      obtain ⟨hc, hblanks⟩ := List.forall_mem_cons.1 h
      rw [List.cons_append, readFrom_blank hc, ih hblanks, byteSize_cons, Nat.add_assoc]
  clean := by simp

/-- What is passed over begins with a character that no word goes on with, unless it is a byte order
mark. -/
theorem Trivia.head {piece rest : List Char} (h : Trivia piece rest) :
    piece = ['\ufeff'] ∨ ∃ c more, piece = c :: more ∧ isWordPart c = false := by
  cases h with
  | @blanks cs _ nonempty blank _ =>
    obtain ⟨c, more, rfl⟩ := List.exists_cons_of_ne_nil nonempty
    refine .inr ⟨c, more, rfl, ?_⟩
    have hc := blank c List.mem_cons_self
    simp only [isLayout, Bool.or_eq_true, beq_iff_eq] at hc
    rcases hc with (((rfl | rfl) | rfl) | rfl) | rfl <;> decide
  | line opening _ _ => rcases opening with rfl | rfl <;> exact .inr ⟨_, _, rfl, by decide⟩
  | block _ => exact .inr ⟨_, _, rfl, by decide⟩
  | byteOrderMark => exact .inl rfl

/-- In front of a mark or a star no word goes on, up to byte order marks before it. -/
theorem exists_byteOrderMarks (hcut : Cut bs) {offset : Nat} {t : Token} {ts : List Token}
    (hfirst : tokensAt offset bs = t :: ts) (ht : t.kind ∈ listMarks.map (·.1) ∨ t.text = "*") :
    ∃ gs cs, bs = gs ++ cs ∧ (∀ g ∈ gs, g = ⟨none, ['\ufeff']⟩) ∧ run isWordPart (textOf cs) = 0 := by
  induction bs generalizing offset with
  | nil => exact absurd hfirst (by simp)
  | cons v bs ih =>
    obtain ⟨⟨c, more, hc, hmunch⟩, htail⟩ := hcut.exists_munch
    have hstop : isWordPart c = false → run isWordPart (textOf (v :: bs)) = 0 := by
      intro hpart
      rw [run_eq_zero_iff, textOf_cons, hc]
      rintro _ ⟨⟩
      exact hpart
    cases hk : v.kind with
    | none =>
      rcases (hcut.trivia hk).head with hmark | ⟨d, ds, hd, hpart⟩
      · rw [tokensAt, hk] at hfirst
        obtain ⟨gs, cs, rfl, hgs, hcs⟩ := ih htail hfirst
        refine ⟨v :: gs, cs, rfl, List.forall_mem_cons.2 ⟨?_, hgs⟩, hcs⟩
        obtain ⟨k, text⟩ := v
        obtain rfl : k = none := hk
        obtain rfl : text = _ := hmark
        rfl
      · obtain ⟨rfl, -⟩ := List.cons.inj (hc.symm.trans hd)
        exact ⟨[], v :: bs, rfl, by simp, hstop hpart⟩
    | some k =>
      refine ⟨[], v :: bs, rfl, by simp, hstop ?_⟩
      rw [tokensAt, hk] at hfirst
      obtain ⟨rfl, -⟩ := List.cons.inj hfirst
      rcases ht with ht | ht
      · rw [hk] at hmunch
        obtain ⟨-, hmark⟩ := mark_of_munch hmunch ht
        simp only [listMarks, List.mem_cons, Prod.mk.injEq, List.not_mem_nil, or_false] at hmark
        rcases hmark with ⟨-, rfl⟩ | ⟨-, rfl⟩ | ⟨-, rfl⟩ | ⟨-, rfl⟩ | ⟨-, rfl⟩ | ⟨-, rfl⟩ <;> decide
      · dsimp only at ht
        have hstar : c :: more = ['*'] := by rw [← hc, ← String.toList_ofList (l := v.text), ht]; rfl
        obtain ⟨rfl, -⟩ := List.cons.inj hstar
        decide

/-- No keyword holds a byte order mark. -/
theorem ofWord?_of_byteOrderMark {w : String} (h : '\ufeff' ∈ w.toList) :
    TokenKind.ofWord? w = none := by
  have hwords : ∀ entry ∈ TokenKind.words, ∀ w ∈ entry.2, '\ufeff' ∉ w.toList := by decide
  cases hw : TokenKind.ofWord? w with
  | none => rfl
  | some k =>
    obtain ⟨entry, hfind, -⟩ := Option.map_eq_some_iff.1 hw
    have hmem := List.find?_some hfind
    exact absurd h (hwords entry (List.mem_of_find?_eq_some hfind) w (by simpa using hmem))

/-- A plain word with byte order marks behind it is plain. -/
theorem IsPlainWord.append {w : String} (h : IsPlainWord w) {cs : List Char}
    (hcs : ∀ c ∈ cs, c = '\ufeff') : IsPlainWord (String.ofList (w.toList ++ cs)) where
  shape := by
    have hpart : isWordPart '\ufeff' = true := by decide +kernel
    obtain ⟨c, more, hshape, hstart, hparts⟩ := h.shape
    refine ⟨c, more ++ cs, by rw [String.toList_ofList, hshape]; rfl, hstart, fun x hx => ?_⟩
    rcases List.mem_append.1 hx with hx | hx
    · exact hparts x hx
    · exact hcs x hx ▸ hpart
  free := by
    cases cs with
    | nil => rw [List.append_nil, String.ofList_toList, h.free]
    | cons c cs =>
      apply ofWord?_of_byteOrderMark
      rw [String.toList_ofList, hcs c List.mem_cons_self]
      simp

/-- A plain word in front of a mark or a star is read as an identifier. Byte order marks between them
become part of it. -/
theorem exists_ident_of_plain {w : String} (hw : IsPlainWord w) (hcut : Cut bs) {n : Nat} {t : Token}
    {ts : List Token} (hfirst : tokensAt n bs = t :: ts)
    (ht : t.kind ∈ listMarks.map (·.1) ∨ t.text = "*") (offset : Nat) :
    ∃ i : Token, i.kind = .ident ∧ readFrom offset (w.toList ++ textOf bs) =
      i :: readFrom (offset + byteSize w.toList) (textOf bs) := by
  obtain ⟨gs, cs, rfl, hgs, hcs⟩ := exists_byteOrderMarks hcut hfirst ht
  have hmarks : ∀ c ∈ textOf gs, c = '\ufeff' := by
    intro c hc
    obtain ⟨g, hg, hc⟩ := List.mem_flatMap.1 hc
    rw [hgs g hg] at hc
    exact List.mem_singleton.1 hc
  have hskipped := triviaRun_of_cut hcut fun g hg => by rw [hgs g hg]
  have hread := readFrom_plain (hw.append hmarks) offset hcs
  rw [String.toList_ofList, byteSize_append, ← Nat.add_assoc] at hread
  refine ⟨identAt offset (String.ofList (w.toList ++ textOf gs)), rfl, ?_⟩
  rw [textOf_append, ← List.append_assoc, hread, hskipped.readFrom]

end SelfTypeLint.Token
