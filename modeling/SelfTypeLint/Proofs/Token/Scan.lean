import SelfTypeLint.Proofs.Text.Search
import SelfTypeLint.Proofs.Token.Tiles

/-!
# Scanning

Facts about the scans that reading tokens is made of: runs of characters and closed literals. No piece
reaches past the end of the text (`more_munch_le`).
-/

namespace SelfTypeLint.Token

open Text

/-! ## Runs -/

theorem run_append {p : Char → Bool} {xs : List Char} (h : ∀ x ∈ xs, p x = true) (rest : List Char) :
    run p (xs ++ rest) = xs.length + run p rest := by
  rw [run, List.takeWhile_append_of_pos h, List.length_append]
  rfl

theorem run_eq_zero_iff {p : Char → Bool} {cs : List Char} :
    run p cs = 0 ↔ ∀ c, cs.head? = some c → p c = false := by
  cases cs with
  | nil => simp [run]
  | cons c cs =>
    by_cases hp : p c = true
    · simp [run, hp]
    · simp [run, hp]

/-- A run is made of such characters. -/
theorem all_of_run_eq {p : Char → Bool} {xs rest : List Char}
    (h : run p (xs ++ rest) = xs.length) : ∀ x ∈ xs, p x = true := by
  induction xs with
  | nil => simp
  | cons x xs ih =>
    rw [run, List.cons_append, List.takeWhile_cons] at h
    split at h
    · next hp =>
      have hxs := ih (Nat.succ.inj h)
      intro y hy
      rcases List.mem_cons.1 hy with rfl | hy
      · exact hp
      · exact hxs y hy
    · simp at h

theorem run_append_eq_iff {p : Char → Bool} {xs rest : List Char} :
    run p (xs ++ rest) = xs.length ↔ (∀ x ∈ xs, p x = true) ∧ run p rest = 0 := by
  constructor
  · intro h
    have hall := all_of_run_eq h
    rw [run_append hall] at h
    exact ⟨hall, by omega⟩
  · rintro ⟨hall, hrest⟩
    rw [run_append hall, hrest, Nat.add_zero]

/-- A text begins with its run. -/
theorem exists_run (p : Char → Bool) (cs : List Char) : ∃ xs rest, cs = xs ++ rest ∧
    xs.length = run p cs ∧ (∀ x ∈ xs, p x = true) ∧ run p rest = 0 := by
  refine ⟨cs.takeWhile p, cs.dropWhile p, List.takeWhile_append_dropWhile.symm, rfl, ?_, ?_⟩
  · intro x hx
    exact List.all_eq_true.1 List.all_takeWhile x hx
  · rw [run_eq_zero_iff]
    intro c hc
    have := List.head?_dropWhile_not p cs
    rw [hc] at this
    exact this

/-! ## Closed literals -/

/-- The elements of a literal end at a quote, whatever follows it. -/
theorem elements_closed {quote : Char} (hq : quote ≠ '\\') (rest rest' : List Char) :
    ∀ xs : List Char, elements quote (xs ++ quote :: rest) = xs.length →
      elements quote (xs ++ quote :: rest') = xs.length
  | [], _ => by
    cases rest' <;> simp [elements, hq]
  | [c], h => by
    have hzero : ∀ rest, elements quote (quote :: rest) = 0 := by
      intro rest
      cases rest <;> simp [elements, hq]
    simp only [List.cons_append, List.nil_append, elements, hzero, List.length_singleton] at h ⊢
    grind
  | c :: d :: xs, h => by
    have hshort := elements_closed hq rest rest' xs
    have hlong := elements_closed hq rest rest' (d :: xs)
    simp only [List.cons_append, elements, List.length_cons] at h hlong ⊢
    grind

theorem lt_length_of_head?_drop {n : Nat} {cs : List Char} {c : Char}
    (h : (cs.drop n).head? = some c) : n < cs.length := by
  rw [List.head?_drop] at h
  exact (List.getElem?_eq_some_iff.1 h).1

/-- A literal on one line that is closed ends at its first quote after the elements. -/
theorem exists_elements {quote : Char} {cs : List Char}
    (h : (cs.drop (elements quote cs)).head? = some quote) :
    ∃ xs rest, cs = xs ++ quote :: rest ∧ xs.length = elements quote cs := by
  obtain ⟨rest, hrest⟩ := List.head?_eq_some_iff.1 h
  refine ⟨cs.take (elements quote cs), rest, ?_, ?_⟩
  · rw [← hrest, List.take_append_drop]
  · have hlt := lt_length_of_head?_drop h
    rw [List.length_take]
    omega

/-- The elements of a verbatim string end at a quote that no other follows. -/
theorem verbatimElements_closed (rest : List Char) {rest' : List Char}
    (hrest : rest'.head? ≠ some '"') :
    ∀ xs : List Char, verbatimElements (xs ++ '"' :: rest) = xs.length →
      verbatimElements (xs ++ '"' :: rest') = xs.length
  | [], _ => by
    cases rest' with
    | nil => simp [verbatimElements]
    | cons d rest' => simpa [verbatimElements] using hrest
  | [c], h => by
    have hzero : verbatimElements ('"' :: rest') = 0 :=
      verbatimElements_closed [] hrest [] rfl
    simp only [List.cons_append, List.nil_append, verbatimElements, hzero, List.length_singleton]
      at h ⊢
    grind
  | c :: d :: xs, h => by
    have hshort := verbatimElements_closed rest hrest xs
    have hlong := verbatimElements_closed rest hrest (d :: xs)
    simp only [List.cons_append, verbatimElements, List.length_cons] at h hlong ⊢
    grind

private theorem head_ne_of_drop_verbatimElements {rest : List Char} :
    ∀ cs : List Char, cs.drop (verbatimElements cs) = '"' :: rest → rest.head? ≠ some '"'
  | [], h => by simp at h
  | [c], h => by
    simp only [verbatimElements] at h
    split at h
    · simp only [List.drop_zero, List.cons.injEq] at h
      simp [h.2.symm]
    · simp at h
  | c :: d :: cs, h => by
    simp only [verbatimElements] at h
    split at h
    · split at h
      · exact head_ne_of_drop_verbatimElements cs (by simpa using h)
      · next hd =>
        simp only [List.drop_zero, List.cons.injEq] at h
        rw [← h.2]
        simpa using hd
    · exact head_ne_of_drop_verbatimElements (d :: cs) (by simpa using h)

/-- After a verbatim string that is closed no quote follows. -/
theorem exists_verbatimElements {cs : List Char}
    (h : (cs.drop (verbatimElements cs)).head? = some '"') :
    ∃ xs rest, cs = xs ++ '"' :: rest ∧ xs.length = verbatimElements cs ∧
      rest.head? ≠ some '"' := by
  obtain ⟨rest, hrest⟩ := List.head?_eq_some_iff.1 h
  refine ⟨cs.take (verbatimElements cs), rest, ?_, ?_,
    head_ne_of_drop_verbatimElements cs hrest⟩
  · rw [← hrest, List.take_append_drop]
  · have hlt := lt_length_of_head?_drop h
    rw [List.length_take]
    omega

/-! ## Words and numbers -/

variable {c : Char} {more rest : List Char}

theorem word_append (h : run isWordPart (more ++ rest) = more.length) :
    word c (more ++ rest) =
      match TokenKind.ofWord? (String.ofList (c :: more)) with
      | some kind =>
        if rest.head?.all endsKeyword then .token kind more.length else .token .ident more.length
      | none => .token .ident more.length := by
  cases hkind : TokenKind.ofWord? (String.ofList (c :: more)) with
  | none => simp only [word, h, List.take_left, hkind]
  | some kind => simp only [word, h, List.take_left, List.drop_left, hkind]

theorem more_word (c : Char) (cs : List Char) : (word c cs).more = run isWordPart cs := by
  rw [word]
  split
  · split <;> rfl
  · rfl

theorem isNumberPart_of_isDigit (h : c.isDigit = true) : isNumberPart c = true := by
  simp [isNumberPart, Char.isAlphanum, h]

/-- How many characters of a number follow its first run: none, or a point, a digit and a run. -/
def fraction : List Char → Nat
  | '.' :: d :: r => if d.isDigit then 2 + run isNumberPart r else 0
  | _ => 0

theorem fraction_eq_zero {ys : List Char}
    (h : ∀ d r, ys = '.' :: d :: r → d.isDigit = false) : fraction ys = 0 := by
  unfold fraction
  split
  · next d r => simp [h d r rfl]
  · rfl

theorem number_append {xs ys : List Char} (hxs : ∀ x ∈ xs, isNumberPart x = true)
    (hys : run isNumberPart ys = 0) :
    number (xs ++ ys) = .token .number (xs.length + fraction ys) := by
  have hrun : run isNumberPart (xs ++ ys) = xs.length := run_append_eq_iff.2 ⟨hxs, hys⟩
  simp only [number, hrun, List.drop_left]
  split
  · next d r =>
    split
    · next hd => rw [fraction, if_pos hd, Nat.add_assoc]
    · next hd => rw [fraction, if_neg hd, Nat.add_zero]
  · next hno => rw [fraction_eq_zero fun d r hy => absurd hy (hno d r), Nat.add_zero]

/-! ## Lengths -/

theorem run_le (p : Char → Bool) (cs : List Char) : run p cs ≤ cs.length :=
  (List.takeWhile_sublist p).length_le

theorem elements_le (quote : Char) : ∀ cs : List Char, elements quote cs ≤ cs.length
  | [] => Nat.le_refl _
  | [c] => by
    rw [elements]
    split <;> simp
  | c :: d :: rest => by
    have hshort := elements_le quote rest
    have hlong := elements_le quote (d :: rest)
    simp only [elements, List.length_cons] at hlong ⊢
    grind

theorem verbatimElements_le : ∀ cs : List Char, verbatimElements cs ≤ cs.length
  | [] => Nat.le_refl _
  | [c] => by
    rw [verbatimElements]
    split <;> simp
  | c :: d :: rest => by
    have hshort := verbatimElements_le rest
    have hlong := verbatimElements_le (d :: rest)
    simp only [verbatimElements, List.length_cons] at hlong ⊢
    grind

theorem string_le_length (n : Nat) (cs : List Char) : (string n cs).more ≤ n + cs.length := by
  have := elements_le '"' cs
  simp only [string]
  split
  · next h =>
    have := lt_length_of_head?_drop h
    simp only [Piece.token]
    omega
  · simp only [Piece.token]
    omega

theorem rawString_le_length (n q : Nat) (cs : List Char) :
    (rawString n q cs).more ≤ n + cs.length := by
  rw [rawString]
  split
  · next inner h =>
    have := before?_le h
    rw [List.length_replicate] at this
    simp only [Piece.token]
    omega
  · simp only [Piece.token]
    omega

theorem fraction_le (ys : List Char) : fraction ys ≤ ys.length := by
  fun_cases fraction ys
  · next d r _ =>
    have := run_le isNumberPart r
    simp only [List.length_cons]
    omega
  · exact Nat.zero_le _
  · exact Nat.zero_le _

theorem doubleQuote_le (cs : List Char) : (doubleQuote cs).more ≤ cs.length := by
  have hrun := run_le (· == '"') cs
  fun_cases doubleQuote cs
  · next quotes _ =>
    have hraw := rawString_le_length quotes (quotes + 1) (cs.drop quotes)
    have hle : quotes ≤ cs.length := hrun
    rw [List.length_drop] at hraw
    omega
  · have := string_le_length 0 cs
    omega

theorem stroke_le (cs : List Char) : (stroke cs).more ≤ cs.length := by
  fun_cases stroke cs
  · exact run_le _ _
  · next h =>
    have := before?_le h
    simp only [Piece.skipped, List.length_cons, List.length_nil] at this ⊢
    omega
  · simp [Piece.token]
  · exact Nat.zero_le _

theorem atSign_le (cs : List Char) : (atSign cs).more ≤ cs.length := by
  fun_cases atSign cs
  · next rest =>
    have := verbatimElements_le rest
    simp only [verbatimString]
    split
    · next h =>
      have := lt_length_of_head?_drop h
      simp only [Piece.token, List.length_cons]
      omega
    · simp only [Piece.token, List.length_cons]
      omega
  · next c rest _ _ =>
    have := run_le isWordPart rest
    simp only [Piece.token, List.length_cons]
    omega
  · exact Nat.zero_le _
  · exact Nat.zero_le _

theorem dollar_le (cs : List Char) : (dollar cs).more ≤ cs.length := by
  have hdollars := run_le (· == '$') cs
  fun_cases dollar cs
  · next dollars after quotes _ =>
    have hraw := rawString_le_length (dollars + quotes) quotes (after.drop quotes)
    have hquotes : quotes ≤ after.length := run_le _ _
    have hafter : after.length = cs.length - dollars := List.length_drop
    have hle : dollars ≤ cs.length := hdollars
    rw [List.length_drop] at hraw
    omega
  · exact hdollars
  · exact Nat.zero_le _
  · next rest _ _ _ _ _ _ =>
    have := string_le_length 1 rest
    rw [List.length_cons]
    omega
  · next rest _ _ _ _ _ =>
    have := string_le_length 2 rest
    rw [List.length_cons, List.length_cons]
    omega
  · exact Nat.zero_le _

theorem apostrophe_le (cs : List Char) : (apostrophe cs).more ≤ cs.length := by
  have := elements_le '\'' cs
  simp only [apostrophe]
  split
  · next h =>
    have := lt_length_of_head?_drop h.2
    simp only [Piece.token]
    omega
  · simp only [Piece.token]
    omega

/-- A piece lies in the text. -/
theorem more_munch_le (c : Char) (cs : List Char) : (munch c cs).more ≤ cs.length := by
  fun_cases munch c cs
  · exact run_le _ _
  · rw [more_word]; exact run_le _ _
  · obtain ⟨xs, ys, rfl, -, hxs, hys⟩ := exists_run isNumberPart cs
    have := fraction_le ys
    rw [number_append hxs hys, List.length_append]
    simp only [Piece.token]
    omega
  · exact stroke_le _
  · exact run_le _ _
  · exact doubleQuote_le _
  · exact dollar_le _
  · exact atSign_le _
  · exact apostrophe_le _
  · simp [Piece.token]
  · simp [Piece.token]
  · exact Nat.zero_le _
  · exact Nat.zero_le _

end SelfTypeLint.Token
