import SelfTypeLint.Proofs.Token.Scan

/-!
# Lookahead

How much of the text after a piece its reading sees: mostly the next character, sometimes the second.
`munch_congr` says that a piece is read alike where the text after it is exchanged for one that looks
`Alike`.
-/

namespace SelfTypeLint.Token

open Text

/-! ## Texts that look alike -/

/-- Holds of characters that can begin a new piece after most others. -/
def Opens (c : Char) : Prop := isWordStart c = true ∨ c = '['

theorem Opens.ne {c x : Char} (h : Opens c) (hword : isWordStart x = false) (hx : x ≠ '[') :
    c ≠ x := by
  rintro rfl
  rcases h with h | h
  · simp [h] at hword
  · exact hx h

/-- Holds of texts that look alike after a piece with the last character `z`: both are empty, or they
begin with the same character, or the second opens a piece that `z` does not join. After a point or an
at sign digits and quotes have to agree too. -/
inductive Alike (z : Char) : List Char → List Char → Prop
  | nil : Alike z [] []
  | same {c : Char} {r r' : List Char} (second : c = '.' ∨ c = '@' →
      ∀ d, d.isDigit = true ∨ d = '"' → (r'.head? = some d ↔ r.head? = some d)) :
      Alike z (c :: r) (c :: r')
  | fresh {c d : Char} {r r' : List Char} (old : c ≠ '\n') (opens : Opens d)
      (part : isWordPart z = false) (sign : z ≠ '@') : Alike z (c :: r) (d :: r')

variable {z c : Char} {more rest rest' : List Char} {k : Option TokenKind}

theorem Alike.head?_eq (h : Alike z rest rest') (hz : isWordPart z = true ∨ z = '@') :
    rest'.head? = rest.head? := by
  cases h with
  | nil => rfl
  | same _ => rfl
  | fresh _ _ part sign => simp [part, sign] at hz

/-- Characters that open no piece are next in both texts or in none. -/
theorem Alike.head?_ne (h : Alike z rest rest') {x : Char} (hword : isWordStart x = false)
    (hx : x ≠ '[') (hne : rest.head? ≠ some x) : rest'.head? ≠ some x := by
  cases h with
  | nil => exact hne
  | same _ => exact hne
  | fresh _ opens _ _ => simpa using opens.ne hword hx

theorem Alike.run_eq_zero (h : Alike z rest rest') {p : Char → Bool}
    (hp : ∀ d, Opens d → p d = false) (hrun : run p rest = 0) : run p rest' = 0 := by
  rw [run_eq_zero_iff] at hrun ⊢
  cases h with
  | nil => exact hrun
  | same _ => exact hrun
  | fresh _ opens _ _ =>
    intro c hc
    obtain rfl := Option.some.inj hc
    exact hp _ opens

theorem run_eq_zero_of_head? {p : Char → Bool} (h : rest'.head? = rest.head?)
    (hrun : run p rest = 0) : run p rest' = 0 := by
  rw [run_eq_zero_iff] at hrun ⊢
  rwa [h]

/-- A run to the end of the line ends there in both texts. -/
theorem Alike.lineEnd (h : Alike z rest rest') (hrun : run (· != '\n') rest = 0) :
    run (· != '\n') rest' = 0 := by
  rw [run_eq_zero_iff] at hrun ⊢
  cases h with
  | nil => exact hrun
  | same _ => exact hrun
  | fresh old _ _ _ => exact absurd (hrun _ rfl) (by simpa using old)

/-! ## Words and numbers -/

theorem word_congr (h : word c (more ++ rest) = ⟨k, more.length⟩) (hc : isWordStart c = true)
    (hz : (c :: more).getLast? = some z) (ha : Alike z rest rest') :
    word c (more ++ rest') = ⟨k, more.length⟩ := by
  have hrun : run isWordPart (more ++ rest) = more.length := by rw [← more_word c, h]
  obtain ⟨hall, hrest⟩ := run_append_eq_iff.1 hrun
  have hpart : isWordPart z = true := by
    rcases List.mem_cons.1 (List.mem_of_getLast? hz) with rfl | hz
    · exact isWordPart_of_isWordStart hc
    · exact hall z hz
  have hhead := ha.head?_eq (.inl hpart)
  have hrun' := run_append_eq_iff.2 ⟨hall, run_eq_zero_of_head? hhead hrest⟩
  rw [word_append hrun] at h
  rw [word_append hrun', hhead]
  exact h

/-- The letters among the first characters. -/
theorem isAlpha_iff : c.isAlpha = true ↔
    (65 ≤ c.toNat ∧ c.toNat ≤ 90) ∨ (97 ≤ c.toNat ∧ c.toNat ≤ 122) := by
  have halpha : c.isAlpha = (c.isUpper || c.isLower) := rfl
  have hupper : c.isUpper = decide (65 ≤ c.val ∧ c.val ≤ 90) := rfl
  have hlower : c.isLower = (decide (97 ≤ c.val) && decide (c.val ≤ 122)) := rfl
  simp only [halpha, hupper, hlower, Bool.or_eq_true, Bool.and_eq_true, decide_eq_true_eq,
    UInt32.le_iff_toNat_le]
  rfl

theorem isDigit_iff : c.isDigit = true ↔ 48 ≤ c.toNat ∧ c.toNat ≤ 57 := by
  have hdigit : c.isDigit = (decide (48 ≤ c.val) && decide (c.val ≤ 57)) := rfl
  simp only [hdigit, Bool.and_eq_true, decide_eq_true_eq, UInt32.le_iff_toNat_le]
  rfl

theorem isWordPart_of_isNumberPart (h : isNumberPart c = true) : isWordPart c = true := by
  have hlow : c.toNat < 128 := by
    simp only [isNumberPart, Char.isAlphanum, Bool.or_eq_true, isAlpha_iff, isDigit_iff,
      beq_iff_eq] at h
    rcases h with (h | h) | rfl
    · omega
    · omega
    · decide
  rw [isWordPart, if_pos hlow]
  exact h

theorem number_congr (h : number (more ++ rest) = ⟨k, more.length⟩) (hc : c.isDigit = true)
    (hz : (c :: more).getLast? = some z) (ha : Alike z rest rest') :
    number (more ++ rest') = ⟨k, more.length⟩ := by
  obtain ⟨xs, ys, hsplit, -, hxs, hys⟩ := exists_run isNumberPart (more ++ rest)
  rw [hsplit, number_append hxs hys] at h
  obtain ⟨rfl, hlength⟩ := Piece.mk.inj h
  by_cases hdigit : ∃ d r, ys = '.' :: d :: r ∧ d.isDigit = true
  · obtain ⟨d, r, rfl, hd⟩ := hdigit
    obtain ⟨vs, s, rfl, hvs, hlen, hs⟩ : ∃ vs s, r = vs ++ s ∧ (∀ x ∈ vs, isNumberPart x = true) ∧
        vs.length = run isNumberPart r ∧ run isNumberPart s = 0 := by
      obtain ⟨vs, s, hr, hlen, hvs, hs⟩ := exists_run isNumberPart r
      exact ⟨vs, s, hr, hvs, hlen, hs⟩
    have hmore : more = xs ++ '.' :: d :: vs ∧ rest = s := by
      apply List.append_inj (by rw [hsplit]; simp)
      simp only [fraction, hd, if_true] at hlength
      simp only [List.length_append, List.length_cons]
      omega
    obtain ⟨rfl, rfl⟩ := hmore
    have hlast : isWordPart z = true := by
      apply isWordPart_of_isNumberPart
      have hdvs : (d :: vs).getLast? = some z := by
        rw [← hz, show c :: (xs ++ '.' :: d :: vs) = (c :: xs ++ ['.']) ++ d :: vs by simp,
          List.getLast?_append, List.getLast?_cons, Option.some_or]
      rcases List.mem_cons.1 (List.mem_of_getLast? hdvs) with rfl | hmem
      · exact isNumberPart_of_isDigit hd
      · exact hvs z hmem
    have hrest' := run_eq_zero_of_head? (ha.head?_eq (.inl hlast)) hs
    have hrun := run_append_eq_iff.2 ⟨hvs, hrest'⟩
    have hys' : run isNumberPart ('.' :: d :: (vs ++ rest')) = 0 :=
      run_eq_zero_of_head? (show ('.' :: d :: (vs ++ rest)).head? = _ from rfl) hys
    rw [List.append_assoc, List.cons_append, List.cons_append, number_append hxs hys', fraction,
      if_pos hd, hrun]
    simp only [Piece.token, List.length_append, List.length_cons]
    congr 1
    omega
  · have hzero : fraction ys = 0 := fraction_eq_zero fun d r hy => by
      by_cases hd : d.isDigit = true
      · exact absurd ⟨d, r, hy, hd⟩ hdigit
      · simpa using hd
    have hmore : more = xs ∧ rest = ys := List.append_inj hsplit (by omega)
    obtain ⟨rfl, rfl⟩ := hmore
    have hlast : isWordPart z = true := by
      apply isWordPart_of_isNumberPart
      rcases List.mem_cons.1 (List.mem_of_getLast? hz) with rfl | hmem
      · exact isNumberPart_of_isDigit hc
      · exact hxs z hmem
    have hzero' : fraction rest' = 0 := by
      apply fraction_eq_zero
      intro d r hr
      cases ha with
      | nil => exact absurd hr (by simp)
      | @same c r₀ r' second =>
        obtain ⟨rfl, rfl⟩ := List.cons.inj hr
        by_cases hd : d.isDigit = true
        · have hhead := (second (.inl rfl) d (.inl hd)).1 rfl
          obtain ⟨s, rfl⟩ := List.head?_eq_some_iff.1 hhead
          exact absurd ⟨d, s, rfl, hd⟩ hdigit
        · simpa using hd
      | fresh _ _ part _ => simp [part] at hlast
    have hrest' := run_eq_zero_of_head? (ha.head?_eq (.inl hlast)) hys
    rw [number_append hxs hrest', hzero']
    rfl

/-! ## Comments and literals -/

theorem lineComment_congr {first : Char}
    (h : lineComment (first :: more ++ rest) = ⟨k, more.length + 1⟩) (ha : Alike z rest rest') :
    lineComment (first :: more ++ rest') = ⟨k, more.length + 1⟩ := by
  obtain ⟨rfl, hrun⟩ := Piece.mk.inj h
  have hrun' : run (· != '\n') ((first :: more) ++ rest) = (first :: more).length := hrun
  obtain ⟨hall, hrest⟩ := run_append_eq_iff.1 hrun'
  rw [lineComment, run_append_eq_iff.2 ⟨hall, ha.lineEnd hrest⟩]
  rfl

theorem stroke_eq_op {cs : List Char} (h1 : cs.head? ≠ some '/') (h2 : cs.head? ≠ some '*') :
    stroke cs = .token .op 0 := by
  fun_cases stroke cs <;> simp_all

theorem stroke_congr (h : stroke (more ++ rest) = ⟨k, more.length⟩) (hk : k ≠ some .error)
    (ha : Alike z rest rest') : stroke (more ++ rest') = ⟨k, more.length⟩ := by
  cases more with
  | nil =>
    rw [List.nil_append] at h ⊢
    have h1 : rest.head? ≠ some '/' := by
      intro hhead
      obtain ⟨r, rfl⟩ := List.head?_eq_some_iff.1 hhead
      obtain ⟨-, hrun⟩ := Piece.mk.inj h
      simp [run] at hrun
    have h2 : rest.head? ≠ some '*' := by
      intro hhead
      obtain ⟨r, rfl⟩ := List.head?_eq_some_iff.1 hhead
      rw [stroke] at h
      split at h
      · obtain ⟨-, hlength⟩ := Piece.mk.inj h
        exact absurd hlength (by simp)
      · obtain ⟨-, hlength⟩ := Piece.mk.inj h
        exact absurd hlength (by simp)
    rw [stroke_eq_op h1 h2] at h
    rw [stroke_eq_op (ha.head?_ne (by decide) (by decide) h1)
      (ha.head?_ne (by decide) (by decide) h2)]
    exact h
  | cons d more =>
    by_cases hslash : d = '/'
    · subst hslash
      exact lineComment_congr h ha
    · by_cases hstar : d = '*'
      · subst hstar
        rw [List.cons_append, stroke] at h ⊢
        split at h
        · next inner hinner =>
          obtain ⟨rfl, hlength⟩ := Piece.mk.inj h
          obtain ⟨r, hr⟩ := exists_of_before? hinner
          have hsplit : more = inner ++ ['*', '/'] ∧ rest = r := by
            apply List.append_inj (by rw [hr]; simp)
            simp only [List.length_cons, List.length_append, List.length_nil] at hlength ⊢
            omega
          obtain ⟨rfl, rfl⟩ := hsplit
          rw [List.append_assoc] at hinner ⊢
          rw [before?_append rest' (by simp) hinner]
          exact h
        · exact absurd (Piece.mk.inj h).1.symm hk
      · have hop : stroke (d :: more ++ rest) = .token .op 0 :=
          stroke_eq_op (by simpa using hslash) (by simpa using hstar)
        rw [hop] at h
        exact absurd (Piece.mk.inj h).2 (by simp)

/-- A string that is closed is read alike whatever follows it. -/
theorem string_closed {n : Nat} (h : string n (more ++ rest) = ⟨k, n + more.length⟩)
    (hk : k ≠ some .error) : (∃ xs, more = xs ++ ['"'] ∧ (xs = [] ∨ ∃ d ds, xs = d :: ds ∧ d ≠ '"')) ∧
      ∀ rest', string n (more ++ rest') = ⟨k, n + more.length⟩ := by
  simp only [string] at h
  split at h
  · next hclosed =>
    obtain ⟨xs, r, hr, hlen⟩ := exists_elements hclosed
    obtain ⟨rfl, hlength⟩ := Piece.mk.inj h
    have hsplit : more = xs ++ ['"'] ∧ rest = r := by
      apply List.append_inj (by rw [hr]; simp)
      simp only [List.length_append, List.length_singleton]
      omega
    obtain ⟨rfl, rfl⟩ := hsplit
    refine ⟨⟨xs, rfl, ?_⟩, ?_⟩
    · cases xs with
      | nil => exact .inl rfl
      | cons x xs =>
        refine .inr ⟨x, xs, rfl, ?_⟩
        rintro rfl
        rw [hr] at hlen
        cases xs <;> simp [elements] at hlen
    · intro rest'
      have helements : elements '"' (xs ++ '"' :: rest') = xs.length := by
        apply elements_closed (by decide) rest
        rw [← hr, hlen]
      rw [List.append_assoc, List.singleton_append, string, helements]
      simp only [List.drop_left, List.head?_cons, if_true, List.length_append,
        List.length_singleton, Piece.token]
      rfl
  · exact absurd (Piece.mk.inj h).1.symm hk

/-- A raw string that is closed is read alike whatever follows it. -/
theorem rawString_closed {n quotes : Nat} (hquotes : 0 < quotes)
    (h : rawString n quotes (more ++ rest) = ⟨k, n + more.length⟩) (hk : k ≠ some .error) :
    (∃ inner, more = inner ++ List.replicate quotes '"') ∧
      ∀ rest', rawString n quotes (more ++ rest') = ⟨k, n + more.length⟩ := by
  rw [rawString] at h
  split at h
  · next inner hinner =>
    obtain ⟨r, hr⟩ := exists_of_before? hinner
    obtain ⟨rfl, hlength⟩ := Piece.mk.inj h
    have hsplit : more = inner ++ List.replicate quotes '"' ∧ rest = r := by
      apply List.append_inj (by rw [hr]; simp)
      simp only [List.length_append, List.length_replicate]
      omega
    obtain ⟨rfl, rfl⟩ := hsplit
    refine ⟨⟨inner, rfl⟩, fun rest' => ?_⟩
    rw [List.append_assoc] at hinner ⊢
    rw [rawString, before?_append rest' (by simp; omega) hinner]
    exact h
  · exact absurd (Piece.mk.inj h).1.symm hk

theorem apostrophe_congr (h : apostrophe (more ++ rest) = ⟨k, more.length⟩)
    (hk : k ≠ some .error) (rest' : List Char) :
    apostrophe (more ++ rest') = ⟨k, more.length⟩ := by
  simp only [apostrophe] at h
  split at h
  · next hclosed =>
    obtain ⟨xs, r, hr, hlen⟩ := exists_elements hclosed.2
    obtain ⟨rfl, hlength⟩ := Piece.mk.inj h
    have hsplit : more = xs ++ ['\''] ∧ rest = r := by
      apply List.append_inj (by rw [hr]; simp)
      simp only [List.length_append, List.length_singleton]
      omega
    obtain ⟨rfl, rfl⟩ := hsplit
    have helements : elements '\'' (xs ++ '\'' :: rest') = xs.length := by
      apply elements_closed (by decide) rest
      rw [← hr, hlen]
    rw [List.append_assoc, List.singleton_append, apostrophe, helements]
    have hpos : 1 ≤ xs.length := by
      rw [hlen]
      exact hclosed.1
    simp only [List.drop_left, List.head?_cons, hpos, true_and, if_true, List.length_append,
      List.length_singleton, Piece.token]
  · exact absurd (Piece.mk.inj h).1.symm hk

theorem verbatimString_congr (h : verbatimString (more ++ rest) = ⟨k, more.length + 1⟩)
    (hk : k ≠ some .error) (hz : ('"' :: more).getLast? = some z) (ha : Alike z rest rest') :
    verbatimString (more ++ rest') = ⟨k, more.length + 1⟩ := by
  simp only [verbatimString] at h
  split at h
  · next hclosed =>
    obtain ⟨xs, r, hr, hlen, hnext⟩ := exists_verbatimElements hclosed
    obtain ⟨rfl, hlength⟩ := Piece.mk.inj h
    have hsplit : more = xs ++ ['"'] ∧ rest = r := by
      apply List.append_inj (by rw [hr]; simp)
      simp only [List.length_append, List.length_singleton]
      omega
    obtain ⟨rfl, rfl⟩ := hsplit
    have helements : verbatimElements (xs ++ '"' :: rest') = xs.length := by
      apply verbatimElements_closed rest (ha.head?_ne (by decide) (by decide) hnext)
      rw [← hr, hlen]
    rw [List.append_assoc, List.singleton_append, verbatimString, helements]
    simp only [List.drop_left, List.head?_cons, if_true, List.length_append,
      List.length_singleton, Piece.token]
  · exact absurd (Piece.mk.inj h).1.symm hk

private theorem exists_of_append_eq {as bs cs ds : List Char} (h : as ++ bs = cs ++ ds)
    (hle : cs.length ≤ as.length) : ∃ m, as = cs ++ m ∧ ds = m ++ bs := by
  rcases List.append_eq_append_iff.1 h with ⟨m, rfl, rfl⟩ | ⟨m, rfl, rfl⟩
  · have hnil : m = [] := List.eq_nil_of_length_eq_zero (by rw [List.length_append] at hle; omega)
    rw [hnil]
    exact ⟨[], by simp⟩
  · exact ⟨m, rfl, rfl⟩

/-- The head of a text that is not empty does not depend on what follows. -/
private theorem run_eq_zero_append {p : Char → Bool} {m : List Char} (hm : m ≠ [])
    (h : run p (m ++ rest) = 0) (rest' : List Char) : run p (m ++ rest') = 0 := by
  apply run_eq_zero_of_head? _ h
  cases m with
  | nil => exact absurd rfl hm
  | cons c m => rfl

private theorem rawString_le {n quotes : Nat} {cs : List Char}
    (h : rawString n quotes cs = ⟨k, more.length⟩) : n ≤ more.length := by
  rw [rawString] at h
  split at h
  · have := (Piece.mk.inj h).2
    omega
  · exact Nat.le_of_eq (Piece.mk.inj h).2

private theorem string_le {n : Nat} {cs : List Char} (h : string n cs = ⟨k, more.length⟩) :
    n ≤ more.length := by
  simp only [string] at h
  split at h
  · have := (Piece.mk.inj h).2
    omega
  · have := (Piece.mk.inj h).2
    omega

/-- No third quote joins those of an empty string. -/
private theorem run_quotes_congr {xs : List Char} (hxs : xs = [] ∨ ∃ d ds, xs = d :: ds ∧ d ≠ '"')
    (h : run (· == '"') (xs ++ ['"'] ++ rest) < 2) (ha : Alike z rest rest') :
    run (· == '"') (xs ++ ['"'] ++ rest') < 2 := by
  rcases hxs with rfl | ⟨d, ds, rfl, hd⟩
  · have hquote : ∀ x ∈ ['"'], (x == '"') = true := by simp
    rw [List.nil_append, run_append hquote, List.length_singleton] at h ⊢
    have hrest' := ha.run_eq_zero (p := (· == '"'))
      (fun d hd => by simpa using hd.ne (by decide) (by decide)) (by omega)
    omega
  · have hzero : run (· == '"') (d :: ds ++ ['"'] ++ rest') = 0 := by
      rw [run_eq_zero_iff]
      intro c hc
      obtain rfl := Option.some.inj hc
      simpa using hd
    omega

theorem doubleQuote_of_run {qs ys : List Char} (hqs : ∀ x ∈ qs, (x == '"') = true)
    (hys : run (· == '"') ys = 0) :
    doubleQuote (qs ++ ys) =
      if 2 ≤ qs.length then rawString qs.length (qs.length + 1) ys else string 0 (qs ++ ys) := by
  have hrun := run_append_eq_iff.2 ⟨hqs, hys⟩
  simp only [doubleQuote, hrun, List.drop_left]

theorem doubleQuote_congr (h : doubleQuote (more ++ rest) = ⟨k, more.length⟩)
    (hk : k ≠ some .error) (ha : Alike z rest rest') :
    doubleQuote (more ++ rest') = ⟨k, more.length⟩ := by
  obtain ⟨qs, ys, hsplit, -, hqs, hys⟩ := exists_run (· == '"') (more ++ rest)
  rw [hsplit, doubleQuote_of_run hqs hys] at h
  split at h
  · next hraw =>
    obtain ⟨m, rfl, rfl⟩ := exists_of_append_eq hsplit (rawString_le h)
    rw [List.length_append] at h
    obtain ⟨⟨inner, rfl⟩, hclosed⟩ := rawString_closed (by omega) h hk
    have hys' := run_eq_zero_append (by simp) hys rest'
    rw [List.append_assoc, doubleQuote_of_run hqs hys', if_pos hraw, hclosed, ← List.length_append]
  · next hplain =>
    rw [← hsplit] at h
    obtain ⟨⟨xs, rfl, hxs⟩, hclosed⟩ := string_closed (n := 0) (by rw [h, Nat.zero_add]) hk
    have hrun : run (· == '"') (xs ++ ['"'] ++ rest) < 2 := by
      rw [hsplit, run_append_eq_iff.2 ⟨hqs, hys⟩]
      omega
    have hrun' := run_quotes_congr hxs hrun ha
    simp only [doubleQuote]
    rw [if_neg (by omega), hclosed, Nat.zero_add]

/-! ## Signs -/

theorem dollar_of_runs {ds qs ys : List Char} (hds : ∀ x ∈ ds, (x == '$') = true)
    (hqs : ∀ x ∈ qs, (x == '"') = true) (hys : run (· == '"') ys = 0) (h : 3 ≤ qs.length) :
    dollar (ds ++ (qs ++ ys)) = rawString (ds.length + qs.length) qs.length ys := by
  have hrun := run_append_eq_iff.2 ⟨hqs, hys⟩
  have hnone : run (· == '$') (qs ++ ys) = 0 := by
    rw [run_eq_zero_iff]
    intro c hc
    cases qs with
    | nil => simp at h
    | cons q qs =>
      obtain rfl := Option.some.inj hc
      have := hqs q List.mem_cons_self
      simp_all
  have hdollars := run_append_eq_iff.2 ⟨hds, hnone⟩
  simp only [dollar, hdollars, List.drop_left, hrun]
  rw [if_pos h]

theorem dollar_quote {cs : List Char} (h : run (· == '"') cs < 2) :
    dollar ('"' :: cs) =
      if string 1 cs = .token .error 1 then .token .op 0 else string 1 cs := by
  have hrun : run (· == '"') ('"' :: cs) = 1 + run (· == '"') cs :=
    run_append (show ∀ c ∈ ['"'], (c == '"') = true by simp) cs
  have hdollars : run (· == '$') ('"' :: cs) = 0 := rfl
  simp only [dollar, hdollars, List.drop_zero, hrun]
  rw [if_neg (by omega), if_neg (by omega)]

theorem dollar_verbatim (cs : List Char) : dollar ('@' :: '"' :: cs) = string 2 cs := rfl

theorem dollar_eq_op {cs : List Char} (h1 : cs.head? ≠ some '$') (h2 : cs.head? ≠ some '"')
    (h3 : ∀ r, cs ≠ '@' :: '"' :: r) : dollar cs = .token .op 0 := by
  have hdollars : run (· == '$') cs = 0 := by
    rw [run_eq_zero_iff]
    intro c hc
    rw [hc] at h1
    simpa using h1
  have hquotes : run (· == '"') cs = 0 := by
    rw [run_eq_zero_iff]
    intro c hc
    rw [hc] at h2
    simpa using h2
  simp only [dollar, hdollars, List.drop_zero, hquotes]
  rw [if_neg (by omega), if_neg (by omega)]
  split
  · simp at h2
  · next r => exact absurd rfl (h3 r)
  · rfl

private theorem dollar_quote_congr {cs : List Char} (hcs : more ++ rest = '"' :: cs)
    (hrun : run (· == '"') cs < 2) (h : dollar (more ++ rest) = ⟨k, more.length⟩)
    (hk : k ≠ some .error) (hquote : more = [] → rest.head? ≠ some '"')
    (ha : Alike z rest rest') : dollar (more ++ rest') = ⟨k, more.length⟩ := by
  rw [hcs, dollar_quote hrun] at h
  split at h
  · have hnil : more = [] := List.eq_nil_of_length_eq_zero (Piece.mk.inj h).2.symm
    rw [hnil, List.nil_append] at hcs
    exact absurd (by rw [hcs]; rfl) (hquote hnil)
  · next hno =>
    obtain ⟨m, rfl, rfl⟩ := exists_of_append_eq (show more ++ rest = ['"'] ++ cs from hcs)
      (string_le h)
    have hlength : (['"'] ++ m).length = 1 + m.length := List.length_append
    rw [hlength] at h ⊢
    obtain ⟨⟨xs, rfl, hxs⟩, hclosed⟩ := string_closed h hk
    have hrun' := run_quotes_congr hxs hrun ha
    rw [List.append_assoc, List.singleton_append, dollar_quote hrun', hclosed, if_neg]
    intro he
    exact hk (Piece.mk.inj he).1

private theorem dollar_verbatim_congr {cs : List Char} (hcs : more ++ rest = '@' :: '"' :: cs)
    (h : dollar (more ++ rest) = ⟨k, more.length⟩) (hk : k ≠ some .error) (rest' : List Char) :
    dollar (more ++ rest') = ⟨k, more.length⟩ := by
  rw [hcs, dollar_verbatim] at h
  obtain ⟨m, rfl, rfl⟩ := exists_of_append_eq (show more ++ rest = ['@', '"'] ++ cs from hcs)
    (string_le h)
  have hlength : (['@', '"'] ++ m).length = 2 + m.length := List.length_append
  rw [hlength] at h ⊢
  rw [List.append_assoc, List.cons_append, List.singleton_append, dollar_verbatim,
    (string_closed h hk).2]

private theorem dollar_op_congr (h1 : (more ++ rest).head? ≠ some '$')
    (h2 : (more ++ rest).head? ≠ some '"') (h3 : ∀ r, more ++ rest ≠ '@' :: '"' :: r)
    (h : dollar (more ++ rest) = ⟨k, more.length⟩) (ha : Alike z rest rest') :
    dollar (more ++ rest') = ⟨k, more.length⟩ := by
  rw [dollar_eq_op h1 h2 h3] at h
  have hnil : more = [] := List.eq_nil_of_length_eq_zero (Piece.mk.inj h).2.symm
  subst hnil
  rw [List.nil_append] at h1 h2 h3 ⊢
  rw [dollar_eq_op (ha.head?_ne (by decide) (by decide) h1)
    (ha.head?_ne (by decide) (by decide) h2)]
  · exact h
  · intro r hr
    cases ha with
    | nil => exact absurd hr (by simp)
    | @same c s s' second =>
      obtain ⟨rfl, rfl⟩ := List.cons.inj hr
      have hhead := (second (.inr rfl) '"' (.inr rfl)).1 rfl
      obtain ⟨r, rfl⟩ := List.head?_eq_some_iff.1 hhead
      exact h3 r rfl
    | fresh _ opens _ _ => exact opens.ne (by decide) (by decide) (List.cons.inj hr).1

theorem dollar_congr (h : dollar (more ++ rest) = ⟨k, more.length⟩) (hk : k ≠ some .error)
    (hquote : more = [] → rest.head? ≠ some '"') (ha : Alike z rest rest') :
    dollar (more ++ rest') = ⟨k, more.length⟩ := by
  obtain ⟨ds, ys, hsplit, -, hds, hys⟩ := exists_run (· == '$') (more ++ rest)
  obtain ⟨qs, zs, rfl, -, hqs, hzs⟩ := exists_run (· == '"') ys
  by_cases hraw : 3 ≤ qs.length
  · rw [hsplit, dollar_of_runs hds hqs hzs hraw] at h
    rw [← List.append_assoc] at hsplit
    have hle := rawString_le h
    obtain ⟨m, rfl, rfl⟩ := exists_of_append_eq hsplit (by rwa [List.length_append])
    rw [List.length_append, List.length_append] at h ⊢
    obtain ⟨⟨inner, rfl⟩, hclosed⟩ := rawString_closed (by omega) h hk
    have hne : inner ++ List.replicate qs.length '"' ≠ [] := by
      apply List.ne_nil_of_length_pos
      rw [List.length_append, List.length_replicate]
      omega
    have hzs' := run_eq_zero_append hne hzs rest'
    rw [List.append_assoc, List.append_assoc, dollar_of_runs hds hqs hzs' hraw, hclosed]
  · by_cases hnil : ds = []
    · subst hnil
      rw [List.nil_append] at hsplit
      have h1 : (more ++ rest).head? ≠ some '$' := by
        intro hhead
        rw [hsplit] at hhead
        have := run_eq_zero_iff.1 hys _ hhead
        simp at this
      by_cases h2 : (more ++ rest).head? = some '"'
      · obtain ⟨cs, hcs⟩ := List.head?_eq_some_iff.1 h2
        have hrun : run (· == '"') (more ++ rest) = qs.length := by
          rw [hsplit]
          exact run_append_eq_iff.2 ⟨hqs, hzs⟩
        have hcons : run (· == '"') ('"' :: cs) = 1 + run (· == '"') cs :=
          run_append (show ∀ c ∈ ['"'], (c == '"') = true by simp) cs
        rw [hcs, hcons] at hrun
        exact dollar_quote_congr hcs (by omega) h hk hquote ha
      · by_cases h3 : ∃ r, more ++ rest = '@' :: '"' :: r
        · obtain ⟨r, hr⟩ := h3
          exact dollar_verbatim_congr hr h hk rest'
        · exact dollar_op_congr h1 h2 (fun r hr => h3 ⟨r, hr⟩) h ha
    · have hpos := List.length_pos_iff.2 hnil
      have hdollars : run (· == '$') (more ++ rest) = ds.length := by
        rw [hsplit]
        exact run_append_eq_iff.2 ⟨hds, hys⟩
      have hquotes : run (· == '"') (qs ++ zs) = qs.length := run_append_eq_iff.2 ⟨hqs, hzs⟩
      have hdrop : (more ++ rest).drop ds.length = qs ++ zs := by rw [hsplit, List.drop_left]
      simp only [dollar, hdollars, hdrop, hquotes] at h
      rw [if_neg hraw, if_pos (by omega)] at h
      exact absurd (Piece.mk.inj h).1.symm hk

theorem atSign_eq_op {cs : List Char} (h1 : cs.head? ≠ some '"')
    (h2 : ∀ c, cs.head? = some c → isWordStart c = false) : atSign cs = .token .op 0 := by
  fun_cases atSign cs <;> simp_all

theorem atSign_congr (h : atSign (more ++ rest) = ⟨k, more.length⟩) (hk : k ≠ some .error)
    (hz : ('@' :: more).getLast? = some z) (ha : Alike z rest rest') :
    atSign (more ++ rest') = ⟨k, more.length⟩ := by
  cases more with
  | nil =>
    obtain rfl : '@' = z := Option.some.inj hz
    have hhead := ha.head?_eq (.inr rfl)
    rw [List.nil_append] at h ⊢
    have h1 : rest.head? ≠ some '"' := by
      intro hquote
      obtain ⟨r, rfl⟩ := List.head?_eq_some_iff.1 hquote
      simp only [atSign, verbatimString] at h
      split at h <;> exact absurd (Piece.mk.inj h).2 (by simp)
    have h2 : ∀ c, rest.head? = some c → isWordStart c = false := by
      intro c hc
      obtain ⟨r, rfl⟩ := List.head?_eq_some_iff.1 hc
      by_cases hstart : isWordStart c = true
      · rw [atSign, if_pos hstart] at h
        · exact absurd (Piece.mk.inj h).2 (by simp)
        · rintro rfl
          exact h1 rfl
      · simpa using hstart
    rw [atSign_eq_op h1 h2] at h
    rw [atSign_eq_op (by rwa [hhead]) (by rwa [hhead])]
    exact h
  | cons c more =>
    by_cases hquote : c = '"'
    · subst hquote
      exact verbatimString_congr h hk (by simpa using hz) ha
    · by_cases hstart : isWordStart c = true
      · have hat : ∀ cs, atSign (c :: cs) = .token .ident (1 + run isWordPart cs) := by
          intro cs
          rw [atSign, if_pos hstart]
          exact hquote
        rw [List.cons_append, hat] at h ⊢
        obtain ⟨rfl, hlength⟩ := Piece.mk.inj h
        rw [List.length_cons] at hlength
        have hrun : run isWordPart (more ++ rest) = more.length := by omega
        obtain ⟨hall, hrest⟩ := run_append_eq_iff.1 hrun
        have hpart : isWordPart z = true := by
          have hlast : (c :: more).getLast? = some z := by simpa using hz
          rcases List.mem_cons.1 (List.mem_of_getLast? hlast) with rfl | hmem
          · exact isWordPart_of_isWordStart hstart
          · exact hall z hmem
        have hrest' := run_eq_zero_of_head? (ha.head?_eq (.inl hpart)) hrest
        rw [run_append_eq_iff.2 ⟨hall, hrest'⟩, Nat.add_comm]
        rfl
      · rw [List.cons_append, atSign_eq_op (by simpa using hquote) (by simpa using hstart)] at h
        exact absurd (Piece.mk.inj h).2 (by simp)

/-! ## Pieces -/

theorem munch_layout (h : isLayout c = true) (cs : List Char) :
    munch c cs = .skipped (run isLayout cs) := by
  unfold munch
  exact if_pos h

theorem munch_word (h : isWordStart c = true) (hlayout : isLayout c = false) (cs : List Char) :
    munch c cs = word c cs := by
  unfold munch
  rw [if_neg (by simp [hlayout])]
  exact if_pos h

theorem munch_number (h : c.isDigit = true) (hlayout : isLayout c = false)
    (hword : isWordStart c = false) (cs : List Char) : munch c cs = number cs := by
  unfold munch
  rw [if_neg (by simp [hlayout]), if_neg (by simp [hword])]
  exact if_pos h

theorem munch_mark {cs : List Char} (hlayout : isLayout c = false) (hword : isWordStart c = false)
    (hdigit : c.isDigit = false)
    (hother : c ∉ ['/', '#', '"', '$', '@', '\'', ':', '=', '\ufeff']) :
    munch c cs = .token ((mark? c).getD .error) 0 := by
  fun_cases munch c cs <;> simp_all

theorem munch_byteOrderMark (hlayout : isLayout '\ufeff' = false)
    (hword : isWordStart '\ufeff' = false) (hdigit : ('\ufeff').isDigit = false) (cs : List Char) :
    munch '\ufeff' cs = .skipped 0 := by
  unfold munch
  rw [if_neg (by simp [hlayout]), if_neg (by simp [hword]), if_neg (by simp [hdigit])]
  rfl

/-- A colon or an equals sign is a mark of its own unless the character that makes a pair with it is
next. -/
theorem munch_of_no_pair {second : Char} {cs : List Char}
    (hc : c = ':' ∧ second = ':' ∨ c = '=' ∧ second = '>') (h : cs.head? ≠ some second) :
    munch c cs = .token ((mark? c).getD .error) 0 := by
  have hlayout : isLayout c = false := by rcases hc with ⟨rfl, -⟩ | ⟨rfl, -⟩ <;> rfl
  have hword : isWordStart c = false := by rcases hc with ⟨rfl, -⟩ | ⟨rfl, -⟩ <;> rfl
  have hdigit : c.isDigit = false := by rcases hc with ⟨rfl, -⟩ | ⟨rfl, -⟩ <;> rfl
  fun_cases munch c cs <;> simp_all

theorem munch_pair {second : Char} (hc : c = ':' ∧ second = ':' ∨ c = '=' ∧ second = '>') :
    ∃ kind, ∀ cs, munch c (second :: cs) = .token kind 1 := by
  rcases hc with ⟨rfl, rfl⟩ | ⟨rfl, rfl⟩
  · exact ⟨.colonColon, fun _ => rfl⟩
  · exact ⟨.arrow, fun _ => rfl⟩

private theorem pair_congr {second : Char}
    (hc : c = ':' ∧ second = ':' ∨ c = '=' ∧ second = '>')
    (h : munch c (more ++ rest) = ⟨k, more.length⟩) (ha : Alike z rest rest') :
    munch c (more ++ rest') = ⟨k, more.length⟩ := by
  have hsecond : isWordStart second = false ∧ second ≠ '[' := by
    rcases hc with ⟨-, rfl⟩ | ⟨-, rfl⟩ <;> exact ⟨rfl, by decide⟩
  cases more with
  | nil =>
    rw [List.nil_append] at h ⊢
    by_cases hhead : rest.head? = some second
    · obtain ⟨r, rfl⟩ := List.head?_eq_some_iff.1 hhead
      obtain ⟨kind, hkind⟩ := munch_pair hc
      rw [hkind] at h
      exact absurd (Piece.mk.inj h).2 (by simp)
    · rw [munch_of_no_pair hc hhead] at h
      rwa [munch_of_no_pair hc (ha.head?_ne hsecond.1 hsecond.2 hhead)]
  | cons d more =>
    by_cases hd : d = second
    · subst hd
      obtain ⟨kind, hkind⟩ := munch_pair hc
      rw [List.cons_append, hkind] at h ⊢
      exact h
    · rw [munch_of_no_pair hc (by simpa using hd)] at h
      exact absurd (Piece.mk.inj h).2 (by simp)

theorem not_isLayout_of_opens {d : Char} (h : Opens d) : isLayout d = false := by
  simp [isLayout, h.ne (x := ' ') (by decide) (by decide),
    h.ne (x := '\t') (by decide) (by decide), h.ne (x := '\r') (by decide) (by decide),
    h.ne (x := '\n') (by decide) (by decide), h.ne (x := '\x0c') (by decide) (by decide)]

/-- A piece that is no error is read alike where the text after it looks alike. A dollar sign that is
a piece of its own must not stand before a quote. -/
theorem munch_congr (h : munch c (more ++ rest) = ⟨k, more.length⟩) (hk : k ≠ some .error)
    (hdollar : c = '$' → more = [] → rest.head? ≠ some '"')
    (hz : (c :: more).getLast? = some z) (ha : Alike z rest rest') :
    munch c (more ++ rest') = ⟨k, more.length⟩ := by
  by_cases hlayout : isLayout c = true
  · rw [munch_layout hlayout] at h ⊢
    obtain ⟨rfl, hrun⟩ := Piece.mk.inj h
    obtain ⟨hall, hrest⟩ := run_append_eq_iff.1 hrun
    rw [run_append_eq_iff.2 ⟨hall, ha.run_eq_zero (fun _ => not_isLayout_of_opens) hrest⟩]
    rfl
  rw [Bool.not_eq_true] at hlayout
  by_cases hstart : isWordStart c = true
  · rw [munch_word hstart hlayout] at h ⊢
    exact word_congr h hstart hz ha
  rw [Bool.not_eq_true] at hstart
  by_cases hdigit : c.isDigit = true
  · rw [munch_number hdigit hlayout hstart] at h ⊢
    exact number_congr h hdigit hz ha
  by_cases hother : c ∈ ['/', '#', '"', '$', '@', '\'', ':', '=', '\ufeff']
  · simp only [List.mem_cons, List.not_mem_nil, or_false] at hother
    rcases hother with rfl | rfl | rfl | rfl | rfl | rfl | rfl | rfl | rfl
    · exact stroke_congr h hk ha
    · have hrun : run (· != '\n') (more ++ rest) = more.length := (Piece.mk.inj h).2
      obtain ⟨hall, hrest⟩ := run_append_eq_iff.1 hrun
      have hrun' := run_append_eq_iff.2 ⟨hall, ha.lineEnd hrest⟩
      rw [← (Piece.mk.inj h).1]
      exact congrArg Piece.skipped hrun'
    · exact doubleQuote_congr h hk ha
    · exact dollar_congr h hk (hdollar rfl) ha
    · exact atSign_congr h hk hz ha
    · exact apostrophe_congr h hk rest'
    · exact pair_congr (.inl ⟨rfl, rfl⟩) h ha
    · exact pair_congr (.inr ⟨rfl, rfl⟩) h ha
    · have hdigit : ('\ufeff').isDigit = false := rfl
      rw [munch_byteOrderMark hlayout hstart hdigit] at h ⊢
      exact h
  · have hmark : ∀ cs, munch c cs = .token ((mark? c).getD .error) 0 := fun cs =>
      munch_mark hlayout hstart (by simpa using hdigit) hother
    rw [hmark] at h ⊢
    exact h

end SelfTypeLint.Token
