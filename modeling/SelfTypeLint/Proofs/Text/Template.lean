import SelfTypeLint.Proofs.Text.Search
import SelfTypeLint.Text.Template

/-!
# Filling templates

A template is a row of texts and of indices in braces. The main statement, `fillTemplate_correct`, says that
filling it puts each argument in the place of its index and touches nothing else: no argument is read again
as a template, and a template in which no braces hold an index of an argument stays as it is.
-/

namespace SelfTypeLint.Text

/-- Holds of the texts that spell a number: its decimal digits, with any number of zeros and perhaps a plus
sign in front. -/
inductive Spells : List Char → Nat → Prop
  | decimal (zeros n : Nat) : Spells (List.replicate zeros '0' ++ Nat.toDigits 10 n) n
  | signed (zeros n : Nat) : Spells ('+' :: (List.replicate zeros '0' ++ Nat.toDigits 10 n)) n

/-- A piece of a template for some arguments: a text without an open brace, or an index in braces. -/
inductive TemplatePiece (args : List String)
  | text (cs : List Char) (plain : '\x7b' ∉ cs)
  | place (index : Fin args.length) (spelling : List Char) (spells : Spells spelling index)

variable {args : List String}

/-- A piece as it stands in the template. -/
def TemplatePiece.written : TemplatePiece args → List Char
  | .text cs _ => cs
  | .place _ spelling _ => '\x7b' :: (spelling ++ ['\x7d'])

/-- What a piece becomes. -/
def TemplatePiece.filled : TemplatePiece args → List Char
  | .text cs _ => cs
  | .place index _ _ => args[index].toList

/-! ## Numbers -/

theorem toNat_of_isDigit {c : Char} (h : c.isDigit = true) : 48 ≤ c.toNat ∧ c.toNat ≤ 57 :=
  Char.isDigit_iff_toNat.1 h

/-- A digit is the digits of its number. -/
theorem toDigits_of_isDigit {c : Char} (h : c.isDigit = true) : Nat.toDigits 10 (c.toNat - 48) = [c] := by
  obtain ⟨hlow, hhigh⟩ := toNat_of_isDigit h
  have hdigit : (c.toNat - 48).digitChar = c := by
    rw [← Char.toNat_inj, Nat.toNat_digitChar_of_lt_ten (by omega)]
    omega
  rw [Nat.toDigits_of_lt_base (by omega), hdigit]

/-- Digits after a number other than zero are the last digits of the number they make with it. -/
theorem toDigits_append_digits {cs : List Char} (hcs : ∀ c ∈ cs, c.isDigit = true) {n : Nat} (hn : 0 < n) :
    Nat.toDigits 10 n ++ cs = Nat.toDigits 10 (Nat.ofDigitChars 10 cs n) := by
  induction cs generalizing n with
  | nil => rw [List.append_nil, Nat.ofDigitChars_nil]
  | cons c cs ih =>
    obtain ⟨hc, hrest⟩ := List.forall_mem_cons.1 hcs
    have hhigh := (toNat_of_isDigit hc).2
    have hlast : c.toNat - 48 < 10 := by omega
    have hstep := Nat.toDigits_append_toDigits (by decide) hn hlast
    rw [toDigits_of_isDigit hc] at hstep
    rw [Nat.ofDigitChars_cons, List.append_cons, hstep]
    exact ih hrest (by omega)

/-- Digits are zeros and then the digits of the number they make. -/
theorem exists_zeros {cs : List Char} (hne : cs ≠ []) (hcs : ∀ c ∈ cs, c.isDigit = true) :
    ∃ zeros, cs = List.replicate zeros '0' ++ Nat.toDigits 10 (Nat.ofDigitChars 10 cs 0) := by
  induction cs with
  | nil => exact absurd rfl hne
  | cons c cs ih =>
    obtain ⟨hc, hrest⟩ := List.forall_mem_cons.1 hcs
    by_cases hzero : c = '0'
    · subst hzero
      cases cs with
      | nil => exact ⟨0, rfl⟩
      | cons d ds =>
        obtain ⟨zeros, hdigits⟩ := ih (List.cons_ne_nil d ds) hrest
        refine ⟨zeros + 1, ?_⟩
        rw [List.replicate_succ, List.cons_append, Nat.ofDigitChars_cons]
        exact congrArg (List.cons '0') hdigits
    · have hlow := (toNat_of_isDigit hc).1
      have hne : c.toNat ≠ 48 := fun h => hzero (Char.toNat_inj.1 h)
      have hdigits := toDigits_append_digits hrest (show 0 < c.toNat - 48 by omega)
      rw [toDigits_of_isDigit hc] at hdigits
      refine ⟨0, ?_⟩
      rw [Nat.ofDigitChars_cons, Nat.mul_zero, Nat.zero_add]
      exact hdigits

/-- The digits of a number are read as it, whatever zeros stand in front. -/
theorem digits_of_zeros (zeros n : Nat) :
    let cs := List.replicate zeros '0' ++ Nat.toDigits 10 n
    cs ≠ [] ∧ (∀ c ∈ cs, c.isDigit = true) ∧ Nat.ofDigitChars 10 cs 0 = n := by
  refine ⟨?_, ?_, ?_⟩
  · simp [Nat.toDigits_ne_nil]
  · intro c hc
    rcases List.mem_append.1 hc with hc | hc
    · rw [List.eq_of_mem_replicate hc]
      rfl
    · exact Nat.isDigit_of_mem_toDigits (by decide) (by decide) hc
  · have hzeros : Nat.ofDigitChars 10 (List.replicate zeros '0') 0 = 0 := by
      induction zeros with
      | zero => rfl
      | succ zeros ih =>
        rw [List.replicate_succ, Nat.ofDigitChars_cons]
        exact ih
    rw [Nat.ofDigitChars_append, hzeros, Nat.ofDigitChars_toDigits (by decide) (by decide)]

/-- The number that digits make. -/
def value? (digits : List Char) : Option Nat :=
  if !digits.isEmpty && digits.all Char.isDigit then some (Nat.ofDigitChars 10 digits 0) else none

theorem value?_eq_some_iff {cs : List Char} {n : Nat} :
    value? cs = some n ↔ ∃ zeros, cs = List.replicate zeros '0' ++ Nat.toDigits 10 n := by
  have hvalue : value? cs = some n ↔
      cs ≠ [] ∧ (∀ c ∈ cs, c.isDigit = true) ∧ Nat.ofDigitChars 10 cs 0 = n := by
    simp [value?, and_assoc]
  rw [hvalue]
  constructor
  · rintro ⟨hne, hcs, rfl⟩
    exact exists_zeros hne hcs
  · rintro ⟨zeros, rfl⟩
    exact digits_of_zeros zeros n

theorem value?_sign (cs : List Char) : value? ('+' :: cs) = none := rfl

theorem index?_sign (cs : List Char) : index? ('+' :: cs) = value? cs := rfl

theorem index?_of_no_sign {cs : List Char} (h : cs.head? ≠ some '+') : index? cs = value? cs := by
  unfold index?
  split
  · exact absurd rfl h
  · rfl

theorem spells_iff {cs : List Char} {n : Nat} :
    Spells cs n ↔ value? cs = some n ∨ ∃ digits, cs = '+' :: digits ∧ value? digits = some n := by
  simp only [value?_eq_some_iff]
  constructor
  · rintro (⟨zeros, n⟩ | ⟨zeros, n⟩)
    · exact .inl ⟨zeros, rfl⟩
    · exact .inr ⟨_, rfl, zeros, rfl⟩
  · rintro (⟨zeros, rfl⟩ | ⟨_, rfl, zeros, rfl⟩)
    · exact .decimal zeros n
    · exact .signed zeros n

/-- An index is read just where a number is spelled. -/
theorem index?_eq_some_iff {cs : List Char} {n : Nat} : index? cs = some n ↔ Spells cs n := by
  rw [spells_iff]
  by_cases hsign : cs.head? = some '+'
  · obtain ⟨digits, rfl⟩ := List.head?_eq_some_iff.1 hsign
    simp [index?_sign, value?_sign]
  · rw [index?_of_no_sign hsign]
    constructor
    · exact .inl
    · rintro (h | ⟨digits, rfl, -⟩)
      · exact h
      · exact absurd rfl hsign

theorem Spells.not_mem_close {cs : List Char} {n : Nat} (h : Spells cs n) : '\x7d' ∉ cs := by
  intro hmem
  have hdigits := fun zeros n => (digits_of_zeros zeros n).2.1 '\x7d'
  cases h with
  | decimal zeros n => exact absurd (hdigits zeros n hmem) (by decide)
  | signed zeros n =>
    have hmem := (List.mem_cons.1 hmem).resolve_left (by decide)
    exact absurd (hdigits zeros n hmem) (by decide)

/-! ## Filling -/

theorem placeholder?_of_spells {spelling : List Char} {index : Fin args.length}
    (h : Spells spelling index) (rest : List Char) :
    placeholder? args (spelling ++ '\x7d' :: rest) = some (args[index], spelling.length) := by
  simp [placeholder?, before?_singleton h.not_mem_close, index?_eq_some_iff.2 h]

theorem exists_of_placeholder? {cs : List Char} {arg : String} {length : Nat}
    (h : placeholder? args cs = some (arg, length)) :
    ∃ (index : Fin args.length) (spelling rest : List Char), Spells spelling index ∧
      cs = spelling ++ '\x7d' :: rest := by
  simp only [placeholder?, Option.bind_eq_bind, Option.bind_eq_some_iff] at h
  obtain ⟨spelling, hbefore, n, hindex, arg, harg, -⟩ := h
  obtain ⟨rest, hrest⟩ := exists_of_before? hbefore
  obtain ⟨hn, -⟩ := List.getElem?_eq_some_iff.1 harg
  exact ⟨⟨n, hn⟩, spelling, rest, index?_eq_some_iff.1 hindex, hrest⟩

theorem fill_append {cs : List Char} (h : '\x7b' ∉ cs) (rest : List Char) :
    fill args (cs ++ rest) = cs ++ fill args rest := by
  induction cs with
  | nil => rfl
  | cons c cs ih =>
    obtain ⟨hc, hcs⟩ := List.ne_and_not_mem_of_not_mem_cons h
    rw [List.cons_append, fill, if_neg hc.symm, ih hcs]
    rfl

theorem fill_place {spelling : List Char} {index : Fin args.length} (h : Spells spelling index)
    (rest : List Char) :
    fill args ('\x7b' :: (spelling ++ '\x7d' :: rest)) = args[index].toList ++ fill args rest := by
  rw [fill, if_pos rfl]
  simp [placeholder?_of_spells h]

/-- Each piece is filled on its own. -/
theorem fill_written (p : TemplatePiece args) (rest : List Char) :
    fill args (p.written ++ rest) = p.filled ++ fill args rest := by
  cases p with
  | text cs plain => exact fill_append plain rest
  | place index spelling spells =>
    have := fill_place spells rest
    simpa [TemplatePiece.written, TemplatePiece.filled] using this

theorem fill_flatMap (ps : List (TemplatePiece args)) :
    fill args (ps.flatMap (·.written)) = ps.flatMap (·.filled) := by
  induction ps with
  | nil => rw [List.flatMap_nil, List.flatMap_nil, fill]
  | cons p ps ih => rw [List.flatMap_cons, List.flatMap_cons, fill_written, ih]

/-- Holds of templates in which some braces hold the index of an argument. -/
def NamesArgument (args : List String) (cs : List Char) : Prop :=
  ∃ (index : Fin args.length) (spelling : List Char), Spells spelling index ∧
    '\x7b' :: (spelling ++ ['\x7d']) <:+: cs

theorem fill_of_no_argument {cs : List Char} (h : ¬ NamesArgument args cs) : fill args cs = cs := by
  induction cs with
  | nil => rw [fill]
  | cons c cs ih =>
    have hrest : ¬ NamesArgument args cs := by
      rintro ⟨index, spelling, hspells, hinfix⟩
      exact h ⟨index, spelling, hspells, hinfix.trans (List.suffix_cons c cs).isInfix⟩
    rw [fill]
    split
    · next hopen =>
      have hnone : placeholder? args cs = none := by
        rw [Option.eq_none_iff_forall_not_mem]
        rintro ⟨arg, length⟩ hplace
        obtain ⟨index, spelling, rest, hspells, rfl⟩ := exists_of_placeholder? hplace
        exact h ⟨index, spelling, hspells, [], rest, by simp [hopen]⟩
      simp only [hnone, ih hrest]
    · rw [ih hrest]

/-- Filling a template that is written as a row of texts without an open brace and of indices of arguments in
braces gives the texts and the arguments, as they are, in the same order. A template in which no braces hold
the index of an argument stays as it is. -/
theorem fillTemplate_correct (args : List String) :
    (∀ ps : List (TemplatePiece args),
      fillTemplate (String.ofList (ps.flatMap (·.written))) args =
        String.ofList (ps.flatMap (·.filled))) ∧
    ∀ template : String, ¬ NamesArgument args template.toList → fillTemplate template args = template := by
  refine ⟨fun ps => ?_, fun template h => ?_⟩
  · rw [fillTemplate, String.toList_ofList, fill_flatMap]
  · rw [fillTemplate, fill_of_no_argument h, String.ofList_toList]

/-- An index past the arguments and a name in braces are kept. -/
theorem fillTemplate_noArgument : ¬ NamesArgument ["x"] "\x7b1\x7d, \x7ba\x7d".toList ∧
    fillTemplate "\x7b1\x7d, \x7ba\x7d" ["x"] = "\x7b1\x7d, \x7ba\x7d" := by
  have hzero : ∀ cs n, Spells cs n → n = 0 → '0' ∈ cs := by
    rintro cs n (⟨zeros, n⟩ | ⟨zeros, n⟩) rfl <;> simp
  have hnone : ¬ NamesArgument ["x"] "\x7b1\x7d, \x7ba\x7d".toList := by
    rintro ⟨index, spelling, hspells, hinfix⟩
    -- The only index is zero, and the template has no zero.
    have hmem := hzero spelling index hspells (Nat.lt_one_iff.1 index.isLt)
    have hmem := hinfix.mem (List.mem_cons_of_mem _ (List.mem_append_left _ hmem))
    exact absurd hmem (by decide)
  exact ⟨hnone, (fillTemplate_correct ["x"]).2 _ hnone⟩

end SelfTypeLint.Text
