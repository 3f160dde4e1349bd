import SelfTypeLint.Fix.Marker
import SelfTypeLint.Proofs.Text.Splice
import SelfTypeLint.Proofs.Token.Restart

/-!
# The header of a text

The header that a using directive is put after is a byte order mark, blanks and comments. `headerByOffsets`
finds its end as one does on bytes: it cuts the text at an offset, looks at what follows, and goes on behind
what it passes over. One look is described by `headerStep_cases`. The main statement, `headerEnd_correct`,
says that no cut is inside a character, that this gives the end of the header, and that reading passes over
the header as a whole.
-/

namespace SelfTypeLint.Fix

open Text Token

/-- What a look at a text finds that may begin with blanks or a comment. -/
inductive HeaderStep
  /-- Neither a blank nor a comment. -/
  | stop
  /-- A comment that is not closed. -/
  | unclosed
  /-- So many bytes to pass over. -/
  | pass (size : Nat)
  deriving DecidableEq, Repr

/-- Looks at the front of a text. -/
def headerStep : List Char → HeaderStep
  | '/' :: '/' :: rest =>
    match rest.dropWhile (· ≠ '\n') with
    | [] => .pass (2 + byteSize rest)
    | _ :: _ => .pass (2 + byteSize (rest.takeWhile (· ≠ '\n')) + 1)
  | '/' :: '*' :: rest =>
    match before? ['*', '/'] rest with
    | some inner => .pass (byteSize inner + 4)
    | none => .unclosed
  | c :: _ => if isHeaderBlank c then .pass 1 else .stop
  | [] => .stop

/-- Holds of trivia in front of a text that stay trivia if the text is left out, and if another text comes in
between and there is a text. -/
structure Heads (front back : List Char) : Prop where
  alone : TriviaRun front []
  before : back ≠ [] → ∀ rest, TriviaRun front rest

theorem heads_nil (back : List Char) : Heads [] back := ⟨.nil, fun _ _ => .nil⟩

theorem Heads.mono {front front' back : List Char} (h : Heads front back)
    (hrun : ∀ rest, TriviaRun front rest → TriviaRun front' rest) : Heads front' back :=
  ⟨hrun [] h.alone, fun hne rest => hrun rest (h.before hne rest)⟩

/-- In front of a text, too, the trivia are trivia. -/
theorem Heads.run {front back : List Char} (h : Heads front back) : TriviaRun front back := by
  by_cases hne : back = []
  · exact hne ▸ h.alone
  · exact h.before hne back

/-- What is passed over in one step at the front of a text. -/
structure Passes (cs piece rest : List Char) : Prop where
  split : cs = piece ++ rest
  nonempty : piece ≠ []
  step : headerStep cs = .pass (byteSize piece)
  after : afterHeader? cs = afterHeader? rest
  heads : ∀ front back, rest = front ++ back → Heads front back → Heads (piece ++ front) back

/-- The blanks of a header are blanks between tokens, of one byte each. -/
theorem blank_of_isHeaderBlank {c : Char} (h : isHeaderBlank c = true) :
    isLayout c = true ∧ c.utf8Size = 1 ∧ c ≠ '/' := by
  simp only [isHeaderBlank, Bool.or_eq_true, beq_iff_eq] at h
  rcases h with (((rfl | rfl) | rfl) | rfl) | rfl <;> decide

theorem afterHeader?_line (cs : List Char) :
    afterHeader? ('/' :: '/' :: cs) = afterHeader? ((cs.dropWhile (· ≠ '\n')).drop 1) := by
  rw [afterHeader?]

/-- A comment to the end of its line is passed over together with the end. -/
theorem passes_line (cs : List Char) : ∃ piece rest, Passes ('/' :: '/' :: cs) piece rest := by
  obtain ⟨inner, rest, rfl, -, hinner, hrest⟩ := exists_run (· ≠ '\n') cs
  have hnone : '\n' ∉ inner := fun hmem => by simpa using hinner _ hmem
  have hdrop : (inner ++ rest).dropWhile (· ≠ '\n') = rest.dropWhile (· ≠ '\n') :=
    List.dropWhile_append_of_pos hinner
  cases rest with
  | nil =>
    -- The text ends with the comment, so nothing may be put behind it.
    rw [List.append_nil, List.dropWhile_nil] at hdrop
    refine ⟨['/', '/'] ++ inner, [], by simp, by simp, ?_, ?_, fun front back hsplit _ => ?_⟩
    · simp only [headerStep, List.append_nil, hdrop, byteSize_append]
      rfl
    · rw [List.append_nil, afterHeader?_line, hdrop]
      rfl
    · obtain ⟨rfl, rfl⟩ := List.append_eq_nil_iff.1 hsplit.symm
      exact ⟨.cons (.line (.inl rfl) hnone (by simp)) .nil, fun hne => absurd rfl hne⟩
  | cons c rest =>
    obtain rfl : c = '\n' := by simpa using run_eq_zero_iff.1 hrest c rfl
    have hend : ('\n' :: rest).dropWhile (· ≠ '\n') = '\n' :: rest := by simp
    have hline : (inner ++ '\n' :: rest).takeWhile (· ≠ '\n') = inner := by
      rw [List.takeWhile_append_of_pos hinner]
      simp
    refine ⟨['/', '/'] ++ inner ++ ['\n'], rest, by simp, by simp, ?_, ?_, fun front back _ h => ?_⟩
    · simp only [headerStep, hdrop, hend, hline, byteSize_append]
      rfl
    · rw [afterHeader?_line, hdrop, hend]
      rfl
    · refine h.mono fun text hrun => ?_
      rw [List.append_assoc]
      exact .cons (.line (.inl rfl) hnone (by simp)) (.blank rfl hrun)

/-- A comment that is closed is passed over with its marks. -/
theorem passes_block {cs inner : List Char} (h : before? ['*', '/'] cs = some inner) :
    ∃ piece rest, Passes ('/' :: '*' :: cs) piece rest := by
  obtain ⟨rest, rfl⟩ := exists_of_before? h
  refine ⟨['/', '*'] ++ inner ++ ['*', '/'], rest, by simp, by simp, ?_, ?_, fun front back _ hheads => ?_⟩
  · have hmarks : byteSize ['/', '*'] = 2 ∧ byteSize ['*', '/'] = 2 := by decide
    simp only [headerStep, h, byteSize_append, hmarks, HeaderStep.pass.injEq]
    omega
  · have hdrop : (inner ++ (['*', '/'] ++ rest)).drop (inner.length + 2) = rest := by simp
    rw [afterHeader?, h]
    simp only [hdrop]
  · rw [← List.append_assoc] at h
    exact hheads.mono fun text hrun => .cons (.block fun _ _ => eq_nil_of_before? h) hrun

theorem passes_blank {c : Char} (h : isHeaderBlank c = true) (cs : List Char) :
    ∃ piece rest, Passes (c :: cs) piece rest := by
  obtain ⟨hlayout, hsize, hne⟩ := blank_of_isHeaderBlank h
  refine ⟨[c], cs, rfl, by simp, ?_, ?_, fun front back _ hheads => ?_⟩
  · rw [headerStep, if_pos h, byteSize_cons, hsize, byteSize_nil]
    · exact fun rest hc => absurd hc hne
    · exact fun rest hc => absurd hc hne
  · rw [afterHeader?, if_pos h]
    · exact fun rest hc => absurd hc hne
    · exact fun rest hc => absurd hc hne
  · exact hheads.mono fun text hrun => .blank hlayout hrun

/-- A look at a text finds where its header ends, a comment that is not closed, or what is passed over. -/
theorem headerStep_cases (cs : List Char) : headerStep cs = .stop ∧ afterHeader? cs = some cs ∨
    headerStep cs = .unclosed ∧ afterHeader? cs = none ∨ ∃ piece rest, Passes cs piece rest := by
  fun_cases headerStep cs
  · exact .inr (.inr (passes_line _))
  · exact .inr (.inr (passes_line _))
  · next h => exact .inr (.inr (passes_block h))
  · next h =>
    refine .inr (.inl ⟨rfl, ?_⟩)
    rw [afterHeader?, h]
  · next c cs hline hblock hblank => exact .inr (.inr (passes_blank hblank cs))
  · next c cs hline hblock hblank =>
    refine .inl ⟨rfl, ?_⟩
    rw [afterHeader?, if_neg hblank]
    · exact hline
    · exact hblock
  · exact .inl ⟨rfl, by rw [afterHeader?]⟩

/-! ## The loop -/

theorem headerStep_pass {cs : List Char} {n : Nat} (h : headerStep cs = .pass n) :
    ∃ piece rest, cs = piece ++ rest ∧ piece ≠ [] ∧ byteSize piece = n := by
  rcases headerStep_cases cs with ⟨hstep, -⟩ | ⟨hstep, -⟩ | ⟨piece, rest, hpass⟩
  · exact absurd (h.symm.trans hstep) (by simp)
  · exact absurd (h.symm.trans hstep) (by simp)
  · exact ⟨piece, rest, hpass.split, hpass.nonempty, HeaderStep.pass.inj (hpass.step.symm.trans h)⟩

/-- The end of the header that is looked for from an offset on; none if a cut is past the end or inside a
character. -/
def headerByOffsets (cs : List Char) (i : Nat) : Option Nat :=
  match _ : splitAt? i cs with
  | none => none
  | some (_, rest) =>
    match _ : headerStep rest with
    | .stop => some i
    | .unclosed => some 0
    | .pass n => headerByOffsets cs (i + n)
  termination_by byteSize cs - i
  decreasing_by
    obtain ⟨rfl, hi⟩ := splitAt?_eq_some ‹_›
    obtain ⟨piece, rest, rfl, hne, rfl⟩ := headerStep_pass ‹_›
    have hpos := Nat.pos_of_ne_zero (mt eq_nil_of_byteSize_eq_zero hne)
    simp only [byteSize_append]
    omega

theorem headerByOffsets_append (front cs : List Char) :
    headerByOffsets (front ++ cs) (byteSize front) =
      match headerStep cs with
      | .stop => some (byteSize front)
      | .unclosed => some 0
      | .pass n => headerByOffsets (front ++ cs) (byteSize front + n) := by
  rw [headerByOffsets]
  split
  · next hcut =>
    rw [splitAt?_append] at hcut
    exact absurd hcut (by simp)
  · next hcut =>
    rw [splitAt?_append] at hcut
    obtain ⟨rfl, rfl⟩ := Prod.mk.inj (Option.some.inj hcut)
    split <;> simp_all

/-- From the front of a text on the loop finds what its header is, and stops behind it. -/
theorem headerByOffsets_eq (before cs : List Char) :
    match afterHeader? cs with
    | some back => ∃ front, cs = front ++ back ∧ Heads front back ∧
        headerByOffsets (before ++ cs) (byteSize before) = some (byteSize (before ++ front))
    | none => headerByOffsets (before ++ cs) (byteSize before) = some 0 := by
  -- By the length of what is left: a step passes over one character or more.
  induction hn : cs.length using Nat.strongRecOn generalizing before cs with
  | _ n ih =>
    rw [headerByOffsets_append]
    rcases headerStep_cases cs with ⟨hstep, hafter⟩ | ⟨hstep, hafter⟩ | ⟨piece, rest, hpass⟩
    · rw [hstep, hafter]
      exact ⟨[], rfl, heads_nil cs, by rw [List.append_nil]⟩
    · rw [hstep, hafter]
    · obtain ⟨rfl, hne, hstep, hafter, hheads⟩ := hpass
      have hshort : rest.length < n := by
        have := List.length_pos_iff.2 hne
        rw [← hn, List.length_append]
        omega
      have hrest := ih _ hshort (before ++ piece) rest rfl
      rw [hstep, hafter, ← List.append_assoc]
      dsimp only
      rw [← byteSize_append]
      split at hrest
      · next back _ =>
        obtain ⟨front, rfl, hfront, hloop⟩ := hrest
        refine ⟨piece ++ front, (List.append_assoc _ _ _).symm, hheads front back rfl hfront, ?_⟩
        rw [hloop, List.append_assoc]
      · exact hrest

/-- The offset at which the header begins. -/
def headerStart (cs : List Char) : Nat := if cs.head? = some '\ufeff' then 3 else 0

/-- A text begins with its mark if it has one. -/
theorem exists_mark (cs : List Char) : ∃ mark body, cs = mark ++ body ∧ headerStart cs = byteSize mark ∧
    headerEnd cs = (match afterHeader? body with
      | some rest => byteSize cs - byteSize rest
      | none => 0) ∧
    ∀ front back, Heads front back → Heads (mark ++ front) back := by
  by_cases hmark : cs.head? = some '\ufeff'
  · obtain ⟨body, rfl⟩ := List.head?_eq_some_iff.1 hmark
    exact ⟨['\ufeff'], body, rfl, if_pos hmark, rfl,
      fun front back h => h.mono fun text hrun => .cons .byteOrderMark hrun⟩
  · refine ⟨[], cs, rfl, if_neg hmark, ?_, fun front back h => h⟩
    unfold headerEnd
    split
    · exact absurd rfl hmark
    · rfl

/-- The loop finds the end of the header, never cuts inside a character, and ends. The header is trivia, and
stays so if text is put in between it and what follows. -/
theorem headerEnd_correct (cs : List Char) :
    headerByOffsets cs (headerStart cs) = some (headerEnd cs) ∧
      ∃ front back, cs = front ++ back ∧ byteSize front = headerEnd cs ∧ Heads front back := by
  obtain ⟨mark, body, hcs, hstart, hend, hmark⟩ := exists_mark cs
  have hloop := headerByOffsets_eq mark body
  rw [hstart, hend]
  split at hloop
  · next back _ =>
    obtain ⟨front, rfl, hfront, hloop⟩ := hloop
    rw [← List.append_assoc] at hcs
    have hsize : byteSize cs - byteSize back = byteSize (mark ++ front) := by
      rw [hcs, byteSize_append]
      omega
    rw [hsize]
    refine ⟨?_, mark ++ front, back, hcs, rfl, hmark front back hfront⟩
    rwa [hcs, List.append_assoc]
  · exact ⟨hcs ▸ hloop, [], cs, rfl, rfl, heads_nil cs⟩

/-- The header ends between two characters. -/
theorem isBoundary_headerEnd (cs : List Char) : IsBoundary cs (headerEnd cs) := by
  obtain ⟨-, front, back, hcs, hsize, -⟩ := headerEnd_correct cs
  exact ⟨front, back, hcs, hsize⟩

end SelfTypeLint.Fix
