import Mathlib.Data.List.DropRight
import SelfTypeLint.Proofs.Text.Splice
import SelfTypeLint.Text.Lines

/-!
# Lines, columns and offsets

A line of a text stands at its start or after a line feed, has none itself, and ends at the end of the text
or before a line feed (`IsLine`). The main statement, `position_ofText`, says that the table of a text gives
for an offset one more than the line feeds before it and one more than the characters of its line before
it, where 32 bits hold both numbers (`Fits`), that these grow with the offset and lead back to it, and that
the texts of the lines are what stands between the line feeds. Only at the end of a text of 2³² - 1 bytes
can a number be greater; the greatest one then stands for the line (`position_lineFeeds`).
-/

namespace SelfTypeLint

namespace LineTable

open Text

variable {cs front back before line after : List Char} {offset : Nat}

/-! ### The starts of lines -/

theorem startsAfter_append (offset : Nat) (front back : List Char) :
    startsAfter offset (front ++ back) =
      startsAfter offset front ++ startsAfter (offset + byteSize front) back := by
  induction front generalizing offset with
  | nil => simp
  | cons c front ih =>
    simp only [List.cons_append, startsAfter, byteSize_cons, ih, Nat.add_assoc]
    split <;> rfl

/-- A text has one start of a line after each line feed. -/
theorem length_startsAfter (offset : Nat) (cs : List Char) :
    (startsAfter offset cs).length = cs.count '\n' := by
  induction cs generalizing offset with
  | nil => rfl
  | cons c cs ih =>
    simp only [startsAfter, List.count_cons, beq_iff_eq]
    split <;> simp [ih]

theorem startsAfter_eq_nil (h : '\n' ∉ cs) (offset : Nat) : startsAfter offset cs = [] := by
  rw [← List.length_eq_zero_iff, length_startsAfter, List.count_eq_zero]
  exact h

theorem le_of_mem_startsAfter {s : Nat} (h : s ∈ startsAfter offset cs) :
    s ≤ offset + byteSize cs := by
  induction cs generalizing offset with
  | nil => simp at h
  | cons c cs ih =>
    simp only [startsAfter] at h
    rw [byteSize_cons, ← Nat.add_assoc]
    split at h
    · rcases List.mem_cons.1 h with rfl | h
      · omega
      · exact ih h
    · exact ih h

theorem pairwise_startsAfter (offset : Nat) (cs : List Char) :
    (startsAfter offset cs).Pairwise (· < ·) := by
  induction cs generalizing offset with
  | nil => exact List.Pairwise.nil
  | cons c cs ih =>
    simp only [startsAfter]
    split
    · exact List.pairwise_cons.2 ⟨fun s hs => lt_of_mem_startsAfter hs, ih _⟩
    · exact ih _

theorem starts_ofText (text : String) :
    (ofText text).starts = (0 :: startsAfter 0 text.toList).map narrow := by
  rw [List.map_cons, narrow_of_lt (by decide), ofText]

/-- Holds of an offset if 32 bits tell the lines of a text that begin at it or before from all others. -/
def Apart (cs : List Char) (offset : Nat) : Prop := byteSize cs < Span.limit ∨ offset + 1 < Span.limit

theorem Apart.narrow_le_iff (h : Apart cs offset) {s : Nat} (hs : s ≤ byteSize cs) :
    narrow s ≤ offset ↔ s ≤ offset := by
  rcases h with h | h
  · rw [narrow_of_lt (Nat.lt_of_le_of_lt hs h)]
  · unfold narrow
    omega

/-- The starts of the lines stand in order, and those up to an offset before all that follow them. -/
theorem Apart.pairwise_starts {text : String} (h : Apart text.toList offset) :
    (ofText text).starts.Pairwise fun s u => s ≤ u ∧ (s ≤ offset → s < u) := by
  rw [starts_ofText, List.pairwise_map]
  have hsize : ∀ s ∈ 0 :: startsAfter 0 text.toList, s ≤ byteSize text.toList := by
    intro s hs
    rcases List.mem_cons.1 hs with rfl | hs
    · exact Nat.zero_le _
    · exact Nat.zero_add (byteSize text.toList) ▸ le_of_mem_startsAfter hs
  have hstarts : (0 :: startsAfter 0 text.toList).Pairwise (· < ·) :=
    List.pairwise_cons.2 ⟨fun _ hs => lt_of_mem_startsAfter hs, pairwise_startsAfter 0 text.toList⟩
  refine hstarts.imp_of_mem fun {s u} hs hu hlt => ?_
  have hsmall := hsize u hu
  have hiff := h.narrow_le_iff (hsize s hs)
  have hiff' := h.narrow_le_iff hsmall
  rcases h with h | h
  · rw [narrow_of_lt (by omega), narrow_of_lt (by omega)]
    exact ⟨Nat.le_of_lt hlt, fun _ => hlt⟩
  · unfold narrow at *
    omega

/-! ### The line of an offset -/

/-- Among offsets in order, an index that is found has the offset, and the index to put it in has the
lesser ones before it. -/
theorem search_of_pairwise {starts : List Nat} (h : starts.Pairwise fun s u => s ≤ u ∧ (s ≤ offset → s < u)) :
    (∀ i, search offset starts = .ok i → i + 1 = starts.countP (· ≤ offset)) ∧
      ∀ i, search offset starts = .error i → i = starts.countP (· ≤ offset) := by
  induction starts with
  | nil => simp [search]
  | cons s rest ih =>
    obtain ⟨hafter, hrest⟩ := List.pairwise_cons.1 h
    obtain ⟨hok, herror⟩ := ih hrest
    rw [search]
    rcases Nat.lt_trichotomy s offset with hlt | rfl | hgt
    · rw [if_pos hlt, List.countP_cons_of_pos (by simpa using Nat.le_of_lt hlt)]
      cases hsearch : search offset rest with
      | ok i => simpa using hok i hsearch
      | error i => simpa using herror i hsearch
    · have hnone : rest.countP (· ≤ s) = 0 := by
        rw [List.countP_eq_zero]
        intro x hx
        simpa using (hafter x hx).2 (Nat.le_refl _)
      rw [if_neg (Nat.lt_irrefl s), if_pos rfl, List.countP_cons_of_pos (by simp), hnone]
      simp
    · have hnone : (s :: rest).countP (· ≤ offset) = 0 := by
        rw [List.countP_eq_zero]
        intro x hx
        rcases List.mem_cons.1 hx with rfl | hx
        · simpa using hgt
        · simpa using Nat.lt_of_lt_of_le hgt (hafter x hx).1
      rw [if_neg (Nat.lt_asymm hgt), if_neg (Nat.ne_of_gt hgt), hnone]
      simp

/-- The line of an offset is the number of lines that begin at it or before. -/
theorem Apart.lineAt_ofText {text : String} (h : Apart text.toList offset) :
    (ofText text).lineAt offset = narrow ((ofText text).starts.countP (· ≤ offset)) := by
  obtain ⟨hok, herror⟩ := search_of_pairwise h.pairwise_starts
  have hpos : 0 < (ofText text).starts.countP (· ≤ offset) := by simp [ofText]
  rw [lineAt]
  split
  · next i hi => rw [hok i hi]
  · next i hi =>
    have := herror i hi
    rw [show i - 1 + 1 = i by omega, this]

/-- An offset is in the line after the line feeds before it. -/
theorem lineAt_of_append {text : String} (h : text.toList = front ++ back)
    (hapart : Apart text.toList (byteSize front)) :
    (ofText text).lineAt (byteSize front) = narrow (1 + front.count '\n') := by
  have hcount : (startsAfter 0 text.toList).countP (fun s => narrow s ≤ byteSize front) =
      (startsAfter 0 text.toList).countP (· ≤ byteSize front) := by
    refine List.countP_congr fun s hs => ?_
    simpa using hapart.narrow_le_iff (Nat.zero_add (byteSize text.toList) ▸ le_of_mem_startsAfter hs)
  have hall : (startsAfter 0 front).countP (· ≤ byteSize front) = (startsAfter 0 front).length := by
    rw [List.countP_eq_length]
    intro s hs
    simpa using le_of_mem_startsAfter hs
  have hnone : (startsAfter (0 + byteSize front) back).countP (· ≤ byteSize front) = 0 := by
    rw [List.countP_eq_zero]
    intro s hs
    simpa using lt_of_mem_startsAfter hs
  rw [hapart.lineAt_ofText, ofText, List.countP_cons_of_pos (by simp), List.countP_map,
    ← length_startsAfter 0 front, Nat.add_comm 1]
  refine congrArg (fun n => narrow (n + 1)) (hcount.trans ?_)
  rw [h, startsAfter_append, List.countP_append, hall, hnone, Nat.add_zero]

/-! ### Lines -/

/-- Holds of a line of a text, between what stands before it and after it. -/
structure IsLine (cs before line after : List Char) : Prop where
  text : cs = before ++ (line ++ after)
  starts : before = [] ∨ ∃ b, before = b ++ ['\n']
  plain : '\n' ∉ line
  ends : after = [] ∨ ∃ rest, after = '\n' :: rest

/-- The characters after the last line feed. -/
def lastLine (cs : List Char) : List Char := cs.rtakeWhile (· ≠ '\n')

theorem not_mem_lastLine (cs : List Char) : '\n' ∉ lastLine cs := by
  intro h
  simpa using List.mem_rtakeWhile_imp h

/-- More characters on a line lengthen it. -/
theorem lastLine_append (front : List Char) (h : '\n' ∉ back) :
    lastLine (front ++ back) = lastLine front ++ back := by
  have hback : ∀ c ∈ back.reverse, decide (c ≠ '\n') = true := by
    intro c hc
    have hne : c ≠ '\n' := fun heq => h (heq ▸ List.mem_reverse.1 hc)
    exact decide_eq_true hne
  rw [lastLine, List.rtakeWhile, List.reverse_append, List.takeWhile_append_of_pos hback,
    List.reverse_append, List.reverse_reverse]
  rfl

/-- The line around an offset. -/
theorem isLine_of_append (front back : List Char) :
    IsLine (front ++ back) (front.rdropWhile (· ≠ '\n'))
      (lastLine front ++ back.takeWhile (· ≠ '\n')) (back.dropWhile (· ≠ '\n')) where
  text := by
    rw [List.append_assoc, List.takeWhile_append_dropWhile, ← List.append_assoc, lastLine,
      List.rdropWhile_append_rtakeWhile]
  starts := by
    by_cases hnil : front.rdropWhile (· ≠ '\n') = []
    · exact .inl hnil
    · have hlast := List.rdropWhile_last_not (· ≠ '\n') front hnil
      rw [decide_eq_true_eq, Decidable.not_not] at hlast
      have hconcat := List.dropLast_concat_getLast hnil
      rw [hlast] at hconcat
      exact .inr ⟨_, hconcat.symm⟩
  plain := by
    rw [List.mem_append, not_or]
    exact ⟨not_mem_lastLine front, fun h => by simpa using List.mem_takeWhile_imp h⟩
  ends := by
    cases hdrop : back.dropWhile (· ≠ '\n') with
    | nil => exact .inl rfl
    | cons c rest =>
      have hhead := List.head?_dropWhile_not (· ≠ '\n') back
      rw [hdrop, List.head?_cons] at hhead
      exact .inr ⟨rest, by simpa using hhead⟩

theorem count_rdropWhile (front : List Char) :
    (front.rdropWhile (· ≠ '\n')).count '\n' = front.count '\n' := by
  conv_rhs => rw [← List.rdropWhile_append_rtakeWhile (p := (· ≠ '\n')) (l := front), List.count_append]
  rw [← lastLine, List.count_eq_zero.2 (not_mem_lastLine front), Nat.add_zero]

variable {text : String}

/-- The table has where a line begins. -/
theorem IsLine.lineStart? (h : IsLine text.toList before line after) (hsize : byteSize before < Span.limit) :
    (ofText text).lineStart? (1 + before.count '\n') = some (byteSize before) := by
  have hlength := length_startsAfter 0 before
  have hstart : (0 :: startsAfter 0 text.toList)[before.count '\n']? = some (byteSize before) := by
    rw [h.text, startsAfter_append, ← List.cons_append, List.getElem?_append_left (by simp [hlength])]
    rcases h.starts with rfl | ⟨b, rfl⟩
    · rfl
    · rw [startsAfter_append, ← List.cons_append, List.count_append, ← length_startsAfter 0 b]
      simp [startsAfter]
  rw [LineTable.lineStart?, if_neg (by omega), Nat.add_sub_cancel_left, starts_ofText, List.getElem?_map,
    hstart, Option.map_some, narrow_of_lt hsize]

/-- The table has where the next line begins, if there is one. -/
theorem IsLine.lineStart?_succ (h : IsLine text.toList before line after)
    (hsize : byteSize text.toList < Span.limit) :
    (ofText text).lineStart? (1 + before.count '\n' + 1) =
      if after = [] then none else some (byteSize before + byteSize line + 1) := by
  have hlength := length_startsAfter 0 before
  have hstart : (0 :: startsAfter 0 text.toList)[1 + before.count '\n']? =
      if after = [] then none else some (byteSize before + byteSize line + 1) := by
    rw [h.text, startsAfter_append, startsAfter_append, startsAfter_eq_nil h.plain, Nat.add_comm 1,
      List.getElem?_cons_succ, List.getElem?_append_right (Nat.le_of_eq hlength), hlength, Nat.sub_self]
    rcases h.ends with rfl | ⟨rest, rfl⟩
    · rfl
    · have hfeed : '\n'.utf8Size = 1 := rfl
      simp [startsAfter, hfeed]
  rw [LineTable.lineStart?, if_neg (by omega), Nat.add_sub_cancel, starts_ofText, List.getElem?_map, hstart]
  rcases h.ends with rfl | ⟨rest, rfl⟩
  · rfl
  · have hfeed : '\n'.utf8Size = 1 := rfl
    have htext := congrArg byteSize h.text
    rw [byteSize_append, byteSize_append, byteSize_cons, hfeed] at htext
    rw [if_neg (List.cons_ne_nil _ _), Option.map_some, narrow_of_lt (by omega)]

/-- A text has one more line than line feeds. -/
theorem length_splitOn (cs : List Char) : (cs.splitOn '\n').length = cs.count '\n' + 1 := by
  induction cs with
  | nil => rfl
  | cons c cs ih =>
    rw [List.splitOn_cons_eq_if_modifyHead, List.count_cons]
    split <;> simp [*]

/-- Between the line feeds of a text stand its lines. -/
theorem IsLine.getElem?_splitOn (h : IsLine cs before line after) :
    (cs.splitOn '\n')[before.count '\n']? = some line := by
  have hfirst : ((line ++ after).splitOn '\n')[0]? = some line := by
    rcases h.ends with rfl | ⟨rest, rfl⟩
    · rw [List.append_nil, List.splitOn_eq_singleton h.plain]
      rfl
    · rw [List.splitOn_append_cons_self_of_not_mem h.plain]
      rfl
  rw [h.text]
  rcases h.starts with rfl | ⟨b, rfl⟩
  · exact hfirst
  · rw [List.append_assoc, List.singleton_append, List.splitOn_append_cons_self, List.count_append,
      List.getElem?_append_right (by rw [length_splitOn]; simp), length_splitOn]
    simpa using hfirst

private theorem exists_count_eq {i : Nat} (h : i ≤ cs.count '\n') :
    ∃ front back, cs = front ++ back ∧ front.count '\n' = i := by
  induction cs generalizing i with
  | nil => exact ⟨[], [], rfl, (Nat.le_zero.1 h).symm⟩
  | cons c cs ih =>
    cases i with
    | zero => exact ⟨[], c :: cs, rfl, rfl⟩
    | succ i =>
      rw [List.count_cons] at h
      by_cases hc : c = '\n'
      · obtain ⟨front, back, rfl, hcount⟩ := ih (i := i) (by simpa [hc] using h)
        exact ⟨c :: front, back, rfl, by simp [hc, hcount]⟩
      · obtain ⟨front, back, rfl, hcount⟩ := ih (i := i + 1) (by simpa [hc] using h)
        exact ⟨c :: front, back, rfl, by simp [hc, hcount]⟩

/-- What stands between the line feeds of a text are its lines. -/
theorem exists_isLine {i : Nat} (h : (cs.splitOn '\n')[i]? = some line) :
    ∃ before after, IsLine cs before line after ∧ before.count '\n' = i := by
  have hi : i ≤ cs.count '\n' := by
    obtain ⟨hlt, -⟩ := List.getElem?_eq_some_iff.1 h
    rw [length_splitOn] at hlt
    omega
  obtain ⟨front, back, rfl, hcount⟩ := exists_count_eq hi
  have hline := isLine_of_append front back
  have hsame := hline.getElem?_splitOn
  rw [count_rdropWhile, hcount, h] at hsame
  rw [← Option.some.inj hsame] at hline
  exact ⟨_, _, hline, (count_rdropWhile front).trans hcount⟩

/-! ### Lines and columns -/

/-- Line feeds and characters of the last line are no more than the bytes. -/
theorem count_add_length_le (front : List Char) :
    front.count '\n' + (lastLine front).length ≤ byteSize front := by
  have hcount := count_rdropWhile front
  have hlength := congrArg List.length (List.rdropWhile_append_rtakeWhile (p := (· ≠ '\n')) (l := front))
  have hle := (front.rdropWhile (· ≠ '\n')).count_le_length (a := '\n')
  have hbytes := length_le_byteSize front
  rw [List.length_append] at hlength
  simp only [lastLine]
  omega

/-- Holds of the text before an offset if 32 bits hold the line and the column of the offset. -/
structure Fits (front : List Char) : Prop where
  line : 1 + front.count '\n' < Span.limit
  column : 1 + (lastLine front).length < Span.limit

/-- They hold those of every offset that is not the greatest one. -/
theorem fits_of_byteSize_lt (h : byteSize front + 1 < Span.limit) : Fits front := by
  have := count_add_length_le front
  exact ⟨by omega, by omega⟩

theorem byteSize_rdropWhile_add (front : List Char) :
    byteSize (front.rdropWhile (· ≠ '\n')) + byteSize (lastLine front) = byteSize front := by
  rw [← byteSize_append, lastLine, List.rdropWhile_append_rtakeWhile]

/-- The table has where the line of an offset begins. -/
theorem lineStart?_of_append (h : text.toList = front ++ back) (hapart : Apart text.toList (byteSize front)) :
    (ofText text).lineStart? (1 + front.count '\n') = some (byteSize (front.rdropWhile (· ≠ '\n'))) := by
  have hfront := byteSize_rdropWhile_add front
  have hle : byteSize front ≤ byteSize text.toList := by
    rw [h, byteSize_append]
    exact Nat.le_add_right _ _
  have hline := isLine_of_append front back
  rw [← h] at hline
  rw [← count_rdropWhile]
  refine hline.lineStart? ?_
  rcases hapart with hapart | hapart <;> omega

/-- An offset has the line after the line feeds before it, and there the column after the characters before
it. -/
theorem position_of_append (h : text.toList = front ++ back) (hapart : Apart text.toList (byteSize front))
    (hfits : Fits front) :
    (ofText text).position text (byteSize front) =
      (1 + front.count '\n', 1 + (lastLine front).length) := by
  have hfront : front.rdropWhile (· ≠ '\n') ++ lastLine front = front := List.rdropWhile_append_rtakeWhile
  have hsize := byteSize_rdropWhile_add front
  have hstop : max (min (byteSize front) (byteSize text.toList))
      (byteSize (front.rdropWhile (· ≠ '\n'))) = byteSize front := by
    rw [h, byteSize_append]
    omega
  have hslice := slice?_append (front.rdropWhile (· ≠ '\n')) (lastLine front) back
  rw [hsize, ← List.append_assoc, hfront, ← h] at hslice
  have hcolumn : columnAfter (lastLine front).length = 1 + (lastLine front).length := by
    rw [columnAfter_of_lt (Nat.add_comm 1 _ ▸ hfits.column), Nat.add_comm]
  simp only [position, lineAt_of_append h hapart, narrow_of_lt hfits.line, lineStart?_of_append h hapart,
    Option.getD_some, hstop, hslice, Option.map_some, hcolumn]

/-- Positions grow with the offset. -/
theorem position_lt {between : List Char} (h : text.toList = front ++ (between ++ back))
    (hsize : byteSize text.toList < Span.limit) (hne : between ≠ []) (hfits : Fits (front ++ between)) :
    Prod.Lex (· < ·) (· < ·) ((ofText text).position text (byteSize front))
      ((ofText text).position text (byteSize (front ++ between))) := by
  have hpos : 0 < byteSize between := by
    have := length_le_byteSize between
    have := List.length_pos_iff.2 hne
    omega
  have hfront : byteSize front + 1 < Span.limit := by
    rw [h, byteSize_append, byteSize_append] at hsize
    omega
  rw [position_of_append h (.inl hsize) (fits_of_byteSize_lt hfront),
    position_of_append (h.trans (List.append_assoc ..).symm) (.inl hsize) hfits]
  by_cases hfeed : '\n' ∈ between
  · have := List.count_pos_iff.2 hfeed
    rw [List.count_append]
    exact .left _ _ (by omega)
  · have := List.length_pos_iff.2 hne
    rw [List.count_append, List.count_eq_zero.2 hfeed, Nat.add_zero, lastLine_append front hfeed,
      List.length_append]
    exact .right _ (by omega)

/-- The start of its line and the bytes of the characters before its column lead back to an offset. -/
theorem offset_of_position (h : text.toList = front ++ back) (hsize : byteSize text.toList < Span.limit) :
    ∃ start line, (ofText text).lineStart? (1 + front.count '\n') = some start ∧
      (text.toList.splitOn '\n')[front.count '\n']? = some line ∧
      start + byteSize (line.take (lastLine front).length) = byteSize front := by
  have hsplit := (isLine_of_append front back).getElem?_splitOn
  rw [count_rdropWhile] at hsplit
  refine ⟨_, _, lineStart?_of_append h (.inl hsize), h ▸ hsplit, ?_⟩
  rw [List.take_left]
  exact byteSize_rdropWhile_add front

/-- A line ends with carriage returns only. -/
theorem dropEndWhile_isLineEnd (h : '\n' ∉ line) :
    dropEndWhile isLineEnd line = line.rdropWhile (· = '\r') := by
  rw [show dropEndWhile isLineEnd line = line.rdropWhile isLineEnd from rfl]
  induction line using List.reverseRecOn with
  | nil => rfl
  | append_singleton line c ih =>
    rw [List.mem_append, List.mem_singleton, not_or] at h
    have hsame : isLineEnd c = decide (c = '\r') := by simp [isLineEnd, Ne.symm h.2, Bool.beq_eq_decide_eq]
    rw [List.rdropWhile_concat, List.rdropWhile_concat, hsame, ih h.1]

/-- The text of a line is its characters without the carriage returns at its end. -/
theorem IsLine.lineText? (h : IsLine text.toList before line after)
    (hsize : byteSize text.toList < Span.limit) (hnumber : 1 + before.count '\n' + 1 < Span.limit) :
    (ofText text).lineText? text (1 + before.count '\n') =
      some (String.ofList (line.rdropWhile (· = '\r'))) := by
  have hbefore : byteSize before < Span.limit := by
    rw [h.text, byteSize_append] at hsize
    omega
  have hstart := h.lineStart? hbefore
  have hnext := h.lineStart?_succ hsize
  rcases h.ends with rfl | ⟨rest, rfl⟩
  · have hslice := slice?_append before line []
    rw [← h.text] at hslice
    have hstop : byteSize text.toList = byteSize before + byteSize line := by
      rw [h.text, List.append_nil, byteSize_append]
    simp only [LineTable.lineText?, next_of_lt hnumber, hstart, hnext, if_pos, Option.getD_none, hstop, hslice,
      dropEndWhile_isLineEnd h.plain, Option.bind_eq_bind, Option.bind_some, Option.pure_def]
  · have hslice := slice?_append before (line ++ ['\n']) rest
    have hfeed : '\n'.utf8Size = 1 := rfl
    rw [List.append_assoc, List.singleton_append, ← h.text, byteSize_append, byteSize_cons,
      byteSize_nil, hfeed, ← Nat.add_assoc] at hslice
    -- The line feed goes with the characters that end the line.
    have hdrop : dropEndWhile isLineEnd (line ++ ['\n']) = dropEndWhile isLineEnd line :=
      List.rdropWhile_concat_pos isLineEnd line '\n' rfl
    simp only [LineTable.lineText?, next_of_lt hnumber, hstart, hnext, if_neg (List.cons_ne_nil _ _),
      Option.getD_some, hslice, hdrop, dropEndWhile_isLineEnd h.plain, Option.bind_eq_bind, Option.bind_some,
      Option.pure_def]

/-- The table of a text has one more line than line feeds. -/
theorem count_ofText (text : String) : (ofText text).count = (text.toList.splitOn '\n').length := by
  rw [count, starts_ofText, List.length_map, List.length_cons, length_startsAfter, length_splitOn]

/-- In the table of a text an offset between two characters has one more than the line feeds before it as
its line and one more than the characters of the line before it as its column, where 32 bits hold both; they
do at every offset but the greatest. There the positions grow with the offset and lead back to it. The line
feeds of the text and the end divide it into its lines, and the text of each is what stands between two line
feeds, without the carriage returns at its end. -/
theorem position_ofText {text : String} (hsize : byteSize text.toList < Span.limit) :
    (∀ front back, text.toList = front ++ back →
      (byteSize front + 1 < Span.limit → Fits front) ∧
      (ofText text).lineAt (byteSize front) = min (1 + front.count '\n') (Span.limit - 1) ∧
      (Fits front → (ofText text).position text (byteSize front) =
        (1 + front.count '\n', 1 + (front.rtakeWhile (· ≠ '\n')).length))) ∧
    (∀ front between back, text.toList = front ++ (between ++ back) → between ≠ [] → Fits (front ++ between) →
      Prod.Lex (· < ·) (· < ·) ((ofText text).position text (byteSize front))
        ((ofText text).position text (byteSize (front ++ between)))) ∧
    (∀ front back, text.toList = front ++ back → Fits front → ∃ start line,
      (ofText text).lineStart? ((ofText text).position text (byteSize front)).1 = some start ∧
      (text.toList.splitOn '\n')[((ofText text).position text (byteSize front)).1 - 1]? = some line ∧
      start + byteSize (line.take (((ofText text).position text (byteSize front)).2 - 1)) = byteSize front) ∧
    (ofText text).count = (text.toList.splitOn '\n').length ∧
    ∀ i line, (text.toList.splitOn '\n')[i]? = some line → i + 2 < Span.limit →
      (ofText text).lineText? text (i + 1) = some (String.ofList (line.rdropWhile (· = '\r'))) := by
  refine ⟨fun front back h => ⟨fits_of_byteSize_lt, lineAt_of_append h (.inl hsize),
    position_of_append h (.inl hsize)⟩, fun front between back h => position_lt h hsize, ?_, count_ofText text, ?_⟩
  · intro front back h hfits
    rw [position_of_append h (.inl hsize) hfits]
    simpa only [Nat.add_sub_cancel_left] using offset_of_position h hsize
  · intro i line h hi
    obtain ⟨before, after, hline, rfl⟩ := exists_isLine h
    rw [Nat.add_comm]
    exact hline.lineText? hsize (by omega)

theorem position_ofText_carriageReturn : byteSize "αβ\r\nγδ".toList < Span.limit ∧
    (ofText "αβ\r\nγδ").position "αβ\r\nγδ" 8 = (2, 2) ∧
    Prod.Lex (· < ·) (· < ·) ((ofText "αβ\r\nγδ").position "αβ\r\nγδ" 5)
      ((ofText "αβ\r\nγδ").position "αβ\r\nγδ" 8) ∧
    (ofText "αβ\r\nγδ").lineText? "αβ\r\nγδ" 1 = some "αβ" := by
  have hsize : byteSize "αβ\r\nγδ".toList < Span.limit := by decide
  have hfits : Fits "αβ\r\nγ".toList := ⟨by decide, by decide⟩
  obtain ⟨hposition, hlt, -, -, htext⟩ := position_ofText hsize
  exact ⟨hsize, (hposition "αβ\r\nγ".toList "δ".toList rfl).2.2 hfits,
    hlt "αβ\r".toList "\nγ".toList "δ".toList rfl (by decide) hfits, htext 0 "αβ\r".toList rfl (by decide)⟩

/-- A text of line feeds. -/
def lineFeeds (n : Nat) : String := String.ofList (List.replicate n '\n')

theorem byteSize_lineFeeds (n : Nat) : byteSize (lineFeeds n).toList = n := by
  have hfeed : '\n'.utf8Size = 1 := rfl
  rw [lineFeeds, String.toList_ofList]
  induction n with
  | zero => rfl
  | succ n ih => rw [List.replicate_succ, byteSize_cons, ih, hfeed, Nat.add_comm]

theorem count_lineFeeds (n : Nat) : (lineFeeds n).toList.count '\n' = n := by
  rw [lineFeeds, String.toList_ofList, List.count_replicate_self]

/-- At the end of line feeds that are too many the greatest number stands for the line, and the last line feed
is counted in the column. -/
theorem position_lineFeeds {n : Nat} (h : n + 2 = Span.limit) :
    (ofText (lineFeeds (n + 1))).position (lineFeeds (n + 1)) (n + 1) = (n + 1, 2) := by
  have hlist : (lineFeeds (n + 1)).toList = (lineFeeds n).toList ++ ['\n'] := by
    simp [lineFeeds, List.replicate_succ']
  have hsize := byteSize_lineFeeds (n + 1)
  have hline : (ofText (lineFeeds (n + 1))).lineAt (n + 1) = n + 1 := by
    have hat := lineAt_of_append (List.append_nil (lineFeeds (n + 1)).toList).symm (.inl (by omega))
    rw [hsize, count_lineFeeds] at hat
    rw [hat, narrow]
    omega
  have hisLine : IsLine (lineFeeds (n + 1)).toList (lineFeeds n).toList [] ['\n'] := by
    refine ⟨hlist, ?_, List.not_mem_nil, .inr ⟨[], rfl⟩⟩
    cases n with
    | zero => exact .inl rfl
    | succ n => exact .inr ⟨List.replicate n '\n', by simp [lineFeeds, List.replicate_succ']⟩
  have hstart := hisLine.lineStart? (by rw [byteSize_lineFeeds]; omega)
  rw [count_lineFeeds, byteSize_lineFeeds, Nat.add_comm 1 n] at hstart
  have hslice : slice? n (n + 1) (lineFeeds (n + 1)).toList = some ['\n'] := by
    have hfeed : byteSize ['\n'] = 1 := rfl
    have hslice := slice?_append (lineFeeds n).toList ['\n'] []
    rwa [List.append_nil, ← hlist, byteSize_lineFeeds, hfeed] at hslice
  have hstop : max (min (n + 1) (n + 1)) n = n + 1 := by omega
  have hcolumn : columnAfter 1 = 2 := by decide
  simp only [position, hline, hstart, hsize, Option.getD_some, hstop, hslice, Option.map_some,
    List.length_singleton, hcolumn]

/-- The end of 2³² - 1 line feeds would have the line 2³², which 32 bits do not hold, and its first column. -/
theorem position_ne_of_lineFeeds :
    byteSize (lineFeeds (Span.limit - 1)).toList < Span.limit ∧
    (ofText (lineFeeds (Span.limit - 1))).position (lineFeeds (Span.limit - 1))
        (byteSize (lineFeeds (Span.limit - 1)).toList) = (Span.limit - 1, 2) ∧
    (Span.limit - 1, 2) ≠ (1 + (lineFeeds (Span.limit - 1)).toList.count '\n',
      1 + ((lineFeeds (Span.limit - 1)).toList.rtakeWhile (· ≠ '\n')).length) := by
  obtain ⟨n, hn⟩ : ∃ n, n + 2 = Span.limit := ⟨Span.limit - 2, rfl⟩
  rw [show Span.limit - 1 = n + 1 by omega, byteSize_lineFeeds, count_lineFeeds]
  refine ⟨by omega, position_lineFeeds hn, fun h => ?_⟩
  have hline := congrArg Prod.fst h
  omega

end LineTable

end SelfTypeLint
