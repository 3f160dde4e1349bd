import SelfTypeLint.Text.Dotted

/-!
# Prefixes of dotted names

A name inside a namespace has the parts of both, so its prefixes are those of the namespace and then
those that its own parts add.
-/

namespace SelfTypeLint.Dotted

/-- The dotted prefixes of a name with the name itself, shortest first; none for the empty name. -/
def prefixes (name : String) : List String :=
  if name.isEmpty then [] else prefixesIn "" (parts name)

/-- Holds of names that do not begin with a dot. -/
def Led (name : String) : Prop := ∃ c cs, name.toList = c :: cs ∧ c ≠ '.'

theorem Led.ne_empty {name : String} (h : Led name) : name ≠ "" := by
  rintro rfl
  obtain ⟨c, cs, hname, -⟩ := h
  simp at hname

theorem Led.append {name : String} (h : Led name) (rest : String) : Led (name ++ rest) := by
  obtain ⟨c, cs, hname, hc⟩ := h
  exact ⟨c, cs ++ rest.toList, by simp [hname], hc⟩

/-! ## Joining names -/

theorem join_empty (name : String) : join "" name = name := rfl

theorem join_of_ne {space : String} (h : space ≠ "") (name : String) :
    join space name = space ++ "." ++ name := by
  simp [join, h]

theorem Led.join {space name : String} (hspace : space = "" ∨ Led space) (hname : Led name) :
    Led (join space name) := by
  rcases hspace with rfl | hspace
  · exact hname
  · rw [join_of_ne hspace.ne_empty, String.append_assoc]
    exact hspace.append _

/-- A separator ends a piece. -/
theorem pieces_append_cons (sep : Char) (as bs : List Char) :
    pieces sep (as ++ sep :: bs) = pieces sep as ++ pieces sep bs := by
  induction as with
  | nil =>
    obtain ⟨first, rest, hbs⟩ := List.exists_cons_of_ne_nil (pieces_ne_nil sep bs)
    simp [pieces, hbs]
  | cons a as ih =>
    obtain ⟨first, rest, has⟩ := List.exists_cons_of_ne_nil (pieces_ne_nil sep as)
    rw [List.cons_append, pieces, pieces, ih, has, List.cons_append]
    dsimp only
    split <;> rfl

/-- The first piece is followed by a separator and the text of the other pieces, if there are any. -/
theorem eq_of_pieces_eq_cons {sep : Char} {cs first : List Char} {rest : List (List Char)}
    (h : pieces sep cs = first :: rest) :
    rest = [] ∧ cs = first ∨ ∃ more, cs = first ++ sep :: more ∧ pieces sep more = rest := by
  induction cs generalizing first with
  | nil =>
    obtain ⟨rfl, rfl⟩ := List.cons.inj h
    exact .inl ⟨rfl, rfl⟩
  | cons c cs ih =>
    obtain ⟨next, others, hcs⟩ := List.exists_cons_of_ne_nil (pieces_ne_nil sep cs)
    rw [pieces, hcs] at h
    dsimp only at h
    split at h
    · next hc =>
      obtain ⟨rfl, rfl⟩ := List.cons.inj h
      exact .inr ⟨cs, by rw [hc, List.nil_append], hcs⟩
    · obtain ⟨rfl, rfl⟩ := List.cons.inj h
      rcases ih hcs with ⟨hnil, hfirst⟩ | ⟨more, hfirst, hmore⟩
      · exact .inl ⟨hnil, by rw [hfirst]⟩
      · exact .inr ⟨more, by rw [hfirst, List.cons_append], hmore⟩

/-- A name inside a namespace has the parts of both. -/
theorem parts_join {space : String} (h : space ≠ "") (name : String) :
    parts (join space name) = parts space ++ parts name := by
  have hchars : (join space name).toList = space.toList ++ '.' :: name.toList := by
    simp [join_of_ne h]
  rw [parts, hchars, pieces_append_cons, List.map_append, parts, parts]

/-- Joining the pieces of a text to what stands before gives the text after it. -/
theorem foldl_join_pieces {cs first : List Char} {rest : List (List Char)} {before : String}
    (hbefore : before ≠ "") (h : pieces '.' cs = first :: rest) :
    (rest.map String.ofList).foldl join (before ++ String.ofList first) =
      before ++ String.ofList cs := by
  induction cs generalizing before first rest with
  | nil =>
    obtain ⟨rfl, rfl⟩ := List.cons.inj h
    rfl
  | cons c cs ih =>
    obtain ⟨next, others, hcs⟩ := List.exists_cons_of_ne_nil (pieces_ne_nil '.' cs)
    rw [pieces, hcs] at h
    dsimp only at h
    split at h
    · next hc =>
      obtain ⟨rfl, rfl⟩ := List.cons.inj h
      have hdot : before ++ "." ≠ "" := by simp
      have hbegin : join (before ++ String.ofList []) (String.ofList next) =
          before ++ "." ++ String.ofList next := by
        rw [show String.ofList [] = "" from rfl, String.append_empty, join_of_ne hbefore]
      rw [List.map_cons, List.foldl_cons, hbegin, ih hdot hcs, hc, String.append_assoc,
        show String.ofList ('.' :: cs) = "." ++ String.ofList cs from String.toList_inj.1 (by simp)]
    · obtain ⟨rfl, rfl⟩ := List.cons.inj h
      have hfront : ∀ ds, before ++ String.ofList (c :: ds) =
          before ++ String.ofList [c] ++ String.ofList ds :=
        fun ds => String.toList_inj.1 (by simp)
      rw [hfront next, hfront cs, ih (by simp) hcs]

/-- Joining the parts of a name one after another gives the name. -/
theorem foldl_join_parts {space name : String} (hname : Led name) :
    (parts name).foldl join space = join space name := by
  obtain ⟨first, rest, hpieces⟩ := List.exists_cons_of_ne_nil (pieces_ne_nil '.' name.toList)
  rw [parts, hpieces, List.map_cons, List.foldl_cons]
  by_cases hspace : space = ""
  · subst hspace
    obtain ⟨c, cs, hchars, hc⟩ := hname
    obtain ⟨next, others, hcs⟩ := List.exists_cons_of_ne_nil (pieces_ne_nil '.' cs)
    rw [hchars, pieces, hcs] at hpieces
    simp only [hc, if_false] at hpieces
    obtain ⟨rfl, rfl⟩ := List.cons.inj hpieces
    have hfront : ∀ ds, String.ofList (c :: ds) = String.ofList [c] ++ String.ofList ds :=
      fun ds => String.toList_inj.1 (by simp)
    rw [join_empty, join_empty, hfront, foldl_join_pieces (by simp) hcs, ← hfront, ← hchars,
      String.ofList_toList]
  · rw [join_of_ne hspace, foldl_join_pieces (by simp) hpieces, join_of_ne hspace,
      String.ofList_toList]

/-! ## Prefixes -/

/-- The last of the names is made of all parts. -/
theorem getLast?_prefixesIn (space : String) (ps : List String) :
    (prefixesIn space ps).getLast?.getD space = ps.foldl join space := by
  induction ps generalizing space with
  | nil => rfl
  | cons p ps ih =>
    rw [prefixesIn, List.getLast?_cons, List.foldl_cons, ← ih]
    rfl

theorem prefixesIn_append (space : String) (ps qs : List String) :
    prefixesIn space (ps ++ qs) = prefixesIn space ps ++ prefixesIn (ps.foldl join space) qs := by
  induction ps generalizing space with
  | nil => rfl
  | cons p ps ih =>
    simp only [List.cons_append, prefixesIn, List.foldl_cons, ih]

/-- The prefixes of a name inside a namespace are those of the namespace and those that the parts of
the name add to it. -/
theorem prefixes_join {space name : String} (hspace : space = "" ∨ Led space) (hname : Led name) :
    prefixes (join space name) = prefixes space ++ prefixesIn space (parts name) := by
  have hne := (Led.join hspace hname).ne_empty
  rcases hspace with rfl | hspace
  · rw [prefixes, if_neg (by simpa using hne)]
    rfl
  · rw [prefixes, if_neg (by simpa using hne), prefixes, if_neg (by simpa using hspace.ne_empty),
      parts_join hspace.ne_empty, prefixesIn_append, foldl_join_parts hspace, join_empty]

end SelfTypeLint.Dotted
