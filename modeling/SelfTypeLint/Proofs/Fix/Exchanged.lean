import SelfTypeLint.Proofs.Fix.Written
import SelfTypeLint.Proofs.Grammar.SpaceNames
import SelfTypeLint.Proofs.Reader.Filled

/-!
# Texts after a fix

A text without faults stays so where a fix puts a declaring type in the place of an argument
(`read_argument`), or an attribute in front of a type parameter (`read_marked`), if the words it writes
are plain.
-/

namespace SelfTypeLint.Fix

open Text Token Grammar Respelling

variable {file : FileId} {source : String} {d : TypeDecl}

/-- The head of a declaration can be exchanged in its text. -/
theorem exists_head (hclean : (SyntaxTree.read file source).errors = [])
    (hd : d ∈ (SyntaxTree.read file source).tree.typeDecls) :
    ∃ xs hs ys, (Cursor.ofSource source).ahead = xs ++ (hs ++ ys) ∧ HeaderForm hs ys d.header ∧
      ∀ (source' : String) (m : Respelling) (hs' : List Token) (h : Header), Refilled m source source' xs hs' ys →
        NewHead d m hs hs' (ys.map m.token) h →
          (SyntaxTree.read file source').errors = [] ∧
          SyntaxTree.Parallel (fun _ => TypeDecl.Patched m d h) SameUsings
            (SyntaxTree.read file source).tree (SyntaxTree.read file source').tree := by
  obtain ⟨x, hx, hmem⟩ := List.mem_flatMap.1 hd
  exact (headFilling (·.text source) d).read_filled hclean (lies_of_mem_typeDecls hx hmem)

/-- The names of a declaration are plain words, if they are no keywords. -/
theorem isPlainWord_names (hclean : (SyntaxTree.read file source).errors = [])
    (hd : d ∈ (SyntaxTree.read file source).tree.typeDecls)
    (hfree : ∀ w ∈ d.name :: d.typeParams.map (·.name), TokenKind.ofWord? w = none) :
    ∀ w ∈ d.name :: d.typeParams.map (·.name), IsPlainWord w := by
  obtain ⟨xs, hs, ys, hahead, hhead, -⟩ := exists_head hclean hd
  have hsub : hs ⊆ (Cursor.ofSource source).ahead := by
    rw [hahead]
    exact fun t ht => List.mem_append_right _ (List.mem_append_left _ ht)
  have hname : ∀ w ∈ d.name :: d.typeParams.map (·.name), ∃ t ∈ hs, t.kind = .ident ∧ identName t.text = w := by
    intro w hw
    rcases List.mem_cons.1 hw with rfl | hw
    · obtain ⟨n, hn, hk, htext⟩ := hhead.exists_name
      exact ⟨n, hn, hk, htext.symm⟩
    · obtain ⟨p, hp, rfl⟩ := List.mem_map.1 hw
      obtain ⟨i, hi⟩ := List.mem_iff_getElem?.1 hp
      obtain ⟨as, ws, bs, rfl, hform, -⟩ := hhead.param hi
      cases hform with
      | @mk _ _ _ n _ _ _ _ word => exact ⟨n, by simp, word, rfl⟩
  intro w hw
  obtain ⟨t, ht, hk, rfl⟩ := hname w hw
  exact isPlainWord_identName (hsub ht) hk (hfree _ hw)

theorem exists_selfTypeText_cons (hname : IsPlainWord d.name) :
    ∃ c more, d.selfTypeText.toList = c :: more ∧ Opens c := by
  obtain ⟨c, cs, hshape, hstart, -⟩ := hname.shape
  unfold TypeDecl.selfTypeText
  split
  · exact ⟨c, cs, hshape, .inl hstart⟩
  · simp only [String.toList_append, hshape, List.cons_append]
    exact ⟨c, _, rfl, .inl hstart⟩

/-- A declaring type of plain words can be put in the place of an argument. -/
theorem read_argument (hclean : (SyntaxTree.read file source).errors = [])
    (hd : d ∈ (SyntaxTree.read file source).tree.typeDecls) {b a : TypeExpr} (hb : b ∈ d.baseList)
    (ha : a ∈ b.typeArgs) (hname : IsPlainWord d.name) (hparams : ∀ p ∈ d.typeParams, IsPlainWord p.name) :
    ∃ front old back, source.toList = front ++ old ++ back ∧
      a.span = ⟨byteSize front, byteSize front + byteSize old⟩ ∧
      (SyntaxTree.read file (String.ofList (front ++ d.selfTypeText.toList ++ back))).errors = [] := by
  have herror := SyntaxTree.kind_ne_error_of_read hclean
  obtain ⟨xs, hs, ys, hahead, hhead, hnew⟩ := exists_head hclean hd
  obtain ⟨fs, ws, gs, rfl, htype, hopens, hcloses, hfill⟩ := hhead.argument hb ha
  obtain ⟨us, stars, rfl, hus, hspan, hstars⟩ := (htype.form (typeEnds_nil ws)).covers
  obtain ⟨t, us, rfl⟩ := List.exists_cons_of_ne_nil hus
  have hsplit : (Cursor.ofSource source).ahead = (xs ++ fs) ++ (t :: us ++ (stars ++ gs ++ ys)) := by
    rw [hahead]
    simp
  obtain ⟨as, u, bs, cs, hpieces, hu⟩ := exists_pieces hsplit
  have hlast : lastKind (xs ++ fs) ∈ listMarks.map (·.1) := by
    rw [lastKind_append (ne_nil_of_lastKind hopens)]
    rcases hopens with h | h <;> rw [h] <;> decide
  have hstart : StartsItem t.kind := by
    rcases (htype.form (typeEnds_nil _)).kindAt_eq with h | h | h
    · exact .inr (.inl (by rw [show t.kind = .predefined from h]; rfl))
    · exact .inr (.inr h)
    · exact .inl h
  obtain ⟨v, vs, hvs, hv⟩ : ∃ v vs, stars ++ gs ++ ys = v :: vs ∧
      (v.kind ∈ listMarks.map (·.1) ∨ v.text = "*") := by
    cases stars with
    | nil =>
      obtain ⟨g, gs, rfl⟩ := List.exists_cons_of_ne_nil (ne_nil_of_kindAt hcloses)
      refine ⟨g, gs ++ ys, rfl, .inl ?_⟩
      rcases hcloses with h | h <;> rw [show g.kind = _ from h] <;> decide
    | cons s stars => exact ⟨s, stars ++ gs ++ ys, rfl, .inr (hstars s List.mem_cons_self).2⟩
  obtain ⟨ws, s, hsegment, hreads⟩ := reads_selfTypeText hname hparams hpieces.cut_back
    (hpieces.back.trans hvs) hv (byteSize (textOf as))
  obtain ⟨c, more, htext, hopen⟩ := exists_selfTypeText_cons hname
  have hfront := hpieces.front_behind_mark herror hu hlast hstart hopen
    (more ++ textOf cs)
  rw [← List.cons_append, ← htext] at hfront
  have hrefilled := hpieces.refilled herror hfront hreads
  generalize Pieces.moves as (u :: bs) d.selfTypeText.toList = m at hrefilled
  have hmoves := hrefilled.moves
  have hstars' : ∀ t ∈ stars.map m.token, t.kind = .op ∧ t.text = "*" := by
    intro t' ht'
    obtain ⟨t, ht, rfl⟩ := List.mem_map.1 ht'
    exact ⟨(hstars t ht).1, (hmoves.text_eq _ _).trans (hstars t ht).2⟩
  obtain ⟨e, he⟩ := hsegment.type hstars'
  have hrest : Agree ys (ys.map m.token) := by simpa using (Agree.refl []).moves hmoves ys
  obtain ⟨h', hhead'⟩ := hfill m _ e hmoves he _ hrest
  have hwide : Refilled m source _ xs (fs.map m.token ++ (ws ++ (stars ++ gs).map m.token)) ys := hrefilled.widen
  rw [List.map_append, ← List.append_assoc ws] at hwide
  refine ⟨textOf as, textOf (u :: bs), textOf cs, ?_, hspan.trans hpieces.span, ?_⟩
  · rw [hpieces.source_eq, String.toList_ofList, List.append_assoc]
  · rw [List.append_assoc]
    exact (hnew _ m _ h' hwide hhead').1

/-- Holds of a parameter at its new place with a further attribute of one word. -/
structure IsMarked (word : String) (n : Nat) (m : Respelling) (p p' : TypeParam) : Prop where
  name : p'.name = p.name
  nameSpan : p'.nameSpan = p.nameSpan.shift n
  attributes : ∃ o t c : Token, t.text = word ∧
    p'.attributes = p.attributes.map m.attributeList ++ [wordList o t c]

/-- An attribute of a plain word can be put in front of a type parameter. -/
theorem read_marked (hclean : (SyntaxTree.read file source).errors = [])
    (hd : d ∈ (SyntaxTree.read file source).tree.typeDecls) {i : Nat} {p : TypeParam}
    (hp : d.typeParams[i]? = some p) {name : String} (hname : IsPlainWord name) :
    ∃ front back, source.toList = front ++ back ∧ byteSize front = p.attributeOffset ∧
      ∃ (m : Respelling) (p' : TypeParam),
        IsMarked name (byteSize ("[" ++ name ++ "] ").toList) m p p' ∧
        (SyntaxTree.read file (String.ofList (front ++ ("[" ++ name ++ "] ").toList ++ back))).errors = [] ∧
        SyntaxTree.Parallel (fun _ => TypeDecl.Patched m d (d.headerWith m i p')) SameUsings
          (SyntaxTree.read file source).tree
          (SyntaxTree.read file (String.ofList (front ++ ("[" ++ name ++ "] ").toList ++ back))).tree := by
  have herror := SyntaxTree.kind_ne_error_of_read hclean
  obtain ⟨xs, hs, ys, hahead, hhead, hnew⟩ := exists_head hclean hd
  obtain ⟨fs, ws, gs, rfl, hform, hopens, hfill⟩ := hhead.param hp
  obtain ⟨ls, f, ns, rfl, hoffset, hkind, hlists, hnames, hmarked⟩ := hform.marked
  have hsplit : (Cursor.ofSource source).ahead = (xs ++ fs ++ ls) ++ ([f] ++ (ns ++ gs ++ ys)) := by
    rw [hahead]
    simp
  obtain ⟨as, u, bs, cs, hpieces, hu⟩ := exists_pieces hsplit
  have hlast : lastKind (xs ++ fs ++ ls) ∈ listMarks.map (·.1) := by
    rcases hlists with rfl | h
    · rw [List.append_nil, lastKind_append (ne_nil_of_lastKind hopens)]
      rcases hopens with h | h <;> rw [h] <;> decide
    · have hne : ls ≠ [] := by
        rintro rfl
        exact absurd h (by decide)
      rw [lastKind_append hne, h]
      decide
  have hstart : StartsItem f.kind := hkind.imp_right .inl
  obtain ⟨o, t, c, ho, ht, htext, hc, hadded⟩ := reads_markText hname (byteSize (textOf as))
    (textOf (u :: bs) ++ textOf cs)
  obtain ⟨more, hmark⟩ : ∃ more, ("[" ++ name ++ "] ").toList = '[' :: more := ⟨_, by simp; rfl⟩
  have hfront := hpieces.front_behind_mark herror hu hlast hstart (.inr rfl)
    (more ++ textOf (u :: bs) ++ textOf cs)
  rw [← List.cons_append, ← List.cons_append, ← hmark] at hfront
  generalize ("[" ++ name ++ "] ").toList = mark at hadded hfront
  have hold : Reads (byteSize (textOf as) + byteSize mark) (textOf (u :: bs)) (textOf cs)
      [f.shift (byteSize mark)] := by
    have hclean : ∀ t ∈ tokensAt (byteSize (textOf as)) (u :: bs), t.kind ≠ .error := by
      rw [hpieces.mid]
      refine List.forall_mem_singleton.2 fun h => ?_
      rcases hkind with hk | hk <;> rw [h] at hk <;> exact absurd hk (by decide)
    have h := reads_of_cut hpieces.cut.append_right (kind_ne_error_of_tokensAt hclean) (byteSize mark + byteSize (textOf as))
    rwa [tokensAt_add, hpieces.mid, Nat.add_comm] at h
  have hpieces' : Pieces source (xs ++ (fs ++ ls)) [f] (ns ++ gs ++ ys) as (u :: bs) cs := by
    rwa [← List.append_assoc xs]
  have hrefilled := (hpieces'.refilled herror (by simpa using hfront) (hadded.append hold)).widen
  have hspan := fun {v} hv => hpieces.span_back (t := v) hv mark
  generalize Pieces.moves as (u :: bs) (mark ++ textOf (u :: bs)) = m at hrefilled hspan
  have hmoves := hrefilled.moves
  obtain ⟨p', hform', hname', hattributes, hspan'⟩ := hmarked m (gs.map m.token ++ ys.map m.token) o t c
    (f.shift (byteSize mark)) hmoves ho ht hc rfl rfl
  have hrest : Agree ys (ys.map m.token) := by simpa using (Agree.refl []).moves hmoves ys
  have hhead' := hfill m _ _ p' hmoves hrest hform'
  refine ⟨textOf as, textOf (u :: bs) ++ textOf cs, hpieces.source_eq ▸ String.toList_ofList, ?_, m, p',
    ⟨hname', ?_, o, t, c, htext, hattributes⟩, ?_⟩
  · exact (congrArg Span.start hpieces.span).symm.trans hoffset
  · rcases hspan' with ⟨rfl, hspan'⟩ | ⟨hns, hspan'⟩
    · rcases hnames with ⟨-, h⟩ | ⟨n, h, -⟩
      · rw [hspan', h]
        rfl
      · exact absurd h (by simp)
    · rcases hnames with ⟨h, -⟩ | ⟨n, rfl, h⟩
      · exact absurd h hns
      · rw [hspan', h, hspan (by simp)]
  · rw [List.append_assoc]
    refine hnew _ m _ _ ?_ hhead'
    simpa using hrefilled

end SelfTypeLint.Fix
