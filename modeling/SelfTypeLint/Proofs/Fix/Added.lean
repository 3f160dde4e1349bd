import SelfTypeLint.Proofs.Fix.Exchanged
import SelfTypeLint.Proofs.Reader.Spans
import SelfTypeLint.Proofs.Symbol.Enriched

/-!
# Texts with a directive added

A text without faults stays so where the directive for a namespace of plain words is put behind another
directive (`read_using_behind`) or behind the header (`read_using_header`). All heads of declarations are
moved, and the directive is the only one that is new. It is in the scope of the declaration that it is
added for (`read_usingInsertion`).
-/

namespace SelfTypeLint

namespace AddsBehind

variable {last added : UsingDirective} {us us' : List UsingDirective} (h : AddsBehind last added us us')

include h

theorem enriches (hadded : added.kind = .ofNamespace) : Enriches us us' := by
  induction h with
  | nil => exact .refl []
  | other _ same _ ih => exact ih.cons same
  | last same _ ih => exact (ih.add hadded).cons same

theorem mem_of_mem (hlast : last ∈ us) : added ∈ us' := by
  induction h with
  | nil => exact absurd hlast List.not_mem_nil
  | other ne _ _ ih =>
    rcases List.mem_cons.1 hlast with rfl | hlast
    · exact absurd rfl ne
    · exact List.mem_cons_of_mem _ (ih hlast)
  | last _ _ _ => exact List.mem_cons_of_mem _ List.mem_cons_self

end AddsBehind

namespace Fix

open Text Token Grammar Respelling

variable {file : FileId} {source : String}

/-- A directive can be put behind another one. -/
theorem read_using_behind (hclean : (SyntaxTree.read file source).errors = []) {u : UsingDirective}
    (hlies : Lies (fun _ => False) (· = u) (SyntaxTree.read file source).tree.usings
      (SyntaxTree.read file source).tree.members) {space : String}
    (hparts : ∀ p ∈ Dotted.parts space, IsPlainWord p) {blanks : List Char}
    (hblanks : ∀ c ∈ blanks, isLayout c = true) :
    ∃ front back, source.toList = front ++ back ∧ byteSize front = u.span.stop ∧
      let line := blanks ++ ("using " ++ space ++ ";").toList
      let source' := String.ofList (front ++ line ++ back)
      (SyntaxTree.read file source').errors = [] ∧ ∃ offset,
        SyntaxTree.Parallel (fun _ d d' => d'.header =
            (behind (byteSize front) (byteSize (front ++ line))).header d.header)
          (AddsBehind u (usingDirective offset space)) (SyntaxTree.read file source).tree
          (SyntaxTree.read file source').tree := by
  have herror := SyntaxTree.kind_ne_error_of_read hclean
  obtain ⟨xs, hs, ys, hahead, ⟨s, rfl, hsemi, hstop⟩, hnew⟩ :=
    (directiveFilling (·.text source) u).read_filled hclean hlies
  obtain ⟨as, v, bs, cs, hpieces, hv⟩ := exists_pieces hahead
  obtain ⟨c, hmark, hmid, htext⟩ := hpieces.exists_mark hv (by rw [hsemi]; decide)
  obtain rfl : c = ';' := by
    rw [hsemi] at hmark
    simpa [listMarks] using hmark
  generalize hline : blanks ++ ("using " ++ space ++ ";").toList = line
  have hfront := readFrom_front_same hpieces.cut
    (kind_ne_error_of_tokensAt (by rwa [← hpieces.tiles, ← ahead_ofSource]))
    (by rw [textOf_append, hmid]; rfl) (by decide) (line ++ textOf cs) 0
  rw [hpieces.front, Nat.zero_add] at hfront
  obtain ⟨s', hs', htext', hreads⟩ := exists_reads_mark (k := .semi) (c := ';') (by decide)
    (byteSize (textOf as)) (line ++ textOf cs)
  have hadded := (reads_blanks hblanks (byteSize (textOf as) + byteSize [';']) _).append
    (reads_using hparts (byteSize (textOf as) + byteSize [';'] + byteSize blanks) (textOf cs))
  rw [hline] at hadded
  have hrefilled := hpieces.refilled herror hfront (hreads.append hadded)
  have hfill : ∀ m offset rest, (directiveHole u).new m [s] ([s'] ++ ([] ++ usingTokens offset space)) rest
      (usingDirective offset space) := fun m offset rest =>
    ⟨s, s', usingTokens offset space, rfl, rfl, hsemi, hs', htext'.trans htext.symm,
      fun slice => usingForm_usingTokens hparts offset slice rest⟩
  have hsource : source.toList = textOf as ++ [';'] ++ textOf cs := by
    rw [← hmid, hpieces.source_eq, String.toList_ofList, List.append_assoc]
  have hread := hnew _ _ _ _ hrefilled (hfill ..)
  rw [Pieces.moves, hmid, ← byteSize_append, ← byteSize_append, ← List.append_assoc, ← List.append_assoc]
    at hread
  refine ⟨textOf as ++ [';'], textOf cs, hsource, ?_, hread.1, _, hread.2⟩
  rw [← hstop, byteSize_append, ← hmid]
  exact (congrArg Span.stop hpieces.span).symm

/-- Members whose tokens move stay members, and keep all but places. -/
theorem parallel_members {m : Respelling} (hm : m.Moves) {S : List UsingDirective → List UsingDirective → Prop}
    (hS : ∀ us, S us (us.map m.usingDirective)) (ms : List Member) :
    List.Forall₂ (Member.Parallel (fun d d' => d'.header = m.header d.header) S) ms (m.memberList ms) := by
  rw [memberList_eq_map, List.forall₂_map_right_iff]
  exact List.forall₂_same.2 fun a _ => parallel_member a hS fun e _ => ⟨header_typeDecl m e, hm.word _⟩

/-- A directive can be put behind the header. -/
theorem read_using_header (hclean : (SyntaxTree.read file source).errors = []) {d : TypeDecl}
    (hd : d ∈ (SyntaxTree.read file source).tree.typeDecls) {space : String}
    (hparts : ∀ p ∈ Dotted.parts space, IsPlainWord p) :
    ∃ front back, source.toList = front ++ back ∧ byteSize front = headerEnd source.toList ∧
      let line := (usingLine space).toList
      let source' := String.ofList (front ++ line ++ back)
      (SyntaxTree.read file source').errors = [] ∧ ∃ offset,
        SyntaxTree.Parallel (fun _ d d' => d'.header =
            (behind (byteSize front) (byteSize (front ++ line))).header d.header)
          Enriches (SyntaxTree.read file source).tree
          (SyntaxTree.read file source').tree ∧
        usingDirective offset space ∈ (SyntaxTree.read file source').tree.usings := by
  have herror := SyntaxTree.kind_ne_error_of_read hclean
  obtain ⟨is, hform⟩ := SyntaxTree.membersForm_read hclean
  have htoken : ∃ t ∈ read source, t.kind ≠ .eof := by
    obtain ⟨t, ht, -⟩ := List.mem_map.1 (hform.spelled hd).name_mem
    exact ⟨t, (List.dropLast_sublist _).subset ht, kind_ne_eof_of_mem_ofSource ht⟩
  obtain ⟨-, front, back, hsource, hsize, -, hrun, -, hinsert⟩ := read_insert_usingLine source
  have hnew := (hinsert space (fun p hp => read_plain (hparts p hp)) htoken).2
  generalize hline : (usingLine space).toList = line at hnew
  have hahead : (Cursor.ofSource source).ahead = tokensAt (byteSize front) (tiles back) := by
    have h : read source = readFrom (byteSize front) back := by
      rw [Token.read, hsource, hrun.readFrom, Nat.zero_add]
    rw [ahead_ofSource, ← dropLast_read, h, readFrom_eq, List.dropLast_concat]
  generalize hm : behind (byteSize front) (byteSize (front ++ line)) = m
  have hmoves : m.Moves := hm ▸ moves_behind _ _
  have hahead' : (Cursor.ofSource (String.ofList (front ++ line ++ back))).ahead =
      usingTokens (byteSize front) space ++ (Cursor.ofSource source).ahead.map m.token := by
    have hne : (read source).map (shift (byteSize line)) ≠ [] := by
      obtain ⟨t, ht, -⟩ := htoken
      exact List.ne_nil_of_mem (List.mem_map_of_mem ht)
    have hmap := map_token_behind (byteSize front) (byteSize (front ++ line)) (tiles back) 0
    rw [hm, Nat.add_zero, ← hahead, Nat.add_zero, byteSize_append, Nat.add_comm, tokensAt_add, ← hahead] at hmap
    rw [ahead_ofSource, ← dropLast_read, hnew, List.dropLast_append_of_ne_nil hne, ← List.map_dropLast,
      dropLast_read, ← ahead_ofSource, hmap, hsize]
  have hkept : SliceKept m (·.text source) (·.text (String.ofList (front ++ line ++ back)))
      (Cursor.ofSource source).ahead := by
    have h := sliceKept_behind front (front ++ line) (tiles back)
    rw [textOf_tiles, hm, ← hahead, ← hsource, String.ofList_toList] at h
    exact h
  have hform' := hform.respell (hmoves.suited _) hkept (hmoves.identsKept is) (.refl [])
  have hfile := MembersForm.using (usingForm_usingTokens hparts (byteSize front) _ _) hform'
  rw [← hahead'] at hfile
  have hclean' : ∀ t ∈ (Cursor.ofSource (String.ofList (front ++ line ++ back))).ahead, t.kind ≠ .error := by
    rw [hahead']
    refine List.forall_mem_append.2 ⟨(reads_using hparts _ []).clean, fun t ht => ?_⟩
    obtain ⟨u, hu, rfl⟩ := List.mem_map.1 ht
    exact herror u hu
  have hnew' := Read.read_of_membersForm hclean' hfile file
  refine ⟨front, back, hsource, hsize, ?_⟩
  dsimp only
  rw [hnew', hm]
  have hus := fun us => (sameUsings_map m us).enriches
  exact ⟨rfl, _, ⟨rfl, (hus _).add rfl, parallel_members hmoves hus _⟩, List.mem_cons_self⟩

/-- Holds of a directive that stands in the file of a declaration, outside of namespaces or in one around
it. -/
def InScope (t : SyntaxTree) (d : TypeDecl) (u : UsingDirective) : Prop :=
  u ∈ t.usings ∨ ∃ n ∈ t.enclosingNamespaces d.span, u ∈ n.usings

theorem enclosingNamespaces_read {d : TypeDecl} {ns : List NamespaceDecl}
    (h : Within d (SyntaxTree.read file source).tree.members ns) :
    (SyntaxTree.read file source).tree.enclosingNamespaces d.span = ns :=
  SyntaxTree.enclosingNamespaces_eq (SyntaxTree.inRow_read file source)
    (fun _ hs => SyntaxTree.start_lt_stop_read file source hs) h

theorem lies_of_inScope {d : TypeDecl} (hd : d ∈ (SyntaxTree.read file source).tree.typeDecls)
    {u : UsingDirective} (h : InScope (SyntaxTree.read file source).tree d u) :
    Lies (fun _ => False) (· = u) (SyntaxTree.read file source).tree.usings
      (SyntaxTree.read file source).tree.members := by
  rcases h with hu | ⟨n, hn, hu⟩
  · exact .directive hu rfl
  · obtain ⟨x, hx, hmem⟩ := List.mem_flatMap.1 hd
    obtain ⟨ns, hns⟩ := exists_within hx hmem
    rw [enclosingNamespaces_read hns] at hn
    exact lies_of_within hns hn hu rfl

/-- The directive for a namespace of plain words can be added to a text without faults, if the blanks in
front of it are layout. All declarations keep their heads, and the directive is in the scope of the one
that it is added for. -/
theorem read_usingInsertion (hclean : (SyntaxTree.read file source).errors = []) {d : TypeDecl}
    (hd : d ∈ (SyntaxTree.read file source).tree.typeDecls) {space : String}
    (hparts : ∀ p ∈ Dotted.parts space, IsPlainWord p) {e : TextEdit}
    (he : usingInsertion (SyntaxTree.read file source).tree d source space = e)
    (hblanks : ∀ c ∈ e.newText.toList, isBlank c = true → isLayout c = true) :
    ∃ front back, source.toList = front ++ back ∧ e = .insertAt (byteSize front) e.newText ∧
      let source' := String.ofList (front ++ e.newText.toList ++ back)
      let R : FileId → TypeDecl → TypeDecl → Prop := fun _ d d' => d'.header =
            (behind (byteSize front) (byteSize (front ++ e.newText.toList))).header d.header
      (SyntaxTree.read file source').errors = [] ∧
        SyntaxTree.Parallel R Enriches (SyntaxTree.read file source).tree
          (SyntaxTree.read file source').tree ∧
        ∃ d' ∈ (SyntaxTree.read file source').tree.typeDecls, ∃ u,
          SyntaxTree.Counterparts R Enriches (SyntaxTree.read file source).tree
            (SyntaxTree.read file source').tree d d' ∧
          InScope (SyntaxTree.read file source').tree d' u ∧ u.kind = .ofNamespace ∧ u.target = space := by
  unfold usingInsertion at he
  dsimp only at he
  split at he
  · next u hu =>
    subst he
    obtain ⟨us, hus, hlast⟩ := List.exists_of_findSome?_eq_some hu
    have hmem := List.mem_of_getLast? hlast
    have hgroup : InScope (SyntaxTree.read file source).tree d u := by
      simp only [List.mem_append, List.mem_map, List.mem_reverse, List.mem_singleton] at hus
      rcases hus with ⟨n, hn, rfl⟩ | rfl
      · exact .inr ⟨n, hn, hmem⟩
      · exact .inl hmem
    have hlayout : ∀ c ∈ '\n' :: lineIndent source.toList u.span.start, isLayout c = true := by
      intro c hc
      rcases List.mem_cons.1 hc with rfl | hc
      · rfl
      · refine hblanks c (by simp [TextEdit.insertAt, hc]) ?_
        exact List.all_eq_true.1 List.all_takeWhile c hc
    have htext : (TextEdit.insertAt u.span.stop ("\n" ++ String.ofList (lineIndent source.toList u.span.start) ++
        "using " ++ space ++ ";")).newText.toList =
          '\n' :: lineIndent source.toList u.span.start ++ ("using " ++ space ++ ";").toList := by
      simp [TextEdit.insertAt]
    obtain ⟨front, back, hsource, hsize, hclean', offset, hparallel⟩ :=
      read_using_behind hclean (lies_of_inScope hd hgroup) hparts hlayout
    rw [← htext] at hclean' hparallel
    have henriches : ∀ us us', AddsBehind u (usingDirective offset space) us us' → Enriches us us' :=
      fun _ _ h => h.enriches rfl
    obtain ⟨d', hd', hcounterparts⟩ := hparallel.exists_counterpart hd
    refine ⟨front, back, hsource, by rw [hsize]; rfl, hclean', hparallel.imp (fun _ _ h => h) henriches, d', hd',
      usingDirective offset space, hcounterparts.imp henriches, ?_, rfl, rfl⟩
    rcases hgroup with hu | ⟨n, hn, hu⟩
    · exact .inl (hparallel.usings.mem_of_mem hu)
    · obtain ⟨ns, ns', hns, hns', hall⟩ := hcounterparts.within
      rw [enclosingNamespaces_read hns] at hn
      obtain ⟨n', hn', hcorresponds⟩ := exists_of_forall₂ hall hn
      exact .inr ⟨n', by rwa [enclosingNamespaces_read hns'], hcorresponds.usings.mem_of_mem hu⟩
  · subst he
    obtain ⟨front, back, hsource, hsize, hclean', offset, hparallel, hmem⟩ := read_using_header hclean hd hparts
    obtain ⟨d', hd', hcounterparts⟩ := hparallel.exists_counterpart hd
    exact ⟨front, back, hsource, by rw [hsize]; rfl, hclean', hparallel, d', hd', _, hcounterparts, .inl hmem,
      rfl, rfl⟩

end Fix

end SelfTypeLint
