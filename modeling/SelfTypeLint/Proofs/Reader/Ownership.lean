import SelfTypeLint.Proofs.Grammar.Rows
import SelfTypeLint.Proofs.Reader.FilesSound

/-!
# Owners of the identifiers of a text

Whatever a text holds, the reader gives each of its identifiers to one type declaration at most. In a
text without faults and without delegates, those from the name of a declaration to its end all go to it
and to those nested in it.
-/

namespace SelfTypeLint

open Token Grammar

theorem Token.mem_read_iff {source : String} {t : Token} (h : t.kind ≠ .eof) :
    t ∈ Token.read source ↔ t ∈ (Cursor.ofSource source).ahead := by
  rw [ahead_ofSource, Token.read, readFrom_eq, List.mem_append, List.mem_singleton]
  refine ⟨fun ht => ht.resolve_right ?_, .inl⟩
  rintro rfl
  exact h rfl

/-- Identifiers of tokens that stand one after another do so, too. -/
theorem Token.Placed.pairwise_idents {offset : Nat} {ts : List Token} (h : Placed offset ts) :
    (idents ts).Pairwise fun i j => i.span.stop ≤ j.span.start := by
  rw [idents, List.pairwise_filterMap]
  refine h.pairwise.imp fun {t u} htu i hi j hj => ?_
  split at hi
  · split at hj
    · obtain rfl := Option.some.inj hi
      obtain rfl := Option.some.inj hj
      exact htu
    · exact absurd hj (by simp)
  · exact absurd hi (by simp)

namespace SyntaxTree

variable (file : FileId) (source : String)

/-- Across all type declarations of a text no identifier is kept twice. -/
theorem nodup_idents_read :
    ((read file source).tree.typeDecls.flatMap fun d => d.idents.map (·.span)).Nodup := by
  have hnodup := nodup_of_subperm_idents (looseMembers_read file source).subperm
    (placed_ofSource source)
  rwa [memberIdents, List.map_flatMap] at hnodup

theorem eq_of_ident_span_read {d e : TypeDecl} (hd : d ∈ (read file source).tree.typeDecls)
    (he : e ∈ (read file source).tree.typeDecls) {i j : Ident} (hi : i ∈ d.idents)
    (hj : j ∈ e.idents) (hspan : i.span = j.span) : d = e :=
  eq_of_nodup_flatMap (nodup_idents_read file source) hd he (List.mem_map_of_mem hi)
    (hspan ▸ List.mem_map_of_mem hj)

/-- What a declaration and those nested in it keep stands in its span, in the order of the text. -/
theorem idents_within_read {d : TypeDecl} (hd : d ∈ (read file source).tree.typeDecls) :
    d.idents.Pairwise (fun i j => i.span.stop ≤ j.span.start) ∧
      ∀ e ∈ d.withNested, ∀ i ∈ e.idents, d.span.contains i.span = true := by
  obtain ⟨as, us, attributes, modifiers, ⟨xs, ys, hsplit⟩, hdecl⟩ :=
    (looseMembers_read file source).spelledIn hd
  have hplaced := placed_ofSource source
  rw [← hsplit, List.append_assoc] at hplaced
  have hinner : Placed 0 (as ++ us) := hplaced.append_right.append_left
  refine ⟨hinner.append_right.pairwise_idents.sublist hdecl.idents_sublist, fun e he i hi => ?_⟩
  obtain ⟨t, ht, -, rfl⟩ := mem_idents_iff.1 ((hdecl.spelledIn he rfl).placedIn.idents i hi)
  rw [hdecl.span_eq]
  exact ((spanIn_of_mem ht).within hinner).2.2

/-- In a text without faults and delegates, an identifier between the name of a declaration and its end
is kept by the declaration or by one that is nested in it. -/
theorem exists_owner_read (hclean : (read file source).errors = [])
    (hno : ∀ t ∈ (Cursor.ofSource source).ahead, t.kind ≠ .kwDelegate) {d : TypeDecl}
    (hd : d ∈ (read file source).tree.typeDecls) {t : Token}
    (ht : t ∈ (Cursor.ofSource source).ahead) (hk : t.kind = .ident)
    (hstart : d.nameSpan.start ≤ t.span.start) (hstop : t.span.stop ≤ d.span.stop) :
    ∃ e ∈ d.withNested, (⟨identName t.text, t.span⟩ : Ident) ∈ e.idents := by
  obtain ⟨is, hform⟩ := membersForm_read hclean
  obtain ⟨as, us, rest, attributes, modifiers, ⟨xs, ys, hsplit⟩, hdecl⟩ := hform.spelled hd
  obtain ⟨n, hn, -, -, hname⟩ := hdecl.exists_name
  have hplaced := placed_ofSource source
  rw [← hsplit, List.append_assoc] at hplaced
  have hinner : Placed 0 (as ++ us) := hplaced.append_right.append_left
  have hbefore : (startOf (as ++ us)) ≤ n.span.start :=
    ((Span.contains_iff _ _).1
      ((spanIn_of_mem (List.mem_append_right as hn)).within hinner).2.2).1
  have hfront : t ∈ as ++ us := by
    rw [← filter_contains_spanOf hplaced (by simp [hdecl.ne_nil]), ← List.append_assoc, hsplit]
    refine List.mem_filter.2 ⟨ht, (Span.contains_iff _ _).2 ⟨?_, ?_⟩⟩
    · rw [hname] at hstart
      exact Nat.le_trans hbefore hstart
    · rwa [← hdecl.span_eq]
  have htus : t ∈ us := by
    rcases List.mem_append.1 hfront with htas | htus
    · have hlater := (List.pairwise_append.1 hinner.pairwise).2.2 t htas n hn
      have hpos := (hinner.start_le hfront).2
      rw [hname] at hstart
      omega
    · exact htus
  have hperm := hdecl.shared.perm fun u hu =>
    hno u (hsplit ▸ List.mem_append_left ys (List.mem_append_right xs (List.mem_append_right as hu)))
  have hmem := hperm.mem_iff.2 (mem_idents_iff.2 ⟨t, htus, hk, rfl⟩)
  have hall : d.idents ++ identsOf d.nested = d.withNested.flatMap (·.idents) := by
    rw [TypeDecl.withNested_eq, List.flatMap_cons, identsOf]
  rw [hall] at hmem
  exact List.mem_flatMap.1 hmem

/-- The reader shares the identifiers of any text out to its type declarations. What a declaration keeps
are identifiers of the text at their places and without the sign in front, in the order of the text and
within the span of the declaration, and no identifier is kept twice, by one declaration or by two. If
the text has no faults and no delegates, each identifier from the name of a declaration to its end is
kept by exactly one of the declaration and those nested in it. -/
theorem read_shares_idents :
    (∀ d ∈ (read file source).tree.typeDecls, ∀ i ∈ d.idents,
      ∃ t ∈ Token.read source, t.kind = .ident ∧ i = ⟨identName t.text, t.span⟩) ∧
    ((read file source).tree.typeDecls.flatMap fun d => d.idents.map (·.span)).Nodup ∧
    (∀ d ∈ (read file source).tree.typeDecls,
      d.idents.Pairwise (fun i j => i.span.stop ≤ j.span.start) ∧
        ∀ i ∈ d.idents, d.span.contains i.span = true) ∧
    ((read file source).errors = [] → (∀ t ∈ Token.read source, t.kind ≠ .kwDelegate) →
      ∀ d ∈ (read file source).tree.typeDecls, ∀ t ∈ Token.read source, t.kind = .ident →
        d.nameSpan.start ≤ t.span.start → t.span.stop ≤ d.span.stop →
        ∃ e ∈ d.withNested, (⟨identName t.text, t.span⟩ : Ident) ∈ e.idents ∧
          ∀ e' ∈ d.withNested, (⟨identName t.text, t.span⟩ : Ident) ∈ e'.idents → e' = e) := by
  refine ⟨?_, nodup_idents_read file source, ?_, ?_⟩
  · intro d hd i hi
    obtain ⟨t, ht, hk, rfl⟩ := mem_idents_iff.1 (((allPlacedIn_read file source).types d hd).idents i hi)
    exact ⟨t, (mem_read_iff (by simp [hk])).2 ht, hk, rfl⟩
  · intro d hd
    obtain ⟨horder, hwithin⟩ := idents_within_read file source hd
    exact ⟨horder, hwithin d d.mem_withNested_self⟩
  · intro hclean hno d hd t ht hk hstart hstop
    have hno' : ∀ u ∈ (Cursor.ofSource source).ahead, u.kind ≠ .kwDelegate := by
      intro u hu
      exact hno u ((mem_read_iff (kind_ne_eof_of_mem_ofSource hu)).2 hu)
    obtain ⟨e, he, hie⟩ := exists_owner_read file source hclean hno' hd
      ((mem_read_iff (by simp [hk])).1 ht) hk hstart hstop
    refine ⟨e, he, hie, fun e' he' hie' => ?_⟩
    exact eq_of_ident_span_read file source ((read file source).tree.mem_typeDecls_of_withNested hd he')
      ((read file source).tree.mem_typeDecls_of_withNested hd he) hie' hie rfl

/-- After a nested type, the value of an enumeration is kept by the outer type alone. -/
theorem read_shares_idents_nested :
    let source := "class A \x7b class B<T> \x7b T x; \x7d enum E \x7b F \x7d \x7d"
    (read 0 source).errors = [] ∧ (∀ t ∈ Token.read source, t.kind ≠ .kwDelegate) ∧
    ∃ d ∈ (read 0 source).tree.typeDecls, d.name = "A" ∧ d.nested.map (·.name) = ["B"] ∧
      ∃ e ∈ d.withNested, (⟨identName "F", ⟨39, 40⟩⟩ : Ident) ∈ e.idents ∧
        ∀ e' ∈ d.withNested, (⟨identName "F", ⟨39, 40⟩⟩ : Ident) ∈ e'.idents → e' = e := by
  intro source
  obtain ⟨hclean, hno, ht, hdecls⟩ : (read 0 source).errors = [] ∧
      (∀ t ∈ Token.read source, t.kind ≠ .kwDelegate) ∧
      (⟨.ident, ⟨39, 40⟩, "F"⟩ : Token) ∈ Token.read source ∧
      (read 0 source).tree.typeDecls.map
          (fun d => (d.name, d.nested.map (·.name), d.nameSpan, d.span)) =
        [("A", ["B"], ⟨6, 7⟩, ⟨0, 44⟩), ("B", [], ⟨16, 17⟩, ⟨10, 29⟩)] := by decide +kernel
  obtain ⟨d, hd, hfacts⟩ := List.mem_map.1 (hdecls ▸ List.mem_cons_self)
  obtain ⟨hname, hrest⟩ := Prod.mk.inj hfacts
  obtain ⟨hnested, hrest⟩ := Prod.mk.inj hrest
  obtain ⟨hstart, hstop⟩ := Prod.mk.inj hrest
  refine ⟨hclean, hno, d, hd, hname, hnested, ?_⟩
  exact (read_shares_idents 0 source).2.2.2 hclean hno d hd _ ht rfl (by simp [hstart])
    (by simp [hstop])

end SyntaxTree

end SelfTypeLint
