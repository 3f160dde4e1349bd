import Mathlib.Data.List.Flatten
import SelfTypeLint.Proofs.Grammar.NameRows
import SelfTypeLint.Proofs.Reader.FilesSound

/-!
# Where the parts of a tree stand

The tree of a text, with or without faults, is laid out as the text is: every part begins and ends with
a token, holds its own parts one after another, and no two declarations or type parameters have their
names at one place (`read_laidOut`). The name of a type or a type parameter is the word at its place; that of
a namespace leaves out what stands between its words, and the signs of verbatim ones.
-/

namespace SelfTypeLint

open Token Grammar Text Outline

namespace Grammar

/-- The span of tokens in a row begins with one and ends with one. -/
theorem SpanIn.exists_ends {ts : List Token} {s : Span} (h : SpanIn ts s) :
    (∃ t ∈ ts, t.span.start = s.start) ∧ ∃ t ∈ ts, t.span.stop = s.stop := by
  obtain ⟨us, hus, hne, rfl⟩ := h
  constructor
  · obtain ⟨u, us, rfl⟩ := List.exists_cons_of_ne_nil hne
    exact ⟨u, hus.subset List.mem_cons_self, rfl⟩
  · refine ⟨us.getLast hne, hus.subset (List.getLast_mem hne), ?_⟩
    simp [spanOf, stopOf, List.getLast?_eq_some_getLast hne]

end Grammar

namespace Member

/-- The names of the type declarations of a member are among all of its names, in their order. -/
theorem declared_sublist_names (m : Member) :
    (m.typeDecls.flatMap TypeDecl.declared).Sublist m.names := by
  match m with
  | .type d =>
    rw [typeDecls_type, names_type]
  | .space n =>
    rw [typeDecls_space, names_space, List.flatMap_assoc]
    refine List.Sublist.cons _ (List.Sublist.flatMap_right _ fun m hm => ?_)
    have hlt : sizeOf m < 1 + sizeOf n :=
      Nat.lt_trans (List.sizeOf_lt_of_mem hm) (Nat.lt_add_left 1 n.sizeOf_members_lt)
    exact declared_sublist_names m
  termination_by sizeOf m
  decreasing_by simpa using hlt

end Member

namespace SyntaxTree

/-- The names of the type declarations of a tree are among all of its names, in their order. -/
theorem declared_sublist_names (t : SyntaxTree) :
    (t.typeDecls.flatMap TypeDecl.declared).Sublist t.names := by
  rw [typeDecls, names, List.flatMap_assoc]
  exact List.Sublist.flatMap_right _ fun m _ => m.declared_sublist_names

section

variable (file : FileId) (source : String)

theorem row_read : Row (Cursor.ofSource source).ahead (read file source).tree.outlines :=
  (looseMembers_read file source).row (placed_ofSource source)

theorem inRow_read : InRow (read file source).tree.outlines :=
  (row_read file source).inRow (placed_ofSource source)

theorem nodup_names_read : ((read file source).tree.names.map (·.span)).Nodup :=
  Row.nodup_spans (placed_ofSource source) (looseMembers_read file source).nameRow

theorem nodup_declared_read :
    ((read file source).tree.typeDecls.flatMap fun d => d.declared.map (·.span)).Nodup := by
  rw [← List.map_flatMap]
  exact (nodup_names_read file source).sublist ((declared_sublist_names _).map _)

/-- No declaration of a tree comes twice. -/
theorem nodup_typeDecls_read : (read file source).tree.typeDecls.Nodup := by
  have hdisjoint := (List.nodup_flatMap.1 (nodup_declared_read file source)).2
  refine hdisjoint.imp fun {d e} hde heq => ?_
  exact hde (List.mem_map_of_mem List.mem_cons_self)
    (heq ▸ List.mem_map_of_mem List.mem_cons_self)

/-- A type declaration of a tree is told by the place of its name. -/
theorem eq_of_nameSpan {d e : TypeDecl} (hd : d ∈ (read file source).tree.typeDecls)
    (he : e ∈ (read file source).tree.typeDecls) (h : d.nameSpan = e.nameSpan) : d = e :=
  eq_of_nodup_flatMap (nodup_declared_read file source) hd he
    (x := d.nameSpan) (List.mem_map_of_mem List.mem_cons_self)
    (h ▸ List.mem_map_of_mem List.mem_cons_self)

/-- A type declaration of a tree is spelled in the tokens of the text. -/
theorem spelledIn_read {d : TypeDecl} (hd : d ∈ (read file source).tree.typeDecls) :
    SpelledIn (Cursor.ofSource source).ahead d := (looseMembers_read file source).spelledIn hd

/-- The names that a type declaration introduces are identifiers of the text. -/
theorem mem_idents_of_declared {d : TypeDecl} (hd : d ∈ (read file source).tree.typeDecls)
    {i : Ident} (hi : i ∈ d.declared) : i ∈ idents (Cursor.ofSource source).ahead :=
  have hspelled := spelledIn_read file source hd
  hspelled.placedIn.idents i (hspelled.declared_subset hi)

/-- Every span of a tree is that of tokens in a row. -/
theorem spanIn_read {s : Span} (hs : s ∈ (read file source).tree.spans) :
    SpanIn (Cursor.ofSource source).ahead s := by
  rcases List.mem_append.1 hs with hs | hs
  · exact (row_read file source).spanIn s hs
  · obtain ⟨d, hd, hs⟩ := List.mem_flatMap.1 hs
    obtain ⟨i, hi, rfl⟩ := List.mem_map.1 hs
    obtain ⟨u, hu, -, rfl⟩ := mem_idents_iff.1 ((spelledIn_read file source hd).placedIn.idents i hi)
    exact spanIn_of_mem hu

/-- No span of a tree is empty. -/
theorem start_lt_stop_read {s : Span} (hs : s ∈ (read file source).tree.spans) : s.start < s.stop :=
  ((spanIn_read file source hs).within (placed_ofSource source)).2.1

/-- The tree of every text, with or without faults, is laid out as the text is. No span is empty, and
each begins with a token and ends with one. Parts contain their parts, and siblings stand one after
another in the order of the grammar. The names of namespaces, type declarations and type parameters
stand at different places; those of types and type parameters are the words there. Every name is that of the
words at its place, joined by dots, and is the text there exactly if the words are written out. -/
theorem read_laidOut :
    (∀ s ∈ (read file source).tree.spans, s.start < s.stop ∧ s.stop ≤ byteSize source.toList ∧
      (∃ u ∈ (Cursor.ofSource source).ahead, u.span.start = s.start) ∧
      ∃ u ∈ (Cursor.ofSource source).ahead, u.span.stop = s.stop) ∧
    InRow (read file source).tree.outlines ∧
    ((read file source).tree.names.map (·.span)).Nodup ∧
    (∀ d ∈ (read file source).tree.typeDecls, ∀ i ∈ d.declared,
      i ∈ (read file source).tree.names ∧ identName (i.span.text source) = i.name) ∧
    ∀ i ∈ (read file source).tree.names, ∃ us, us <:+: (Cursor.ofSource source).ahead ∧ DottedWords us ∧
      i.span = spanOf us ∧ i.name = ".".intercalate ((idents us).map (·.name)) ∧
      (identName (i.span.text source) = i.name ↔ WrittenOut us) := by
  refine ⟨?_, inRow_read file source, nodup_names_read file source, ?_, ?_⟩
  · intro s hs
    have hin := spanIn_read file source hs
    obtain ⟨hfirst, u, hu, hlast⟩ := hin.exists_ends
    obtain ⟨front, back, htext, hsize⟩ := (isBoundary_of_mem_ofSource hu).2
    refine ⟨start_lt_stop_read file source hs, ?_, hfirst, u, hu, hlast⟩
    rw [← hlast, ← hsize, htext, byteSize_append]
    exact Nat.le_add_right _ _
  · intro d hd i hi
    have hname := List.mem_flatMap.2 ⟨d, hd, hi⟩
    obtain ⟨u, hu, -, rfl⟩ := mem_idents_iff.1 (mem_idents_of_declared file source hd hi)
    refine ⟨(declared_sublist_names _).subset hname, ?_⟩
    rw [text_of_mem_ofSource hu]
  · intro i hi
    obtain ⟨us, hus, hwords, hspan, hname⟩ := (looseMembers_read file source).words hi
    refine ⟨us, hus, hwords, hspan, hname, ?_⟩
    rw [hspan, hname]
    exact identName_text_iff hwords hus

/-- A namespace whose name is not written without blanks. -/
def spacedName : String := "namespace A . B {}"

/-- The name of that namespace is not the text at its place. -/
theorem name_ne_text_spacedName : ∃ i ∈ (read 0 spacedName).tree.names,
    i.name = "A.B" ∧ identName (i.span.text spacedName) = "A . B" ∧
      identName (i.span.text spacedName) ≠ i.name := by
  have hnames : (read 0 spacedName).tree.names = [⟨"A.B", ⟨10, 15⟩⟩] := by decide +kernel
  rw [hnames]
  exact ⟨_, List.mem_singleton_self _, rfl, by decide, by decide⟩

end

end SyntaxTree

end SelfTypeLint
