import SelfTypeLint.Proofs.Fix.Follows

/-!
# Documents with a marked parameter

A type parameter of a document without faults can be marked by an edit (`exists_marked`), and by two where the
directive for a namespace has to be added (`exists_marked_using`). In the new text it is the same parameter, and
has the word among its attributes.
-/

namespace SelfTypeLint.Workspace

open SelfTypeLint.Fix Token Text Respelling Grammar

variable {sources : List SourceText} {file : FileId} {doc : Document} {d : TypeDecl} {i : Nat} {p : TypeParam}
  {word space text : String}

/-- Holds of a text of a document without faults in which a type parameter is the same one as before and has a
further attribute of one word, where a namespace is visible. -/
structure MarkedIn (sources : List SourceText) (file : FileId) (d : TypeDecl) (i : Nat) (p : TypeParam)
    (word space text : String) : Prop where
  clean : (SyntaxTree.read file text).errors = []
  marked : ∃ d' ∈ (SyntaxTree.read file text).tree.typeDecls,
    Follows (build sources) (build ((build sources).withText file text)) file i d d' ∧
    isNamespaceVisible (build ((build sources).withText file text)).host (SyntaxTree.read file text).tree d' space =
      true ∧
    ∃ p' o t c, d'.typeParams[i]? = some p' ∧ p'.name = p.name ∧ t.text = word ∧ wordList o t c ∈ p'.attributes

/-- The text of a document replaced twice is the last one. -/
theorem withText_withText (sources : List SourceText) (file : FileId) (text text' : String) :
    (build ((build sources).withText file text)).withText file text' = (build sources).withText file text' := by
  have hat : ∀ (sources : List SourceText) (text : String) (i : Nat), ((build sources).withText file text)[i]? =
      (sources[i]?).map fun s => { s with text := if i = file then text else s.text } := by
    intro sources text i
    rw [withText, List.getElem?_map]
    change ((build sources).document? i).map _ = _
    rw [document?_build, Option.map_map]
    rfl
  refine List.ext_getElem? fun i => ?_
  rw [hat, hat, hat, Option.map_map]
  refine Option.map_congr fun s _ => ?_
  by_cases h : i = file <;> simp [h]

/-- A parameter can be marked where a namespace is visible. -/
theorem exists_marked (hdoc : (build sources).document? file = some doc) (hclean : doc.errors = [])
    (hd : d ∈ doc.tree.typeDecls) (hp : d.typeParams[i]? = some p) (hword : IsPlainWord word)
    (hvisible : isNamespaceVisible (build sources).host doc.tree d space = true) :
    ∃ front back text, doc.text.toList = front ++ back ∧ byteSize front = p.attributeOffset ∧
      String.toList text = front ++ ("[" ++ word ++ "] ").toList ++ back ∧
      MarkedIn sources file d i p word space text := by
  obtain ⟨-, hread, herrors⟩ := ofSource_of_document? hdoc
  rw [herrors] at hclean
  have hd₀ := hd
  rw [hread] at hd
  obtain ⟨front, back, hsource, hsize, m, p', hmarked, hclean', hparallel⟩ := read_marked hclean hd hp hword
  generalize htext : String.ofList (front ++ ("[" ++ word ++ "] ").toList ++ back) = text at hclean' hparallel
  refine ⟨front, back, text, hsource, hsize, by rw [← htext, String.toList_ofList], hclean', ?_⟩
  have henriched : SyntaxTree.Parallel (fun _ => TypeDecl.Patched m d (d.headerWith m i p')) Enriches
      (SyntaxTree.read file doc.text).tree (SyntaxTree.read file text).tree :=
    hparallel.imp (fun _ _ h => h) fun _ _ => SameUsings.enriches
  rw [← hread] at henriched
  obtain ⟨d', hd', hcounterparts⟩ := henriched.exists_counterpart hd₀
  have hlt : i < (d.typeParams.map m.typeParam).length := by
    rw [List.length_map]
    exact (List.getElem?_eq_some_iff.1 hp).1
  have hp' : d'.typeParams[i]? = some p' := by
    have hown := congrArg (·.typeParams[i]?) (hcounterparts.own.exchanged rfl)
    simp only [TypeDecl.headerWith, List.getElem?_set_self hlt] at hown
    exact hown
  have hfollows := follows_withText hdoc hd₀ hd' henriched hcounterparts hp hp'
  obtain ⟨o, t, c, htext, hattributes⟩ := hmarked.attributes
  exact ⟨d', hd', hfollows, hfollows.visible hdoc (document?_withText hdoc) hd₀ hd' hvisible, p', o, t, c, hp',
    hmarked.name, htext, by rw [hattributes]; simp⟩

/-- What a directive in the scope of a declaration brings in is visible there. -/
theorem isNamespaceVisible_of_inScope {host : Host} {tree : SyntaxTree} {u : UsingDirective}
    (h : InScope tree d u) (hkind : u.kind = .ofNamespace) (htarget : u.target = space) :
    isNamespaceVisible host tree d space = true := by
  have himports := imports_iff.2 ⟨hkind, htarget⟩
  simp only [isNamespaceVisible, Bool.or_eq_true, List.any_eq_true]
  rcases h with hu | ⟨n, hn, hu⟩
  · exact .inl (.inl (.inr ⟨u, hu, himports⟩))
  · exact .inl (.inr ⟨n, hn, u, hu, himports⟩)

/-- A parameter can be marked with the directive for a namespace added. -/
theorem exists_marked_using (hdoc : (build sources).document? file = some doc) (hclean : doc.errors = [])
    (hd : d ∈ doc.tree.typeDecls) (hp : d.typeParams[i]? = some p) (hword : IsPlainWord word)
    (hparts : ∀ w ∈ Dotted.parts space, IsPlainWord w)
    (hblanks : ∀ c ∈ (usingInsertion doc.tree d doc.text space).newText.toList, isBlank c = true → isLayout c = true) :
    ∃ text, TextEdit.applyAll? [usingInsertion doc.tree d doc.text space,
        .insertAt p.attributeOffset ("[" ++ word ++ "] ")] doc.text.toList = some (String.toList text) ∧
      MarkedIn sources file d i p word space text := by
  obtain ⟨-, hread, herrors⟩ := ofSource_of_document? hdoc
  rw [herrors] at hclean
  have hd₀ := hd
  rw [hread] at hd hblanks ⊢
  generalize he : usingInsertion (SyntaxTree.read file doc.text).tree d doc.text space = e at hblanks
  -- The directive comes first, so that the mark is put at the place that it has moved the parameter to.
  obtain ⟨front, back, hsource, hinsert, hclean₁, hparallel, d₁, hd₁, u, hcounterparts, hscope, hkind, htarget⟩ :=
    read_usingInsertion hclean hd hparts he hblanks
  have hp₁ : d₁.typeParams[i]? =
      some ((behind (byteSize front) (byteSize (front ++ e.newText.toList))).typeParam p) := by
    have hown := congrArg (·.typeParams[i]?) hcounterparts.own
    simp only [Respelling.header, List.getElem?_map, TypeDecl.header, hp, Option.map_some] at hown
    exact hown
  rw [← hread] at hparallel hcounterparts
  have hfollows₁ := follows_withText hdoc hd₀ hd₁ hparallel hcounterparts hp hp₁
  have hdoc₁ : (build ((build sources).withText file (String.ofList (front ++ e.newText.toList ++ back)))).document?
      file = some _ := document?_withText hdoc
  obtain ⟨front', back', text, hsource', hsize', htext, hclean₂, d₂, hd₂, hfollows₂, hvisible, p₂, o, t, c, hp₂, hname,
    hword', hmem⟩ := exists_marked hdoc₁ hclean₁ hd₁ hp₁ hword (isNamespaceVisible_of_inScope hscope hkind htarget)
  rw [withText_withText] at hfollows₂ hvisible
  refine ⟨text, ?_, hclean₂, d₂, hd₂, hfollows₁.trans hfollows₂, hvisible, p₂, o, t, c, hp₂, hname, hword', hmem⟩
  rw [attributeOffset_typeParam] at hsize'
  rw [hinsert, hsource, htext]
  exact TextEdit.applyAll?_pair (String.toList_ofList.symm.trans hsource') hsize'

end SelfTypeLint.Workspace
