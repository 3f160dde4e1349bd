import SelfTypeLint.Proofs.Fix.Header
import SelfTypeLint.Proofs.Fix.Merge
import SelfTypeLint.Proofs.Workspace.References

/-!
# The edits of all fixes can be applied

The edits of each built-in fix are in harmony and stand between characters of the documents: a renaming
edits identifiers, a mark inserts, and a self argument is exchanged as a whole. Merging keeps this, so
that the edits of any number of fixes can be applied together.
-/

namespace SelfTypeLint

open Text Token Read

namespace TextEdit

/-- Holds of edits whose ends are two places between characters of a text, in order. -/
def Fits (e : TextEdit) (source : String) : Prop :=
  e.span.start ≤ e.span.stop ∧ IsBoundary source.toList e.span.start ∧
    IsBoundary source.toList e.span.stop

theorem fits_insertAt {source : String} {offset : Nat} (h : IsBoundary source.toList offset)
    (text : String) : (insertAt offset text).Fits source := ⟨Nat.le_refl offset, h, h⟩

theorem isInsert_insertAt (offset : Nat) (text : String) :
    (insertAt offset text).isInsert = true := Span.isEmpty_point offset

end TextEdit

namespace EditSet

/-- Holds of edits that fit the documents of a workspace. -/
structure Fits (s : EditSet) (w : Workspace) : Prop where
  ordered : s.Ordered
  fits : ∀ f, ∀ e ∈ s.editsFor f, ∃ doc, w.document? f = some doc ∧ e.Fits doc.text

theorem fits_empty (w : Workspace) : empty.Fits w := ⟨ordered_empty, by simp⟩

/-- The edits of one document as a set. -/
theorem editsFor_ofEdits (file : FileId) (edits : List TextEdit) :
    (ofEdits file edits).Ordered ∧
      ∀ f, (ofEdits file edits).editsFor f = if f = file then edits else [] := by
  have hall : ∀ s : EditSet, s.Ordered →
      (edits.foldl (·.push file ·) s).Ordered ∧ ∀ f, (edits.foldl (·.push file ·) s).editsFor f =
        if f = file then s.editsFor f ++ edits else s.editsFor f := by
    induction edits with
    | nil => exact fun s hs => ⟨hs, by simp⟩
    | cons e es ih =>
      intro s hs
      obtain ⟨hordered, hfor⟩ := ih (s.push file e) (hs.push file e)
      refine ⟨hordered, fun f => ?_⟩
      rw [List.foldl_cons, hfor, editsFor_push hs]
      split <;> simp
  obtain ⟨hordered, hfor⟩ := hall empty ordered_empty
  refine ⟨hordered, fun f => ?_⟩
  rw [ofEdits, hfor, editsFor_empty, List.nil_append]

/-- Edits of one document fit if each does. -/
theorem fits_ofEdits {w : Workspace} {file : FileId} {doc : Document}
    (hdoc : w.document? file = some doc) {edits : List TextEdit}
    (h : ∀ e ∈ edits, e.Fits doc.text) : (ofEdits file edits).Fits w := by
  obtain ⟨hordered, hfor⟩ := editsFor_ofEdits file edits
  refine ⟨hordered, fun f e he => ?_⟩
  rw [hfor] at he
  split at he
  · next hf => exact ⟨doc, hf ▸ hdoc, h e he⟩
  · exact absurd he List.not_mem_nil

theorem harmony_ofEdits {file : FileId} {edits : List TextEdit} (h : Harmony edits) (f : FileId) :
    Harmony ((ofEdits file edits).editsFor f) := by
  rw [(editsFor_ofEdits file edits).2]
  split
  · exact h
  · exact harmony_nil

/-- Edits that fit and of which no two overlap can be applied to a document. They exchange their pieces of
its text and copy what stands between. -/
theorem Fits.exists_applyTo {s : EditSet} {w : Workspace} (h : s.Fits w)
    (hapart : ∀ f, Apart (s.editsFor f)) {file : FileId} {doc : Document}
    (hdoc : w.document? file = some doc) : ∃ text, s.applyTo file doc.text = .ok text ∧
      TextEdit.splice? 0 (TextEdit.placeOrder (s.editsFor file)) doc.text.toList =
        some text.toList := by
  have hfits : ∀ e ∈ s.editsFor file, e.Fits doc.text := by
    intro e he
    obtain ⟨doc', hdoc', he'⟩ := h.fits file e he
    rw [hdoc] at hdoc'
    exact Option.some.inj hdoc' ▸ he'
  have hle : ∀ e ∈ s.editsFor file, e.span.start ≤ e.span.stop := fun e he => (hfits e he).1
  have hbounds : ∀ e ∈ s.editsFor file, IsBoundary doc.text.toList e.span.start ∧
      IsBoundary doc.text.toList e.span.stop := fun e he => (hfits e he).2
  obtain ⟨out, hout⟩ := TextEdit.exists_applyAll? hle hbounds (hapart file)
  refine ⟨String.ofList out, ?_, ?_⟩
  · unfold applyTo
    dsimp only
    rw [(EditConflict.first?_eq_none_iff _).2 (hapart file), hout]
  · rw [← TextEdit.applyAll?_eq_splice? hle hbounds (hapart file), hout, String.toList_ofList]

/-- Edits that fit and of which no two overlap can be applied to a workspace that is built from texts. -/
theorem Fits.exists_withEdit {s : EditSet} {sources : List SourceText}
    (h : s.Fits (Workspace.build sources)) (hapart : ∀ f, Apart (s.editsFor f)) :
    ∃ text : Document → String, (Workspace.build sources).withEdit s =
        .ok (.build ((Workspace.build sources).documents.map fun doc =>
          { doc.source with text := text doc })) ∧
      ∀ doc ∈ (Workspace.build sources).documents,
        TextEdit.splice? 0 (TextEdit.placeOrder (s.editsFor doc.id)) doc.text.toList =
          some (text doc).toList := by
  have htext : ∀ doc : Document, ∃ text, doc ∈ (Workspace.build sources).documents →
      s.applyTo doc.id doc.text = .ok text ∧
        TextEdit.splice? 0 (TextEdit.placeOrder (s.editsFor doc.id)) doc.text.toList =
          some text.toList := by
    intro doc
    by_cases hmem : doc ∈ (Workspace.build sources).documents
    · obtain ⟨text, htext⟩ := h.exists_applyTo hapart (Workspace.mem_documents_iff.1 hmem)
      exact ⟨text, fun _ => htext⟩
    · exact ⟨"", fun hmem' => absurd hmem' hmem⟩
  exact ⟨fun doc => Classical.choose (htext doc),
    Workspace.withEdit_eq fun doc hdoc => (Classical.choose_spec (htext doc) hdoc).1,
    fun doc hdoc => (Classical.choose_spec (htext doc) hdoc).2⟩

end EditSet

namespace Workspace

open Grammar

/-- Two identifiers of a document that overlap are the same. -/
private theorem span_eq_or_apart (source : String) {i j : Ident}
    (hi : i ∈ Token.idents (Cursor.ofSource source).ahead)
    (hj : j ∈ Token.idents (Cursor.ofSource source).ahead) :
    i.span = j.span ∨ i.span.stop ≤ j.span.start ∨ j.span.stop ≤ i.span.start := by
  obtain ⟨t, ht, -, rfl⟩ := mem_idents_iff.1 hi
  obtain ⟨u, hu, -, rfl⟩ := mem_idents_iff.1 hj
  have hpair := (placed_ofSource source).pairwise
  obtain ⟨m, hm, rfl⟩ := List.getElem_of_mem ht
  obtain ⟨n, hn, rfl⟩ := List.getElem_of_mem hu
  rw [List.pairwise_iff_getElem] at hpair
  rcases Nat.lt_trichotomy m n with h | rfl | h
  · exact .inr (.inl (hpair m n hm hn h))
  · exact .inl rfl
  · exact .inr (.inr (hpair n m hn hm h))

/-- The edits of a renaming fit and are in harmony. -/
theorem fits_renameTypeParam {sources : List SourceText} {param : TypeParamId} {new : String}
    {cancelled : Bool} {edit : EditSet}
    (h : (build sources).renameTypeParam param new cancelled = .ok edit) :
    edit.Fits (build sources) ∧ ∀ f, EditSet.Harmony (edit.editsFor f) := by
  obtain ⟨hordered, hedits⟩ := mem_editsFor_renameTypeParam h
  have hbounds : ∀ {doc : Document} {i : Ident},
      i ∈ Token.idents (Cursor.ofSource doc.text).ahead →
      i.span.start < i.span.stop ∧ IsBoundary doc.text.toList i.span.start ∧
        IsBoundary doc.text.toList i.span.stop := by
    intro doc i hi
    obtain ⟨t, ht, -, rfl⟩ := mem_idents_iff.1 hi
    exact (spanIn_of_mem ht).bounds
  constructor
  · refine ⟨hordered, fun f e he => ?_⟩
    obtain ⟨-, doc, hdoc, i, hi, hspan⟩ := hedits f e he
    refine ⟨doc, hdoc, ?_⟩
    rw [TextEdit.Fits, hspan]
    obtain ⟨hlt, hstart, hstop⟩ := hbounds hi
    exact ⟨Nat.le_of_lt hlt, hstart, hstop⟩
  · intro f a ha b hb
    obtain ⟨hnewA, doc, hdoc, i, hi, hspanA⟩ := hedits f a ha
    obtain ⟨hnewB, doc', hdoc', j, hj, hspanB⟩ := hedits f b hb
    obtain rfl : doc = doc' := Option.some.inj (hdoc.symm.trans hdoc')
    have hle := (hbounds hi).1
    have hle' := (hbounds hj).1
    obtain ⟨spanA, textA⟩ := a
    obtain ⟨spanB, textB⟩ := b
    dsimp only at hspanA hspanB hnewA hnewB
    subst hspanA hspanB hnewA hnewB
    rcases span_eq_or_apart doc.text hi hj with h | h
    · exact .inl (by rw [h])
    · right
      simp only [TextEdit.overlaps, TextEdit.isInsert, Span.isEmpty, Span.before]
      grind

end Workspace

namespace Fix

open Grammar Workspace EditSet

/-- A new using directive is put between two characters. -/
theorem fits_usingInsertion {sources : List SourceText} {file : FileId} {doc : Document}
    (hdoc : (build sources).document? file = some doc) (d : TypeDecl) (space : String) :
    (usingInsertion doc.tree d doc.text space).Fits doc.text := by
  unfold usingInsertion
  dsimp only
  split
  · next u hu =>
    apply TextEdit.fits_insertAt
    obtain ⟨us, hus, hlast⟩ := List.exists_of_findSome?_eq_some hu
    have hmem := List.mem_of_getLast? hlast
    have hall : u ∈ doc.tree.usings ++ doc.tree.members.flatMap Member.allUsings := by
      simp only [List.mem_append, List.mem_map, List.mem_reverse, List.mem_singleton] at hus
      rcases hus with ⟨n, hn, rfl⟩ | rfl
      · exact List.mem_append_right _ (Member.mem_allUsings_of_namespacesAround hn hmem)
      · exact List.mem_append_left _ hmem
    exact ((allPlacedIn_of_document? hdoc).usings u hall).bounds.2.2
  · exact TextEdit.fits_insertAt (isBoundary_headerEnd _) _

theorem isInsert_usingInsertion (tree : SyntaxTree) (d : TypeDecl) (source space : String) :
    (usingInsertion tree d source space).isInsert = true := by
  unfold usingInsertion
  dsimp only
  split <;> exact TextEdit.isInsert_insertAt _ _

/-- A mark is put between two characters. -/
theorem isBoundary_attributeOffset {sources : List SourceText} {file : FileId} {doc : Document}
    (hdoc : (build sources).document? file = some doc) {d : TypeDecl}
    (hd : d ∈ doc.tree.typeDecls) {p : TypeParam} (hp : p ∈ d.typeParams) :
    IsBoundary doc.text.toList p.attributeOffset := by
  have hplaced := (allPlacedIn_of_document? hdoc).types d hd
  unfold TypeParam.attributeOffset
  split
  · next v s hv => exact (hplaced.variances p hp v s hv).bounds.2.1
  · exact (hplaced.names p hp).bounds.2.1

theorem document?_of_syntaxTree {w : Workspace} {file : FileId} {tree : SyntaxTree}
    (h : w.host.syntaxTree file = some tree) : ∃ doc, w.document? file = some doc ∧ doc.tree = tree :=
  Option.map_eq_some_iff.1 h

/-- The declaration of a reported argument is one of the document's, with the argument in its base
list. -/
theorem targetDeclaration_eq_ok {w : Workspace} {diagnostic : Diagnostic} {cancelled : Bool}
    {d : TypeDecl} (h : targetDeclaration (.new w.host diagnostic cancelled) = .ok d) :
    ∃ doc, w.document? diagnostic.location.file = some doc ∧ d ∈ doc.tree.typeDecls ∧
      ∃ b ∈ d.baseList, b.span = diagnostic.location.span ∨
        ∃ a ∈ b.typeArgs, a.span = diagnostic.location.span := by
  unfold targetDeclaration at h
  split at h
  · exact absurd h (by simp)
  · next tree htree =>
    obtain ⟨doc, hdoc, rfl⟩ := document?_of_syntaxTree htree
    split at h
    · exact absurd h (by simp)
    · next e he =>
      split at h
      · next hany =>
        obtain rfl := Except.ok.inj h
        refine ⟨doc, hdoc, (SyntaxTree.enclosingTypeDecl_eq_some he).1, ?_⟩
        simp only [List.any_eq_true, Bool.or_eq_true, decide_eq_true_eq] at hany
        exact hany
      · exact absurd h (by simp)

/-- The edit that gives the declaring type fits. -/
theorem fits_argumentFix {sources : List SourceText} {diagnostic : Diagnostic} {cancelled : Bool}
    {action : CodeAction} {edit : EditSet}
    (h : argumentFix.compute (.new (build sources).host diagnostic cancelled) action = .ok edit) :
    edit.Fits (build sources) ∧ ∀ f, Harmony (edit.editsFor f) := by
  obtain ⟨d, htarget, h⟩ := exists_of_bind_eq_ok h
  obtain rfl := Except.ok.inj h
  obtain ⟨doc, hdoc, hd, b, hb, hspan⟩ := targetDeclaration_eq_ok htarget
  have hplaced := (allPlacedIn_of_document? hdoc).types d hd
  have hin : SpanIn (Cursor.ofSource doc.text).ahead diagnostic.location.span := by
    rcases hspan with hspan | ⟨a, ha, hspan⟩
    · exact hspan ▸ hplaced.bases b hb
    · exact hspan ▸ hplaced.arguments b hb a ha
  refine ⟨fits_ofEdits hdoc ?_, harmony_ofEdits (harmony_singleton _)⟩
  intro e he
  obtain rfl := List.mem_singleton.1 he
  obtain ⟨hlt, hbounds⟩ := hin.bounds
  exact ⟨Nat.le_of_lt hlt, hbounds⟩

/-- The edits that mark a parameter fit. -/
theorem fits_markerFix {sources : List SourceText} {diagnostic : Diagnostic} {cancelled : Bool}
    {action : CodeAction} {edit : EditSet}
    (h : markerFix.compute (.new (build sources).host diagnostic cancelled) action = .ok edit) :
    edit.Fits (build sources) ∧ ∀ f, Harmony (edit.editsFor f) := by
  simp only [markerFix] at h
  split at h
  · exact absurd h (by simp)
  · next symbol hsymbol =>
    split at h
    · next tree source htree hsource =>
      obtain ⟨doc, hdoc, rfl⟩ := document?_of_syntaxTree htree
      obtain ⟨doc', hdoc', rfl⟩ := Option.map_eq_some_iff.1 hsource
      obtain rfl : doc = doc' := Option.some.inj (hdoc.symm.trans hdoc')
      split at h
      · exact absurd h (by simp)
      · next d p hp =>
        obtain rfl := Except.ok.inj h
        obtain ⟨hd, hparam, -⟩ := SyntaxTree.findTypeParam_eq_some hp
        constructor
        · apply fits_ofEdits hdoc
          intro e he
          rcases List.mem_append.1 he with he | he
          · split at he
            · exact absurd he List.not_mem_nil
            · obtain rfl := List.mem_singleton.1 he
              exact fits_usingInsertion hdoc d _
          · obtain rfl := List.mem_singleton.1 he
            exact TextEdit.fits_insertAt (isBoundary_attributeOffset hdoc hd hparam) _
        · apply harmony_ofEdits
          apply harmony_of_isInsert
          intro e he
          rcases List.mem_append.1 he with he | he
          · split at he
            · exact absurd he List.not_mem_nil
            · obtain rfl := List.mem_singleton.1 he
              exact isInsert_usingInsertion _ _ _ _
          · obtain rfl := List.mem_singleton.1 he
            exact TextEdit.isInsert_insertAt _ _
    · exact absurd h (by simp)

/-- The edits that rename a parameter fit. -/
theorem fits_nameFix {sources : List SourceText} {diagnostic : Diagnostic} {cancelled : Bool}
    {action : CodeAction} {edit : EditSet}
    (h : nameFix.compute (.new (build sources).host diagnostic cancelled) action = .ok edit) :
    edit.Fits (build sources) ∧ ∀ f, Harmony (edit.editsFor f) := by
  simp only [nameFix] at h
  split at h
  · exact absurd h (by simp)
  · split at h
    · next param hparam edit' hedit =>
      obtain rfl := Except.ok.inj h
      exact fits_renameTypeParam hedit
    · exact absurd h (by simp)

end Fix

namespace FixAll

open EditSet SelfTypeLint.Fix

/-- The edits of an action are those that the fix with its key computes. -/
theorem exists_fix_of_apply_builtin {host : Host} {diagnostic : Diagnostic} {action : CodeAction}
    {edit : EditSet}
    (h : FixRegistry.builtin.apply (.new host diagnostic false) action = .ok edit) :
    ∃ fix ∈ [nameFix, markerFix, argumentFix], fix.key = action.key ∧
      fix.compute (.new host diagnostic false) action = .ok edit := by
  unfold FixRegistry.apply at h
  split at h
  · exact absurd h (by simp)
  · next fix hfix =>
    refine ⟨fix, (List.mem_filter.1 (List.mem_of_find?_eq_some hfix)).1, ?_, ?_⟩
    · simpa using List.find?_some hfix
    · simp only [FixRun.execute, FixRun.idle, FixContext.new, ne_eq, not_true_eq_false,
        if_false, Bool.false_eq_true] at h
      split at h
      · next he => exact he.trans h
      · exact absurd h (by simp)

/-- What the action with the key of the fix that renames gives are the edits of a renaming. -/
theorem exists_rename_of_apply {w : Workspace} {diagnostic : Diagnostic} {action : CodeAction}
    {edit : EditSet} (hkey : action.key = nameKey)
    (h : FixRegistry.builtin.apply (.new w.host diagnostic false) action = .ok edit) :
    ∃ param new, w.renameTypeParam param new false = .ok edit := by
  obtain ⟨fix, hmem, hfix, hcompute⟩ := exists_fix_of_apply_builtin h
  have hname : fix = nameFix := by
    rw [hkey] at hfix
    simp only [List.mem_cons, List.not_mem_nil, or_false] at hmem
    rcases hmem with rfl | rfl | rfl
    · rfl
    · exact absurd hfix (by decide)
    · exact absurd hfix (by decide)
  subst hname
  simp only [nameFix] at hcompute
  split at hcompute
  · exact absurd hcompute (by simp)
  · split at hcompute
    · next param _ _ _ hedit =>
      obtain rfl := Except.ok.inj hcompute
      exact ⟨param, _, hedit⟩
    · exact absurd hcompute (by simp)

/-- The edits that an action of a built-in fix gives fit and are in harmony. -/
theorem fits_apply_builtin {sources : List SourceText} {diagnostic : Diagnostic}
    {action : CodeAction} {edit : EditSet}
    (h : FixRegistry.builtin.apply (.new (Workspace.build sources).host diagnostic false) action =
      .ok edit) :
    edit.Fits (Workspace.build sources) ∧ ∀ f, Harmony (edit.editsFor f) := by
  obtain ⟨fix, hmem, -, hcompute⟩ := exists_fix_of_apply_builtin h
  simp only [List.mem_cons, List.not_mem_nil, or_false] at hmem
  rcases hmem with rfl | rfl | rfl
  · exact fits_nameFix hcompute
  · exact fits_markerFix hcompute
  · exact fits_argumentFix hcompute

/-- No action of a built-in fix fails for a request to stop that was not made. -/
theorem not_isCancelled_apply_builtin {w : Workspace} {diagnostic : Diagnostic}
    {action : CodeAction} {error : FixError}
    (h : FixRegistry.builtin.apply (.new w.host diagnostic false) action = .error error) :
    error.isCancelled = false := by
  unfold FixRegistry.apply at h
  split at h
  · obtain rfl := Except.error.inj h
    rfl
  · next fix hfix =>
    have hmem : fix ∈ [nameFix, markerFix, argumentFix] :=
      (List.mem_filter.1 (List.mem_of_find?_eq_some hfix)).1
    have hcompute : fix.compute (.new w.host diagnostic false) action = .error error := by
      simp only [FixRun.execute, FixRun.idle, FixContext.new, ne_eq, not_true_eq_false,
        if_false, Bool.false_eq_true] at h
      split at h
      · exact absurd h (by simp)
      · next he => exact he.trans h
    simp only [List.mem_cons, List.not_mem_nil, or_false] at hmem
    rcases hmem with rfl | rfl | rfl
    · simp only [nameFix] at hcompute
      split at hcompute
      · exact Except.error.inj hcompute ▸ rfl
      · next param hparam =>
        split at hcompute
        · exact absurd hcompute (by simp)
        · next e he =>
          obtain rfl := Except.error.inj hcompute
          cases e with
          | cancelled => exact absurd he (w.renameTypeParam_ne_cancelled param _)
          | _ => rfl
    · simp only [markerFix] at hcompute
      split at hcompute
      · exact Except.error.inj hcompute ▸ rfl
      · split at hcompute
        · split at hcompute
          · exact Except.error.inj hcompute ▸ rfl
          · exact absurd hcompute (by simp)
        · exact Except.error.inj hcompute ▸ rfl
    · simp only [argumentFix] at hcompute
      cases htarget : targetDeclaration (.new w.host diagnostic false) with
      | ok d =>
        rw [htarget] at hcompute
        exact absurd hcompute (by simp [bind, Except.bind, pure, Except.pure])
      | error e =>
        rw [htarget] at hcompute
        obtain rfl : e = error := Except.error.inj hcompute
        unfold targetDeclaration at htarget
        split at htarget
        · exact Except.error.inj htarget ▸ rfl
        · split at htarget
          · exact Except.error.inj htarget ▸ rfl
          · split at htarget
            · exact absurd htarget (by simp)
            · exact Except.error.inj htarget ▸ rfl

/-- What one more diagnostic makes of an outcome. -/
inductive Stepped (registry : FixRegistry) (ctx : FixContext) (key : Option String)
    (o : FixAllOutcome) : FixAllOutcome → Prop
  | notOffered (h : chooseAction registry ctx key = none) :
    Stepped registry ctx key o { o with notOffered := o.notOffered + 1 }
  | failed {action : CodeAction} {error : FixError}
    (haction : chooseAction registry ctx key = some action)
    (h : registry.apply ctx action = .error error) (hcancelled : error.isCancelled = false) :
    Stepped registry ctx key o { o with failures := o.failures ++ [⟨ctx.diagnostic, error⟩] }
  | conflicting {action : CodeAction} {edit : EditSet} {file : FileId} {conflict : EditConflict}
    (haction : chooseAction registry ctx key = some action)
    (happly : registry.apply ctx action = .ok edit)
    (h : merge o.edit edit = .error (file, conflict)) :
    Stepped registry ctx key o
      { o with conflicts := o.conflicts ++ [⟨ctx.diagnostic, file, conflict⟩] }
  | merged {action : CodeAction} {edit merged : EditSet}
    (haction : chooseAction registry ctx key = some action)
    (happly : registry.apply ctx action = .ok edit) (h : merge o.edit edit = .ok merged) :
    Stepped registry ctx key o { o with edit := merged, applied := o.applied + 1 }

/-- Where no request stops it, one more diagnostic does make that of the outcome. -/
theorem Stepped.step_eq {registry : FixRegistry} {host : Host} {key : Option String}
    {cancelled : Bool} {o o' : FixAllOutcome} {d : Diagnostic}
    (h : Stepped registry (.new host d cancelled) key o o')
    (hcheck : checkCancelled cancelled = .ok ()) :
    step registry host key cancelled o d = .ok o' := by
  cases h with
  | notOffered haction =>
    simp only [step, hcheck, haction]
    rfl
  | failed haction happly hcancelled =>
    simp only [step, hcheck, haction, happly, hcancelled]
    rfl
  | conflicting haction happly hmerge =>
    simp only [step, hcheck, haction, happly, hmerge]
    rfl
  | merged haction happly hmerge =>
    simp only [step, hcheck, haction, happly, hmerge]
    rfl

theorem stepped_of_step {registry : FixRegistry} {host : Host} {key : Option String}
    {cancelled : Bool} {o o' : FixAllOutcome} {d : Diagnostic}
    (h : step registry host key cancelled o d = .ok o') :
    Stepped registry (.new host d cancelled) key o o' := by
  cases hcheck : checkCancelled cancelled with
  | error e =>
    rw [step, hcheck] at h
    exact absurd h (by simp [bind, Except.bind])
  | ok _ =>
    have heq {p} (hp : Stepped registry (.new host d cancelled) key o p) :
        Stepped registry (.new host d cancelled) key o o' :=
      Except.ok.inj (hp.step_eq hcheck ▸ h) ▸ hp
    cases haction : chooseAction registry (.new host d cancelled) key with
    | none => exact heq (.notOffered haction)
    | some action =>
      cases happly : registry.apply (.new host d cancelled) action with
      | error e =>
        cases hcancelled : e.isCancelled with
        | true =>
          simp only [step, hcheck, haction, happly, hcancelled] at h
          exact absurd h (by simp [bind, Except.bind])
        | false => exact heq (.failed haction happly hcancelled)
      | ok edit =>
        cases hmerge : merge o.edit edit with
        | error conflict => exact heq (.conflicting haction happly hmerge)
        | ok merged => exact heq (.merged haction happly hmerge)

/-- The edits after one more diagnostic are those before, or those merged with the edits of the action
that is chosen for it. -/
theorem Stepped.edit_cases {registry : FixRegistry} {ctx : FixContext} {key : Option String}
    {o o' : FixAllOutcome} (h : Stepped registry ctx key o o') :
    o'.edit = o.edit ∨ ∃ action edit, chooseAction registry ctx key = some action ∧
      registry.apply ctx action = .ok edit ∧ merge o.edit edit = .ok o'.edit := by
  cases h with
  | notOffered _ | failed _ _ _ | conflicting _ _ _ => exact .inl rfl
  | merged haction happly hmerge => exact .inr ⟨_, _, haction, happly, hmerge⟩

/-- A diagnostic for which an action is chosen does not count as one without. -/
theorem Stepped.notOffered_eq {registry : FixRegistry} {ctx : FixContext} {key : Option String}
    {o o' : FixAllOutcome} (h : Stepped registry ctx key o o')
    (hchosen : chooseAction registry ctx key ≠ none) : o'.notOffered = o.notOffered := by
  cases h with
  | notOffered hnone => exact absurd hnone hchosen
  | failed _ _ _ | conflicting _ _ _ | merged _ _ _ => rfl

/-- What fixing the diagnostics one by one keeps. -/
structure Applicable (w : Workspace) (s : EditSet) : Prop extends s.Fits w where
  apart : ∀ f, Apart (s.editsFor f)

/-- One more diagnostic gives an outcome, whose edits can still be applied. -/
theorem exists_step_builtin {sources : List SourceText} {o : FixAllOutcome}
    (h : Applicable (Workspace.build sources) o.edit) (key : Option String) (d : Diagnostic) :
    ∃ o', step .builtin (Workspace.build sources).host key false o d = .ok o' ∧
      Applicable (Workspace.build sources) o'.edit := by
  have hcheck : checkCancelled false = .ok () := rfl
  cases haction : chooseAction .builtin (.new (Workspace.build sources).host d false) key with
  | none => exact ⟨_, (Stepped.notOffered haction).step_eq hcheck, h⟩
  | some action =>
    cases happly : FixRegistry.builtin.apply (.new (Workspace.build sources).host d false) action with
    | error e =>
      have he := not_isCancelled_apply_builtin happly
      exact ⟨_, (Stepped.failed haction happly he).step_eq hcheck, h⟩
    | ok edit =>
      cases hmerge : merge o.edit edit with
      | error conflict =>
        exact ⟨_, (Stepped.conflicting haction happly hmerge).step_eq hcheck, h⟩
      | ok merged =>
        refine ⟨_, (Stepped.merged haction happly hmerge).step_eq hcheck, ?_⟩
        obtain ⟨hfits, hharmony⟩ := fits_apply_builtin happly
        obtain ⟨hordered, hall⟩ := apart_merge h.ordered hfits.ordered h.apart hharmony hmerge
        refine ⟨⟨hordered, fun f e he => ?_⟩, fun f => (hall f).1⟩
        rcases (hall f).2 e he with he | he
        · exact h.fits f e he
        · exact hfits.fits f e he

/-- Fixing diagnostics that no request stops gives an outcome, whose edits can be applied. -/
theorem exists_fixAll_builtin (sources : List SourceText) (diagnostics : List Diagnostic)
    (key : Option String) :
    ∃ o, fixAll .builtin (Workspace.build sources).host diagnostics key false = .ok o ∧
      Applicable (Workspace.build sources) o.edit := by
  have hall : ∀ o : FixAllOutcome, Applicable (Workspace.build sources) o.edit →
      ∃ o', diagnostics.foldlM (step .builtin (Workspace.build sources).host key false) o = .ok o' ∧
        Applicable (Workspace.build sources) o'.edit := by
    induction diagnostics with
    | nil => exact fun o ho => ⟨o, rfl, ho⟩
    | cons d ds ih =>
      intro o ho
      obtain ⟨o', hstep, ho'⟩ := exists_step_builtin ho key d
      obtain ⟨o'', hrest, ho''⟩ := ih o' ho'
      refine ⟨o'', ?_, ho''⟩
      rw [List.foldlM_cons, hstep]
      exact hrest
  exact hall start ⟨fits_empty _, fun _ => List.Pairwise.nil⟩

/-- The documents of edits that can be applied are documents of the workspace. -/
theorem Applicable.exists_document {sources : List SourceText} {s : EditSet}
    (h : Applicable (Workspace.build sources) s) {f : FileId} (hf : f ∈ s.files) :
    ∃ doc ∈ (Workspace.build sources).documents, doc.id = f := by
  simp only [files, List.mem_map, List.mem_filter] at hf
  obtain ⟨⟨file, edits⟩, ⟨hmem, hne⟩, rfl⟩ := hf
  cases edits with
  | nil => exact absurd hne (by simp)
  | cons e es =>
    obtain ⟨doc, hdoc, -⟩ := h.fits file e (by
      rw [editsFor_eq_of_mem h.ordered hmem]
      exact List.mem_cons_self)
    obtain ⟨hid, -⟩ := Workspace.ofSource_of_document? hdoc
    refine ⟨doc, Workspace.mem_documents_iff.2 (hid ▸ hdoc), hid⟩

/-- The edits that can be applied give a workspace. -/
theorem Applicable.exists_withEdit {sources : List SourceText} {s : EditSet}
    (h : Applicable (Workspace.build sources) s) :
    ∃ w, (Workspace.build sources).withEdit s = .ok w := by
  obtain ⟨text, hw, -⟩ := h.toFits.exists_withEdit h.apart
  exact ⟨_, hw⟩

/-- Fixing any diagnostics with the built-in fixes gives edits that can be applied: in each document
they stand between characters, each from a place to one not before it, and no two of them overlap. -/
theorem fixAll_builtin_applies (sources : List SourceText) (diagnostics : List Diagnostic)
    (key : Option String) :
    ∃ o w, fixAll .builtin (Workspace.build sources).host diagnostics key false = .ok o ∧
      (∀ doc ∈ (Workspace.build sources).documents,
        (o.edit.editsFor doc.id).Pairwise (fun a b => a.overlaps b = false) ∧
          ∀ e ∈ o.edit.editsFor doc.id, e.span.start ≤ e.span.stop ∧
            IsBoundary doc.text.toList e.span.start ∧ IsBoundary doc.text.toList e.span.stop) ∧
      (∀ f ∈ o.edit.files, ∃ doc ∈ (Workspace.build sources).documents, doc.id = f) ∧
      (Workspace.build sources).withEdit o.edit = .ok w := by
  obtain ⟨o, ho, happly⟩ := exists_fixAll_builtin sources diagnostics key
  obtain ⟨w, hw⟩ := happly.exists_withEdit
  refine ⟨o, w, ho, ?_, fun f hf => happly.exists_document hf, hw⟩
  intro doc hdoc
  refine ⟨happly.apart doc.id, fun e he => ?_⟩
  obtain ⟨doc', hdoc', hfits⟩ := happly.fits doc.id e he
  rw [Workspace.mem_documents_iff.1 hdoc] at hdoc'
  exact Option.some.inj hdoc' ▸ hfits

end FixAll

end SelfTypeLint
