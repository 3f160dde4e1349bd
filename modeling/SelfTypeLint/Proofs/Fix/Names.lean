import SelfTypeLint.Proofs.Analysis.Findings
import SelfTypeLint.Proofs.Fix.Applies
import SelfTypeLint.Proofs.Workspace.Respelled

/-!
# Fixing names

Every renaming is checked against the names of the documents as they are. Many of them are merged, so a
declaration may get one name twice. This is the only way in which parameters come to share a name.
-/

namespace SelfTypeLint

open Token Grammar

namespace Workspace

variable {sources : List SourceText} {doc : Document}

/-- Holds of an edit that renames: it stands at a reference to its old name, in a declaration that
does not capture the new one. -/
def Renames (w : Workspace) (f : FileId) (e : TextEdit) : Prop :=
  ∃ doc, w.document? f = some doc ∧ ∃ d ∈ doc.tree.typeDecls,
    d.capture? e.newText = none ∧ ∃ old, e.span ∈ d.references old

/-- An edit that renames stands at an identifier of a declaration that has the new name, if at all,
only among the attributes of its parameters. -/
theorem Renames.exists_owner {e : TextEdit} (h : (build sources).Renames doc.id e)
    (hdoc : doc ∈ (build sources).documents) : ∃ d ∈ doc.tree.typeDecls,
      (∃ i ∈ d.idents, i.span = e.span) ∧ ∀ i ∈ d.idents, i.name = e.newText →
        ∃ p ∈ d.typeParams, ∃ l ∈ p.attributes, l.span.contains i.span = true := by
  obtain ⟨doc', hdoc', d, hd, hnone, old, hspan⟩ := h
  obtain rfl : doc = doc' := Option.some.inj ((mem_documents_iff.1 hdoc).symm.trans hdoc')
  obtain ⟨n, hn, -, i, hi, -, hi'⟩ := d.exists_of_mem_references hspan
  refine ⟨n, doc.tree.mem_typeDecls_of_withNested hd hn, ⟨i, hi, hi'⟩, ?_⟩
  intro j hj hname
  exact d.exists_list_of_capture?_eq_none hnone hn hj hname

/-- The new name of a parameter is none of the names that its declaration has. -/
theorem Renames.newText_ne {e : TextEdit} (h : (build sources).Renames doc.id e)
    (hdoc : doc ∈ (build sources).documents) (hclean : doc.errors = []) {d : TypeDecl}
    (hd : d ∈ doc.tree.typeDecls) {p q : TypeParam} (hp : p ∈ d.typeParams)
    (hspan : e.span = p.nameSpan) (hq : q ∈ d.typeParams) : e.newText ≠ q.name := by
  obtain ⟨n, hn, ⟨i, hi, hie⟩, hlists⟩ := h.exists_owner hdoc
  have hown := ownsParams_of_mem hdoc hclean hd
  obtain rfl : n = d := eq_of_ident_span hdoc hn hd hi (hown.names p hp) (hie.trans hspan)
  intro hname
  obtain ⟨r, hr, l, hl, hcontains⟩ := hlists _ (hown.names q hq) hname.symm
  rw [hown.outside q hq r hr l hl] at hcontains
  exact absurd hcontains (by simp)

/-- Holds of a declaration no two parameters of which get one name. -/
def NamedApart (edits : List TextEdit) (d : TypeDecl) : Prop :=
  d.typeParams.Pairwise fun p q => ∀ a ∈ edits, ∀ b ∈ edits,
    a.span = p.nameSpan → b.span = q.nameSpan → a.newText ≠ b.newText

instance (edits : List TextEdit) (d : TypeDecl) : Decidable (NamedApart edits d) :=
  inferInstanceAs (Decidable (List.Pairwise _ d.typeParams))

/-- Parameters whose names differ have different new names exactly if no two of them get one. -/
theorem nodup_names_respelled_iff {s : EditSet} (hdoc : doc ∈ (build sources).documents)
    (hclean : doc.errors = []) (hall : TextEdit.RespellAll (s.editsFor doc.id) doc.text)
    (hrenames : ∀ e ∈ s.editsFor doc.id, (build sources).Renames doc.id e) {d : TypeDecl}
    (hd : d ∈ doc.tree.typeDecls) (hnodup : (d.typeParams.map (·.name)).Nodup) :
    ((((TextEdit.respelling (s.editsFor doc.id) doc.text).typeDecl d).typeParams.map
      (·.name)).Nodup) ↔ NamedApart (s.editsFor doc.id) d := by
  have hnames : ((TextEdit.respelling (s.editsFor doc.id) doc.text).typeDecl d).typeParams.map
      (·.name) = d.typeParams.map fun p =>
        (TextEdit.wordAt (s.editsFor doc.id) p.nameSpan).getD p.name := by
    rw [Respelling.typeParams_typeDecl, List.map_map]
    rfl
  rw [hnames, List.Nodup, List.pairwise_map, NamedApart]
  rw [List.Nodup, List.pairwise_map] at hnodup
  constructor
  · intro h
    refine h.imp ?_
    intro p q hne a ha b hb hap hbq htext
    have hwa : TextEdit.wordAt (s.editsFor doc.id) p.nameSpan = some a.newText :=
      hall.wordAt_iff.2 (hap ▸ ha)
    have hwb : TextEdit.wordAt (s.editsFor doc.id) q.nameSpan = some b.newText :=
      hall.wordAt_iff.2 (hbq ▸ hb)
    rw [hwa, hwb] at hne
    exact hne htext
  · intro h
    refine List.Pairwise.imp_of_mem ?_ (hnodup.and h)
    rintro p q hp hq ⟨hne, hapart⟩
    cases hwp : TextEdit.wordAt (s.editsFor doc.id) p.nameSpan with
    | none =>
      cases hwq : TextEdit.wordAt (s.editsFor doc.id) q.nameSpan with
      | none => exact hne
      | some v =>
        have hv := TextEdit.mem_of_wordAt hwq
        exact ((hrenames _ hv).newText_ne hdoc hclean hd hq rfl hp).symm
    | some u =>
      have hu := TextEdit.mem_of_wordAt hwp
      cases hwq : TextEdit.wordAt (s.editsFor doc.id) q.nameSpan with
      | none => exact (hrenames _ hu).newText_ne hdoc hclean hd hp rfl hq
      | some v => exact hapart _ hu _ (TextEdit.mem_of_wordAt hwq) rfl rfl

end Workspace

namespace FixAll

open SelfTypeLint.Fix Workspace EditSet

/-- The action with the key of the fix that renames gives edits that rename. -/
theorem renames_of_apply {w : Workspace} {diagnostic : Diagnostic} {action : CodeAction}
    {edit : EditSet} (hkey : action.key = nameKey)
    (h : FixRegistry.builtin.apply (.new w.host diagnostic false) action = .ok edit) :
    ∀ f, ∀ e ∈ edit.editsFor f, w.Renames f e := by
  obtain ⟨param, new, hrename⟩ := exists_rename_of_apply hkey h
  intro f e he
  obtain ⟨hnew, symbol, -, doc, hdoc, d, hd, hnone, hspan⟩ :=
    (exists_part_of_mem_editsFor hrename).2 f e he
  exact ⟨doc, hdoc, d, hd, hnew ▸ hnone, symbol.name, hspan⟩

/-- What fixing the diagnostics by renaming keeps. -/
structure Renaming (w : Workspace) (s : EditSet) : Prop extends Applicable w s where
  renames : ∀ f, ∀ e ∈ s.editsFor f, w.Renames f e

/-- One more renaming. -/
theorem Renaming.step {sources : List SourceText} {o o' : FixAllOutcome} {d : Diagnostic}
    (h : Renaming (Workspace.build sources) o.edit)
    (hstep : step .builtin (Workspace.build sources).host (some nameKey) false o d = .ok o') :
    Renaming (Workspace.build sources) o'.edit := by
  obtain ⟨o'', ho'', happlicable⟩ := exists_step_builtin h.toApplicable (some nameKey) d
  obtain rfl : o'' = o' := Except.ok.inj (ho''.symm.trans hstep)
  refine ⟨happlicable, fun f e he => ?_⟩
  rcases (stepped_of_step hstep).edit_cases with hsame | ⟨action, edit, haction, happly, hmerge⟩
  · rw [hsame] at he
    exact h.renames f e he
  · have hkey : action.key = nameKey := by
      simpa using List.find?_some haction
    obtain ⟨hfits, hharmony⟩ := fits_apply_builtin happly
    obtain ⟨-, hall⟩ := apart_merge h.ordered hfits.ordered h.apart hharmony hmerge
    rcases (hall f).2 e he with he | he
    · exact h.renames f e he
    · exact renames_of_apply hkey happly f e he

/-- Fixing diagnostics by renaming gives an outcome, whose edits rename. -/
theorem exists_fixAll_name (sources : List SourceText) (diagnostics : List Diagnostic) :
    ∃ o, fixAll .builtin (Workspace.build sources).host diagnostics (some nameKey) false = .ok o ∧
      Renaming (Workspace.build sources) o.edit := by
  obtain ⟨o, ho, -⟩ := exists_fixAll_builtin sources diagnostics (some nameKey)
  refine ⟨o, ho, ?_⟩
  apply foldlM_ok_induction (P := fun o : FixAllOutcome => Renaming (Workspace.build sources) o.edit)
    ho
  · exact ⟨⟨fits_empty _, fun _ => List.Pairwise.nil⟩, by simp [start]⟩
  · intro o d _ o' h hstep
    exact h.step hstep

/-- Edits that rename, and that put plain words in the place of others, respell a document. -/
theorem Renaming.respellsIn {sources : List SourceText} {s : EditSet}
    (h : Renaming (Workspace.build sources) s) {doc : Document}
    (hdoc : doc ∈ (Workspace.build sources).documents)
    (hwords : ∀ e ∈ s.editsFor doc.id, e.Respells doc.text) : s.RespellsIn doc := by
  have howned : ∀ e ∈ s.editsFor doc.id, ∃ d ∈ doc.tree.typeDecls, ∃ i ∈ d.idents,
      i.span = e.span := by
    intro e he
    obtain ⟨d, hd, hi, -⟩ := (h.renames doc.id e he).exists_owner hdoc
    exact ⟨d, hd, hi⟩
  refine ⟨⟨h.apart doc.id, fun e he => ?_, hwords⟩, howned⟩
  obtain ⟨d, hd, i, hi, hspan⟩ := howned e he
  exact ⟨i, ((allPlacedIn_of_document? (mem_documents_iff.1 hdoc)).types d hd).idents i hi, hspan⟩

/-- Fixing diagnostics by renaming keeps documents free of faults, and the parameters of each
declaration apart exactly if no two of them get one name, as long as plain words are put in the place
of others. -/
theorem fixAll_name_nodup (sources : List SourceText) (diagnostics : List Diagnostic)
    (hclean : ∀ doc ∈ (Workspace.build sources).documents, doc.errors = [])
    (hnodup : ∀ doc ∈ (Workspace.build sources).documents, ∀ d ∈ doc.tree.typeDecls,
      (d.typeParams.map (·.name)).Nodup) :
    ∃ o, fixAll .builtin (Workspace.build sources).host diagnostics (some nameKey) false = .ok o ∧
      ((∀ doc ∈ (Workspace.build sources).documents, ∀ e ∈ o.edit.editsFor doc.id,
          e.Respells doc.text) →
        ∃ w, (Workspace.build sources).withEdit o.edit = .ok w ∧
          (∀ doc ∈ w.documents, doc.errors = []) ∧
          ((∀ doc ∈ w.documents, ∀ d ∈ doc.tree.typeDecls, (d.typeParams.map (·.name)).Nodup) ↔
            ∀ doc ∈ (Workspace.build sources).documents, ∀ d ∈ doc.tree.typeDecls,
              NamedApart (o.edit.editsFor doc.id) d)) := by
  obtain ⟨o, ho, hrenaming⟩ := exists_fixAll_name sources diagnostics
  refine ⟨o, ho, fun hwords => ?_⟩
  have hin : ∀ doc ∈ (Workspace.build sources).documents, o.edit.RespellsIn doc :=
    fun doc hdoc => hrenaming.respellsIn hdoc (hwords doc hdoc)
  obtain ⟨w, hw, hdocuments⟩ := withEdit_respelled hclean hin
  refine ⟨w, hw, ?_, ?_⟩
  · intro doc hdoc
    rw [hdocuments] at hdoc
    obtain ⟨old, hold, rfl⟩ := List.mem_map.1 hdoc
    exact hclean old hold
  · have hiff : ∀ doc ∈ (Workspace.build sources).documents, ∀ d ∈ doc.tree.typeDecls,
        ((((TextEdit.respelling (o.edit.editsFor doc.id) doc.text).typeDecl d).typeParams.map
          (·.name)).Nodup) ↔ NamedApart (o.edit.editsFor doc.id) d :=
      fun doc hdoc d hd => nodup_names_respelled_iff hdoc (hclean doc hdoc) (hin doc hdoc).all
        (hrenaming.renames doc.id) hd (hnodup doc hdoc d hd)
    rw [hdocuments]
    constructor
    · intro h doc hdoc d hd
      refine (hiff doc hdoc d hd).1 (h _ (List.mem_map_of_mem hdoc) _ ?_)
      rw [Document.respelled, Respelling.typeDecls_tree]
      exact List.mem_map_of_mem hd
    · intro h doc hdoc d hd
      obtain ⟨old, hold, rfl⟩ := List.mem_map.1 hdoc
      rw [Document.respelled, Respelling.typeDecls_tree] at hd
      obtain ⟨e, he, rfl⟩ := List.mem_map.1 hd
      exact (hiff old hold e he).2 (h old hold e he)

/-- A declaration with two parameters that are forwarded to a self parameter, one by itself and one by
a declaration nested in it. -/
def forwardingTwice : List SourceText :=
  [⟨"A.cs", "interface I<TSelf> {} class A<T, U> : I<T> { class N : I<U> {} }", .empty⟩]

/-- The diagnostic of a forwarded parameter in the first document. -/
def forwarded (span : Span) : Diagnostic :=
  ((Diagnostic.new .forwardedParameter ⟨0, span⟩ ["\"TSelf\""]).withLabel
    "passed to a self-type parameter")

/-- Both parameters get the name of self parameters. -/
theorem fixAll_name_forwardingTwice :
    (∀ doc ∈ (Workspace.build forwardingTwice).documents, doc.errors = []) ∧
      (∀ doc ∈ (Workspace.build forwardingTwice).documents, ∀ d ∈ doc.tree.typeDecls,
        (d.typeParams.map (·.name)).Nodup) ∧
      ∃ ds o w, Analysis.analyzeAll (Workspace.build forwardingTwice).host false = .ok ds ∧
        fixAll .builtin (Workspace.build forwardingTwice).host ds (some nameKey) false = .ok o ∧
        (Workspace.build forwardingTwice).withEdit o.edit = .ok w ∧
        (∀ doc ∈ w.documents, doc.errors = []) ∧
        ¬ ∀ doc ∈ w.documents, ∀ d ∈ doc.tree.typeDecls, (d.typeParams.map (·.name)).Nodup := by
  have hclean : ∀ doc ∈ (Workspace.build forwardingTwice).documents, doc.errors = [] := by
    decide +kernel
  have hnodup : ∀ doc ∈ (Workspace.build forwardingTwice).documents, ∀ d ∈ doc.tree.typeDecls,
      (d.typeParams.map (·.name)).Nodup := by decide +kernel
  have hfound : (Workspace.build forwardingTwice).host.documentIds.mapM
      (Analysis.analyzeDocument (Workspace.build forwardingTwice).host · false) =
        .ok [[forwarded ⟨30, 31⟩, forwarded ⟨33, 34⟩]] := by decide +kernel
  have hfixed : fixAll .builtin (Workspace.build forwardingTwice).host
      [forwarded ⟨30, 31⟩, forwarded ⟨33, 34⟩] (some nameKey) false = .ok
        { start with
          edit := ⟨[(0, [⟨⟨30, 31⟩, "TSelf"⟩, ⟨⟨40, 41⟩, "TSelf"⟩, ⟨⟨33, 34⟩, "TSelf"⟩,
            ⟨⟨57, 58⟩, "TSelf"⟩])]⟩
          applied := 2 } := by decide +kernel
  obtain ⟨o, ho, hiff⟩ := fixAll_name_nodup forwardingTwice
    [forwarded ⟨30, 31⟩, forwarded ⟨33, 34⟩] hclean hnodup
  obtain rfl := Except.ok.inj (hfixed.symm.trans ho)
  obtain ⟨w, hw, hclean', hnames⟩ := hiff (by decide +kernel)
  refine ⟨hclean, hnodup, _, _, w, ?_, ho, hw, hclean', ?_⟩
  · exact Analysis.analyzeAll_of_pairwise hfound (by decide +kernel)
  · rw [hnames]
    decide +kernel

end FixAll

end SelfTypeLint
