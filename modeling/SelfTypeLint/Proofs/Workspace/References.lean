import Mathlib.Data.List.Flatten
import SelfTypeLint.Proofs.Tree.Query
import SelfTypeLint.Proofs.Workspace.Documents

/-!
# References to a type parameter

Renaming a parameter puts the new name at identifiers that have the old one, in the parts of its type.
-/

namespace SelfTypeLint

/-- What follows a step is reached if the step succeeds. -/
theorem exists_of_bind_eq_ok {ε α β : Type} {x : Except ε α} {f : α → Except ε β} {b : β}
    (h : x >>= f = .ok b) : ∃ a, x = .ok a ∧ f a = .ok b := by
  cases x with
  | error e => exact absurd h (by simp [bind, Except.bind])
  | ok a => exact ⟨a, rfl, h⟩

/-- What each step of a run keeps holds at its end. -/
theorem foldlM_ok_induction {ε σ α : Type} {f : σ → α → Except ε σ} {P : σ → Prop}
    {as : List α} {s t : σ} (h : as.foldlM f s = .ok t) (hs : P s)
    (hstep : ∀ s, ∀ a ∈ as, ∀ t, P s → f s a = .ok t → P t) : P t := by
  induction as generalizing s with
  | nil =>
    obtain rfl := Except.ok.inj h
    exact hs
  | cons a as ih =>
    rw [List.foldlM_cons] at h
    obtain ⟨u, hf, h⟩ := exists_of_bind_eq_ok h
    apply ih h
    · exact hstep s a List.mem_cons_self u hs hf
    · intro s b hb t
      exact hstep s b (List.mem_cons_of_mem a hb) t

namespace TypeDecl

/-- A reference stands at an identifier with the name, of the declaration or of one nested in it that
has no parameter of the name. -/
theorem exists_of_mem_references {name : String} {s : Span} (d : TypeDecl)
    (h : s ∈ d.references name) : ∃ e ∈ d.withNested,
      (e = d ∨ ∀ q ∈ e.typeParams, q.name ≠ name) ∧ ∃ i ∈ e.idents, i.name = name ∧ i.span = s := by
  rw [references_eq, List.mem_append] at h
  rcases h with h | h
  · simp only [List.mem_map, List.mem_filter, beq_iff_eq] at h
    obtain ⟨i, ⟨hi, hname⟩, hspan⟩ := h
    exact ⟨d, d.mem_withNested_self, .inl rfl, i, hi, hname, hspan⟩
  · obtain ⟨n, hn, hs⟩ := List.mem_flatMap.1 h
    split at hs
    · exact absurd hs List.not_mem_nil
    · next hnone =>
      have hlt := sizeOf_lt_of_mem_nested hn
      obtain ⟨e, he, hown, hi⟩ := exists_of_mem_references n hs
      refine ⟨e, mem_withNested_of_nested hn he, .inr ?_, hi⟩
      rcases hown with rfl | hown
      · simpa using hnone
      · exact hown
  termination_by sizeOf d

/-- The references stand at identifiers of the declaration and of those nested in it, in their order. -/
theorem references_sublist (name : String) (d : TypeDecl) :
    (d.references name).Sublist (d.withNested.flatMap fun e => e.idents.map (·.span)) := by
  rw [references_eq, withNested_eq, List.flatMap_cons, List.flatMap_assoc]
  refine (List.filter_sublist.map _).append (List.Sublist.flatMap_right _ fun n hn => ?_)
  have hlt := sizeOf_lt_of_mem_nested hn
  split
  · exact List.nil_sublist _
  · exact references_sublist name n
  termination_by sizeOf d

/-- Where nothing captures a name, an identifier with it stands among the attributes of a parameter. -/
theorem exists_list_of_capture?_eq_none {name : String} (d : TypeDecl) (h : d.capture? name = none)
    {e : TypeDecl} (he : e ∈ d.withNested) {i : Ident} (hi : i ∈ e.idents) (hname : i.name = name) :
    ∃ p ∈ e.typeParams, ∃ l ∈ p.attributes, l.span.contains i.span = true := by
  rw [capture?] at h
  dsimp only at h
  split at h
  · exact absurd h (by simp)
  · next hown =>
    rw [withNested_eq] at he
    rcases List.mem_cons.1 he with rfl | he
    · have hnone := List.find?_eq_none.1 hown i hi
      simp only [hname, beq_self_eq_true, Bool.true_and, Bool.not_eq_true', Bool.not_eq_false,
        List.any_eq_true, List.mem_map, List.mem_flatMap] at hnone
      obtain ⟨s, ⟨l, ⟨p, hp, hl⟩, rfl⟩, hcontains⟩ := hnone
      exact ⟨p, hp, l, hl, hcontains⟩
    · obtain ⟨n, hn, hen⟩ := List.mem_flatMap.1 he
      have hlt := sizeOf_lt_of_mem_nested hn
      have hnested := List.findSome?_eq_none_iff.1 h ⟨n, hn⟩ (List.mem_attach _ _)
      exact exists_list_of_capture?_eq_none n hnested hen hi hname
  termination_by sizeOf d

end TypeDecl

namespace Workspace

/-- The declaration at a location is one of the document's, and its name stands there. -/
theorem declarationAt?_eq_some {w : Workspace} {location : Location} {d : TypeDecl}
    (h : w.declarationAt? location = some d) :
    ∃ doc, w.document? location.file = some doc ∧ d ∈ doc.tree.typeDecls ∧
      d.nameSpan = location.span := by
  rw [declarationAt?] at h
  obtain ⟨doc, hdoc, hfind⟩ := Option.bind_eq_some_iff.1 h
  refine ⟨doc, hdoc, List.mem_of_find?_eq_some hfind, ?_⟩
  simpa using List.find?_some hfind

/-- What renaming in one part adds: the new name at each reference there. -/
theorem renameInPart_eq_ok {w : Workspace} {old new : String} {edit out : EditSet}
    {location : Location} (h : w.renameInPart old new edit location = .ok out) :
    out = edit ∨ ∃ d, w.declarationAt? location = some d ∧ d.capture? new = none ∧
      out = (d.references old).foldl (fun e span => e.push location.file ⟨span, new⟩) edit := by
  rw [renameInPart] at h
  split at h
  · exact .inl (Except.ok.inj h).symm
  · next d hd =>
    split at h
    · exact absurd h (by simp)
    · next hnone => exact .inr ⟨d, hd, hnone, (Except.ok.inj h).symm⟩

/-- A renaming gives no edits, or those of all parts of the parameter's type. -/
theorem renameTypeParam_eq_ok {w : Workspace} {param : TypeParamId} {new : String}
    {cancelled : Bool} {edit : EditSet} (h : w.renameTypeParam param new cancelled = .ok edit) :
    ∃ symbol, w.symbols.typeParam? param = some symbol ∧ isValidIdentifier new = true ∧
      (symbol.name = new ∧ edit = .empty ∨
        symbol.name ≠ new ∧ ∃ owner, w.symbols.typeSymbol? symbol.owner = some owner ∧
          owner.name ≠ new ∧ w.siblingNamed? owner param new = none ∧
          owner.locations.foldlM (w.renameInPart symbol.name new) .empty = .ok edit) := by
  unfold renameTypeParam at h
  split at h
  · exact absurd h (by simp)
  · split at h
    · exact absurd h (by simp)
    · next symbol hsymbol =>
      refine ⟨symbol, hsymbol, ?_⟩
      split at h
      · exact absurd h (by simp)
      · next hvalid =>
        refine ⟨by simpa using hvalid, ?_⟩
        split at h
        · next hname => exact .inl ⟨hname, (Except.ok.inj h).symm⟩
        · next hname =>
          refine .inr ⟨hname, ?_⟩
          split at h
          · exact absurd h (by simp)
          · next owner howner =>
            refine ⟨owner, howner, ?_⟩
            split at h
            · exact absurd h (by simp)
            · next hown =>
              split at h
              · exact absurd h (by simp)
              · next hsibling => exact ⟨hown, hsibling, h⟩

/-- A renaming that no request stopped does not fail for one. -/
theorem renameTypeParam_ne_cancelled (w : Workspace) (param : TypeParamId) (new : String) :
    w.renameTypeParam param new false ≠ .error .cancelled := by
  have hpart : ∀ {old edit location}, w.renameInPart old new edit location ≠ .error .cancelled := by
    intro old edit location h
    rw [renameInPart] at h
    split at h
    · exact absurd h (by simp)
    · split at h <;> exact absurd h (by simp)
  have hparts : ∀ {old edit} {locations : List Location},
      locations.foldlM (w.renameInPart old new) edit ≠ .error .cancelled := by
    intro old edit locations h
    induction locations generalizing edit with
    | nil => exact absurd h (by simp [pure, Except.pure])
    | cons location locations ih =>
      rw [List.foldlM_cons] at h
      cases hf : w.renameInPart old new edit location with
      | error e =>
        rw [hf] at h
        exact hpart (hf.trans h)
      | ok out =>
        rw [hf] at h
        exact ih h
  intro h
  unfold renameTypeParam at h
  grind

end Workspace

/-- Adding the new name at places of one document puts these edits after those it has. -/
theorem EditSet.editsFor_foldl_push_spans {s : EditSet} (h : s.Ordered) (file : FileId)
    (spans : List Span) (new : String) :
    (spans.foldl (fun e span => e.push file ⟨span, new⟩) s).Ordered ∧
      ∀ f, (spans.foldl (fun e span => e.push file ⟨span, new⟩) s).editsFor f =
        if f = file then s.editsFor f ++ spans.map (⟨·, new⟩) else s.editsFor f := by
  induction spans generalizing s with
  | nil => exact ⟨h, fun f => by simp⟩
  | cons span spans ih =>
    obtain ⟨hordered, hfor⟩ := ih (h.push file ⟨span, new⟩)
    refine ⟨hordered, fun f => ?_⟩
    rw [List.foldl_cons, hfor, editsFor_push h]
    split <;> simp

namespace Workspace

open Token

/-- Each edit of a renaming puts the new name at a reference to the parameter, in a part of its type
that does not capture the new name. -/
theorem exists_part_of_mem_editsFor {w : Workspace} {param : TypeParamId} {new : String}
    {cancelled : Bool} {edit : EditSet} (h : w.renameTypeParam param new cancelled = .ok edit) :
    edit.Ordered ∧ ∀ f, ∀ e ∈ edit.editsFor f, e.newText = new ∧
      ∃ symbol, w.symbols.typeParam? param = some symbol ∧
        ∃ doc, w.document? f = some doc ∧ ∃ d ∈ doc.tree.typeDecls,
          d.capture? new = none ∧ e.span ∈ d.references symbol.name := by
  obtain ⟨symbol, hsymbol, -, hedit⟩ := renameTypeParam_eq_ok h
  rcases hedit with ⟨-, rfl⟩ | ⟨-, owner, -, -, -, hparts⟩
  · exact ⟨EditSet.ordered_empty, by simp⟩
  · apply foldlM_ok_induction (P := fun edit : EditSet => edit.Ordered ∧ ∀ f, ∀ e ∈ edit.editsFor f,
      e.newText = new ∧ ∃ symbol, w.symbols.typeParam? param = some symbol ∧
        ∃ doc, w.document? f = some doc ∧ ∃ d ∈ doc.tree.typeDecls,
          d.capture? new = none ∧ e.span ∈ d.references symbol.name) hparts
    · exact ⟨EditSet.ordered_empty, by simp⟩
    · rintro edit location - out ⟨hordered, hedits⟩ hout
      rcases renameInPart_eq_ok hout with rfl | ⟨d, hd, hnone, rfl⟩
      · exact ⟨hordered, hedits⟩
      · obtain ⟨hordered', hfor⟩ := EditSet.editsFor_foldl_push_spans hordered location.file
          (d.references symbol.name) new
        refine ⟨hordered', fun f e he => ?_⟩
        rw [hfor] at he
        split at he
        · next hf =>
          rcases List.mem_append.1 he with he | he
          · exact hedits f e he
          · obtain ⟨span, hspan, rfl⟩ := List.mem_map.1 he
            obtain ⟨doc, hdoc, hmem, -⟩ := declarationAt?_eq_some hd
            exact ⟨rfl, symbol, hsymbol, doc, hf ▸ hdoc, d, hmem, hnone, hspan⟩
        · exact hedits f e he

/-- The edits of a renaming put the new name at identifiers of a document that have the old one. -/
theorem mem_editsFor_renameTypeParam {sources : List SourceText} {param : TypeParamId}
    {new : String} {cancelled : Bool} {edit : EditSet}
    (h : (build sources).renameTypeParam param new cancelled = .ok edit) :
    edit.Ordered ∧ ∀ f, ∀ e ∈ edit.editsFor f, e.newText = new ∧
      ∃ doc, (build sources).document? f = some doc ∧
        ∃ i ∈ Token.idents (Cursor.ofSource doc.text).ahead, e.span = i.span := by
  obtain ⟨hordered, hedits⟩ := exists_part_of_mem_editsFor h
  refine ⟨hordered, fun f e he => ?_⟩
  obtain ⟨hnew, symbol, -, doc, hdoc, d, hd, -, hspan⟩ := hedits f e he
  obtain ⟨n, hn, -, i, hi, -, hi'⟩ := d.exists_of_mem_references hspan
  have hn' : n ∈ doc.tree.typeDecls := doc.tree.mem_typeDecls_of_withNested hd hn
  exact ⟨hnew, doc, hdoc, i, ((allPlacedIn_of_document? hdoc).types n hn').idents i hi, hi'.symm⟩

end Workspace

end SelfTypeLint
