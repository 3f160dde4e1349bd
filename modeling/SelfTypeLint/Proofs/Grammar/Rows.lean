import SelfTypeLint.Proofs.Grammar.Loose
import SelfTypeLint.Proofs.Tree.Outline

/-!
# Rows of parts among tokens

What tokens spell stands at them in order: the parts of a part stand one after another among the tokens
of the part. `Row ts os` says this of the outlines `os` and the tokens `ts` without a word about
offsets, so that the rows of two lists of tokens make one of both. Offsets come in at the end, where
the tokens are known to be placed one after another.
-/

namespace SelfTypeLint.Grammar

open Token Outline

/-- Holds of parts that stand one after another at tokens of a list, in the same way the parts of each
at its own tokens. -/
inductive Row : List Token → List Outline → Prop
  | nil (ts : List Token) : Row ts []
  | cons (as : List Token) {us bs : List Token} {parts os : List Outline} (some : us ≠ [])
      (inner : Row us parts) (tail : Row bs os) :
      Row (as ++ (us ++ bs)) (.node (spanOf us) parts :: os)

theorem Row.skip {ts : List Token} {os : List Outline} (as : List Token) :
    Row ts os → Row (as ++ ts) os
  | .nil ts => .nil (as ++ ts)
  | .cons bs hne inner tail => by
    rw [← List.append_assoc]
    exact .cons (as ++ bs) hne inner tail

theorem Row.append {ts us : List Token} {os ps : List Outline} :
    Row ts os → Row us ps → Row (ts ++ us) (os ++ ps)
  | .nil ts, h => h.skip ts
  | .cons as hne inner tail, h => by
    rw [List.append_assoc, List.append_assoc]
    exact .cons as hne inner (tail.append h)

theorem Row.mono {ts us : List Token} {os : List Outline} (h : Row ts os) (hs : ts <:+: us) :
    Row us os := by
  obtain ⟨as, bs, rfl⟩ := hs
  simpa using (h.skip as).append (.nil bs)

/-- A part at all tokens of a list. -/
theorem Row.node {ts : List Token} {parts : List Outline} (h : Row ts parts) (hne : ts ≠ []) :
    Row ts [.node (spanOf ts) parts] := by
  simpa using Row.cons [] hne h (.nil [])

theorem row_leaf (t : Token) : Row [t] [leaf t.span] := Row.node (.nil [t]) (by simp)

/-! ## Rows at places -/

/-- The spans of tokens that stand one after another are not empty and lie in that of all. -/
theorem SpanIn.within {offset : Nat} {ts : List Token} {s : Span} (hp : Placed offset ts)
    (h : SpanIn ts s) : offset ≤ s.start ∧ s.start < s.stop ∧ (spanOf ts).contains s = true := by
  obtain ⟨us, ⟨as, bs, rfl⟩, hne, rfl⟩ := h
  obtain ⟨u, us, rfl⟩ := List.exists_cons_of_ne_nil hne
  have hright : Placed offset (u :: us ++ bs) := by
    rw [List.append_assoc] at hp
    exact hp.append_right
  have hfirst := hright.append_left
  have hu := hfirst.2.1
  have hus := hfirst.2.2.le_stopOf
  have hbs := hright.append_right_stopOf.le_stopOf
  have hstart : startOf (as ++ (u :: us) ++ bs) ≤ u.span.start := by
    cases as with
    | nil => exact Nat.le_refl _
    | cons a as => exact Placed.startOf_le (hp.append_left : Placed offset (a :: as ++ u :: us)) (by simp)
  simp only [spanOf, Span.contains_iff, startOf_cons, stopOf_append, stopOf_cons] at hus hbs ⊢
  exact ⟨hfirst.1, by omega, hstart, hbs⟩

/-- Spans of tokens end before those of later tokens begin. -/
theorem SpanIn.stop_le {offset : Nat} {ts us : List Token} {s t : Span}
    (hp : Placed offset (ts ++ us)) (hs : SpanIn ts s) (ht : SpanIn us t) : s.stop ≤ t.start := by
  have h1 := ((Span.contains_iff _ _).1 (hs.within hp.append_left).2.2).2
  have h2 := (ht.within hp.append_right_stopOf).1
  have hne : ts ≠ [] := by
    obtain ⟨vs, hvs, hne, -⟩ := hs
    rintro rfl
    exact hne (List.infix_nil.1 hvs)
  rw [stopOf_of_ne_nil hne offset 0] at h2
  exact Nat.le_trans h1 h2

/-- Among tokens that stand one after another, those in the span of some in a row are these. -/
theorem filter_contains_spanOf {offset : Nat} {as us bs : List Token}
    (hp : Placed offset (as ++ (us ++ bs))) (hne : us ≠ []) :
    (as ++ (us ++ bs)).filter (fun t => (spanOf us).contains t.span) = us := by
  have hspan : SpanIn us (spanOf us) := ⟨us, List.infix_rfl, hne, rfl⟩
  have hbefore : as.filter (fun t => (spanOf us).contains t.span) = [] := by
    refine List.filter_eq_nil_iff.2 fun t ht => ?_
    have hus : SpanIn (us ++ bs) (spanOf us) := hspan.mono ⟨[], bs, rfl⟩
    rw [not_contains_of_before hp (List.mem_map_of_mem ht) hus]
    simp
  have hinside : us.filter (fun t => (spanOf us).contains t.span) = us :=
    List.filter_eq_self.2 fun t ht =>
      ((spanIn_of_mem ht).within hp.append_right.append_left).2.2
  have hafter : bs.filter (fun t => (spanOf us).contains t.span) = [] := by
    refine List.filter_eq_nil_iff.2 fun t ht => ?_
    rw [not_contains_of_after hp.append_right (List.mem_map_of_mem ht) hspan]
    simp
  rw [List.filter_append, List.filter_append, hbefore, hinside, hafter]
  simp

/-- The spans of a row are spans of its tokens. -/
theorem Row.spanIn {ts : List Token} {os : List Outline} (h : Row ts os) :
    ∀ s ∈ spansAll os, SpanIn ts s := by
  induction h with
  | nil ts => simp [spansAll]
  | @cons as us bs parts os hne inner tail ihinner ihtail =>
    intro s hs
    have hus : us <:+: as ++ (us ++ bs) := ⟨as, bs, by simp⟩
    simp only [spansAll, spans, List.cons_append, List.mem_cons, List.mem_append] at hs
    rcases hs with rfl | hs | hs
    · exact ⟨us, hus, hne, rfl⟩
    · exact (ihinner s hs).mono hus
    · exact (ihtail s hs).mono ⟨as ++ us, [], by simp⟩

/-- Among tokens that stand one after another, a row is a row of spans. -/
theorem Row.inRow {offset : Nat} {ts : List Token} {os : List Outline} (hp : Placed offset ts) :
    Row ts os → InRow os
  | .nil ts => trivial
  | @Row.cons as us bs parts os hne inner tail => by
    have hright := hp.append_right
    have hus := hright.append_left
    refine ⟨⟨fun s hs => ((inner.spanIn s hs).within hus).2.2, inner.inRow hus⟩, ?_,
      tail.inRow hright.append_right⟩
    intro p hmem
    exact SpanIn.stop_le hright ⟨us, List.infix_refl us, hne, rfl⟩
      (tail.spanIn _ (span_mem_spansAll hmem))

/-! ## Types -/

theorem segmentOutlines_append (ss ss' : List (NameSegment TypeExpr)) :
    segmentOutlines (ss ++ ss') = segmentOutlines ss ++ segmentOutlines ss' := by
  induction ss with
  | nil => simp [segmentOutlines]
  | cons s ss ih =>
    obtain ⟨name, span, args, listSpan⟩ := s
    cases listSpan <;> simp [segmentOutlines, ih]

theorem SuffixForm.row {ps ts rest : List Token} {a e : TypeExpr}
    (h : SuffixForm (startOf ps) a ts rest e) (hne : ps ≠ []) (ha : Row ps [a.outline]) :
    Row (ps ++ ts) [e.outline] := by
  generalize hs : startOf ps = start at h
  induction h generalizing ps with
  | done _ => rwa [List.append_nil]
  | @nullable e e' q ts rest _ _ ih =>
    have hspan : (⟨start, q.span.stop⟩ : Span) = spanOf (ps ++ [q]) := by
      rw [spanOf, stopOf_concat, startOf_append hne, hs]
    have hrow : Row (ps ++ [q]) [(TypeExpr.nullable e ⟨start, q.span.stop⟩).outline] := by
      rw [TypeExpr.outline, hspan]
      exact Row.node (ha.mono (List.prefix_append ps [q]).isInfix) (by simp)
    have := ih (by simp) hrow (by rw [startOf_append hne, hs])
    simpa using this
  | @array e e' o b cs ts rest _ _ _ _ ih =>
    have hspan : (⟨start, b.span.stop⟩ : Span) = spanOf (ps ++ (o :: cs ++ [b])) := by
      rw [spanOf, ← List.append_assoc, stopOf_concat, List.append_assoc, startOf_append hne, hs]
    have hrow : Row (ps ++ (o :: cs ++ [b])) [(TypeExpr.array e ⟨start, b.span.stop⟩).outline] := by
      rw [TypeExpr.outline, hspan]
      exact Row.node (ha.mono (List.prefix_append ps _).isInfix) (by simp)
    have := ih (by simp) hrow (by rw [startOf_append hne, hs])
    simpa using this
  | @pointer e e' s ts rest _ _ _ ih =>
    have hrow := ha.mono (List.prefix_append ps [s]).isInfix
    have := ih (by simp) hrow (by rw [startOf_append hne, hs])
    simpa using this

theorem QualifierForm.row {ts rest : List Token} {isGlobal : Bool}
    {ss : List (NameSegment TypeExpr)} (h : QualifierForm ts rest isGlobal ss) :
    Row ts (segmentOutlines ss) := by
  cases h with
  | none _ => exact .nil []
  | root _ _ _ => exact .nil _
  | @word t s _ _ _ _ => exact (row_leaf t).append (.nil [s])

mutual

theorem AtomForm.row {ts rest : List Token} {e : TypeExpr} :
    AtomForm ts rest e → Row ts [e.outline]
  | @AtomForm.predefined t _ _ => row_leaf t
  | @AtomForm.tuple o c ts _ _ _ elements _ => by
    have hinner := (elements.row.skip [o]).append (.nil [c])
    rw [List.append_nil, List.append_assoc] at hinner
    have hrow := hinner.node (by simp)
    rw [show spanOf ([o] ++ (ts ++ [c])) = ⟨o.span.start, c.span.stop⟩ by simp [spanOf]] at hrow
    exact hrow
  | @AtomForm.path qs ts _ _ first more qualifier segments => by
    have hinner := qualifier.row.append segments.row
    rw [← segmentOutlines_append] at hinner
    exact hinner.node (by simp [segments.ne_nil])

/-- A type stands at its tokens with its parts in a row. -/
theorem TypeForm.row {ts rest : List Token} {e : TypeExpr} :
    TypeForm ts rest e → Row ts [e.outline]
  | .mk atom suffixes => suffixes.row atom.ne_nil atom.row

theorem ElementsForm.row {ts rest : List Token} {es : List TypeExpr} :
    ElementsForm ts rest es → Row ts (typeOutlines es)
  | @ElementsForm.last ts ns _ _ type _ _ => type.row.append (.nil ns)
  | @ElementsForm.more ts ns us _ c _ _ type _ _ tail => by
    have := type.row.append (tail.row.skip (ns ++ [c]))
    simpa [typeOutlines] using this

theorem SegmentForm.row {ts rest : List Token} {s : NameSegment TypeExpr} :
    SegmentForm ts rest s → Row ts (segmentOutlines [s])
  | @SegmentForm.plain t _ _ _ => by
    simpa [segmentOutlines, typeOutlines] using row_leaf t
  | @SegmentForm.generic t o c ts cs _ args _ _ arguments _ _ => by
    have hinner := (arguments.row.skip [o]).append (.nil (cs ++ [c]))
    rw [List.append_nil, List.append_assoc] at hinner
    have hrow := (row_leaf t).append (hinner.node (by simp))
    rw [show spanOf ([o] ++ (ts ++ (cs ++ [c]))) = ⟨o.span.start, c.span.stop⟩ by
      simp [spanOf]] at hrow
    exact hrow

theorem SegmentsForm.row {ts rest : List Token} {ss : List (NameSegment TypeExpr)} :
    SegmentsForm ts rest ss → Row ts (segmentOutlines ss)
  | .last segment _ => segment.row
  | @SegmentsForm.more ts us _ d s ss segment _ tail => by
    have := segment.row.append (tail.row.skip [d])
    rw [← segmentOutlines_append] at this
    exact this

theorem ArgumentsForm.row {ts rest : List Token} {es : List TypeExpr} :
    ArgumentsForm ts rest es → Row ts (typeOutlines es)
  | .none _ => .nil []
  | .some list => list.row

theorem TypeListForm.row {ts rest : List Token} {es : List TypeExpr} :
    TypeListForm ts rest es → Row ts (typeOutlines es)
  | .last type _ => type.row
  | @TypeListForm.more ts us _ c _ _ type _ tail => type.row.append (tail.row.skip [c])

end

/-! ## Attribute lists and heads -/

theorem AttributesForm.row {ts rest : List Token} {as : List Attribute}
    (h : AttributesForm ts rest as) : Row ts (as.map Attribute.outline) := by
  have hone : ∀ {ts us rest : List Token} {e : TypeExpr}, TypeForm ts rest e →
      Row (ts ++ us) [(⟨e, spanOf (ts ++ us)⟩ : Attribute).outline] := by
    intro ts us rest e type
    exact (type.row.append (.nil us)).node (by simp [type.ne_nil])
  induction h with
  | none _ => exact .nil []
  | last type _ _ => exact hone type
  | @more ts us vs rest c e as type _ _ _ ih =>
    have hrow : Row (ts ++ us) _ := hone type
    simpa using hrow.append (ih.skip [c])

theorem AttributeListsForm.row {ts rest : List Token} {ls : List AttributeList}
    (h : AttributeListsForm ts rest ls) : Row ts (ls.map AttributeList.outline) := by
  induction h with
  | none _ => exact .nil []
  | @cons o c ts us vs rest target as ls _ _ attributes _ _ ih =>
    have hinner := (attributes.row.skip (o :: ts)).append (.nil [c])
    have hrow := (hinner.node (by simp)).append ih
    rw [show spanOf (o :: ts ++ us ++ [c]) = ⟨o.span.start, c.span.stop⟩ by simp [spanOf]] at hrow
    simpa [AttributeList.outline] using hrow

/-- The items of a list stand in a row if each does. -/
theorem ListForm.row {α : Type} {form : List Token → List Token → α → Prop} {f : α → Outline}
    (hitem : ∀ ts rest a, form ts rest a → Row ts [f a])
    {ts rest : List Token} {as : List α} (h : ListForm form ts rest as) : Row ts (as.map f) := by
  induction h with
  | last item _ => exact hitem _ _ _ item
  | @more ts us rest c a as item _ _ ih => exact (hitem _ _ _ item).append (ih.skip [c])

theorem ParamForm.row {ts rest : List Token} {p : TypeParam} (h : ParamForm ts rest p) :
    Row ts [p.outline] := by
  cases h with
  | @mk as vs rest n attributes variance attributesForm varianceForm _ =>
    have hvariance : Row vs (variance.map fun v => leaf v.2).toList := by
      cases varianceForm with
      | none _ => exact .nil []
      | contravariant _ => exact row_leaf _
      | covariant _ => exact row_leaf _
    exact (attributesForm.row.append (hvariance.append (row_leaf n))).node (by simp)

theorem ParamsForm.row {ts rest : List Token} {ps : List TypeParam} {span : Option Span}
    (h : ParamsForm ts rest ps span) : Row ts (paramOutlines ps span) := by
  cases h with
  | none _ => exact .nil []
  | @some o c ts rest ps _ list _ =>
    have hinner := ((list.row fun _ _ _ h => ParamForm.row h).skip [o]).append (.nil [c])
    have hrow := hinner.node (by simp)
    rw [show spanOf ([o] ++ ts ++ [c]) = ⟨o.span.start, c.span.stop⟩ by simp [spanOf]] at hrow
    simpa [paramOutlines] using hrow

theorem BasesForm.row {ts rest : List Token} {es : List TypeExpr} (h : BasesForm ts rest es) :
    Row ts (typeOutlines es) := by
  rw [typeOutlines_eq_map]
  cases h with
  | none _ => exact .nil []
  | @some k ts rest es _ list =>
    refine (list.row ?_).skip [k]
    intro ts rest e hbase
    cases hbase with
    | @mk ts us rest e type _ => exact type.row.append (.nil us)

/-- The name, the type parameters and the base types of a head stand in a row. -/
theorem HeaderForm.row {ts rest : List Token} {h : Header} (hh : HeaderForm ts rest h) :
    Row ts (leaf h.name.span :: (paramOutlines h.typeParams h.typeParamListSpan ++
      typeOutlines h.baseList)) := by
  cases hh with
  | @mk ks ps gs bs ws rest n kind typeParams listSpan baseList _ _ params _ bases _ =>
    have hbases := (bases.row.skip gs).append (.nil ws)
    have hname := ((row_leaf n).skip ks).append (params.row.append hbases)
    simpa using hname

/-! ## Declarations and members -/

mutual

/-- A declaration stands at its tokens and those of what is written in front, with its parts in a
row. -/
theorem LooseDecl.row {start : Nat} {as ms rest ts : List Token} {attributes : List AttributeList}
    {modifiers : List String} {d : TypeDecl} (hattributes : AttributeListsForm as rest attributes)
    (hs : start = startOf (as ++ (ms ++ ts))) :
    LooseDecl start attributes modifiers ts d → Row (as ++ (ms ++ ts)) [d.outline]
  | @LooseDecl.mk _ _ _ ks bs _ header nested is head hne body _ => by
    have hinner := hattributes.row.append ((head.row.append body.row).skip ms)
    have hspan : spanOf (as ++ (ms ++ (ks ++ bs))) = ⟨start, stopOf 0 bs⟩ := by
      simp only [spanOf, stopOf_append, stopOf_of_ne_nil hne _ 0, hs]
    have hrow := hinner.node (by simp [hne])
    rw [hspan] at hrow
    simpa [Header.declare, TypeDecl.outline] using hrow

theorem LooseBody.row {ts : List Token} {nested : List TypeDecl} :
    LooseBody ts nested → Row ts (declOutlines nested)
  | .nil ts => .nil ts
  | .skip ts tail => tail.row.skip ts
  | .type attributesForm decl tail => by
    have := (decl.row attributesForm rfl).append tail.row
    simpa [declOutlines] using this

end

/-- Of two lists of parts, a part before all others comes first in the mixture. -/
theorem Row.mix_left {offset : Nat} {ts us : List Token} {o : Outline} {os ps : List Outline}
    (hp : Placed offset (ts ++ us)) (ho : Row ts [o]) (h : Row us (mix os ps)) :
    Row (ts ++ us) (mix (o :: os) ps) := by
  have hmix : mix (o :: os) ps = o :: mix os ps := by
    cases ps with
    | nil => simp [mix]
    | cons p ps =>
      have hmem : p ∈ mix os (p :: ps) := List.mem_merge.2 (.inr List.mem_cons_self)
      have hspan := h.spanIn _ (span_mem_spansAll hmem)
      have ho' := ho.spanIn _ (span_mem_spansAll List.mem_cons_self)
      have hlt := (ho'.within hp.append_left).2.1
      have hle := SpanIn.stop_le hp ho' hspan
      exact List.cons_merge_cons_pos _ os ps (by simp only [decide_eq_true_eq]; omega)
  rw [hmix]
  exact ho.append h

theorem Row.mix_right {offset : Nat} {ts us : List Token} {p : Outline} {os ps : List Outline}
    (hp : Placed offset (ts ++ us)) (h' : Row ts [p]) (h : Row us (mix os ps)) :
    Row (ts ++ us) (mix os (p :: ps)) := by
  have hmix : mix os (p :: ps) = p :: mix os ps := by
    cases os with
    | nil => simp [mix]
    | cons o os =>
      have hmem : o ∈ mix (o :: os) ps := List.mem_merge.2 (.inl List.mem_cons_self)
      have hspan := h.spanIn _ (span_mem_spansAll hmem)
      have hp' := h'.spanIn _ (span_mem_spansAll List.mem_cons_self)
      have hlt := (hp'.within hp.append_left).2.1
      have hle := SpanIn.stop_le hp hp' hspan
      exact List.cons_merge_cons_neg _ os ps (by simp only [decide_eq_true_eq]; omega)
  rw [hmix]
  exact h'.append h

theorem UsingForm.row {slice : Span → String} {ts rest : List Token} {u : UsingDirective}
    (h : UsingForm slice ts rest u) : Row ts [u.outline] := by
  cases h with
  | @mk gs ks ts rest w s _ _ _ e _ _ _ target _ =>
    have hleaf : Row ts [leaf e.span] := by
      obtain ⟨us, vs, rfl, hne, he, -⟩ := target.covers
      rw [he]
      exact (Row.node (.nil us) hne).append (.nil vs)
    have hinner := (hleaf.append (.nil [s])).skip (gs ++ w :: ks)
    have hrow := hinner.node (by simp)
    simpa [UsingDirective.outline] using hrow

/-- The words of a dotted name stand where its first word and the tokens after it do. -/
theorem DottedForm.span_eq {name name' : String} {span span' : Span} {ts rest : List Token}
    (h : DottedForm name span ts rest name' span') : span' = ⟨span.start, stopOf span.stop ts⟩ := by
  induction h with
  | done _ => rfl
  | more _ _ _ ih => rw [ih, stopOf_cons, stopOf_cons]

mutual

/-- Using directives and members stand at tokens in a row. -/
theorem LooseMembers.row {slice : Span → String} {offset : Nat} {ts : List Token}
    {us : List UsingDirective} {ms : List Member} (hp : Placed offset ts) :
    LooseMembers slice ts us ms →
      Row ts (mix (us.map UsingDirective.outline) (memberOutlines ms))
  | .nil ts => by simpa [mix, memberOutlines] using Row.nil ts
  | .skip ts tail => (tail.row hp.append_right).skip ts
  | .using directive tail => Row.mix_left hp directive.row (tail.row hp.append_right)
  | .type decl tail => Row.mix_right hp decl.row (tail.row hp.append_right)
  | @LooseMembers.space _ as ns vs n us ms decl tail => by
    rw [← List.append_assoc] at hp ⊢
    exact Row.mix_right hp (decl.row hp.append_left rfl) (tail.row hp.append_right)

theorem LooseSpace.row {slice : Span → String} {offset start : Nat} {as ts : List Token}
    {n : NamespaceDecl} (hp : Placed offset (as ++ ts)) (hs : start = startOf (as ++ ts)) :
    LooseSpace slice start ts n → Row (as ++ ts) [(Member.space n).outline]
  | @LooseSpace.mk _ _ k t o ns ts _ name whole _ us ms _ dotted members => by
    have hplaced : Placed offset (as ++ k :: t :: (ns ++ [o]) ++ ts) := by simpa using hp
    have hname : Row (t :: ns) [leaf whole] := by
      rw [dotted.span_eq, show (⟨t.span.start, stopOf t.span.stop ns⟩ : Span) = spanOf (t :: ns) by
        simp [spanOf]]
      exact Row.node (.nil _) (by simp)
    have hmembers := (members.row hplaced.append_right).skip [o]
    have hinner := (hname.append hmembers).skip (as ++ [k])
    have hrow := hinner.node (by simp)
    simpa [Member.outline, spanOf, hs] using hrow

end

end SelfTypeLint.Grammar
