import SelfTypeLint.Proofs.Grammar.Places

/-!
# Respelling

A `Respelling` moves tokens to other places and gives some identifiers another word. The grammar sees
of an identifier only whether it is one of a few words, so tokens spell the respelled form of what they
spelled before. The tokens that follow may be exchanged too, as long as they agree with those before in
what the grammar sees of them.
-/

namespace SelfTypeLint

/-- New places of tokens and new words of some identifiers. -/
structure Respelling where
  /-- The new place of an offset. -/
  place : Nat → Nat
  /-- The new word of the identifier at a span, if it gets one. -/
  word : Span → Option String
  /-- The new target of an attribute list that begins at an offset. -/
  target : Nat → String → String

namespace Respelling

variable (m : Respelling)

/-- A span at its new place. -/
def span (s : Span) : Span := ⟨m.place s.start, m.place s.stop⟩

/-- The word at a span. -/
def text (s : Span) (old : String) : String := (m.word s).getD old

/-- A token with its new place and word. -/
def token (t : Token) : Token := ⟨t.kind, m.span t.span, m.text t.span t.text⟩

/-- An identifier with its new place and word. -/
def ident (i : Ident) : Ident := ⟨m.text i.span i.name, m.span i.span⟩

mutual

/-- A type with its new places and words. -/
def typeExpr : TypeExpr → TypeExpr
  | .path isGlobal segments s => .path isGlobal (segmentList segments) (m.span s)
  | .predefined keyword s => .predefined keyword (m.span s)
  | .array element s => .array (typeExpr element) (m.span s)
  | .nullable inner s => .nullable (typeExpr inner) (m.span s)
  | .tuple elements s => .tuple (typeExprList elements) (m.span s)

/-- The words of a name with their new places and words. -/
def segmentList : List (NameSegment TypeExpr) → List (NameSegment TypeExpr)
  | [] => []
  | ⟨name, s, args, listSpan⟩ :: rest =>
    ⟨m.text s name, m.span s, typeExprList args, listSpan.map m.span⟩ :: segmentList rest

/-- Types with their new places and words. -/
def typeExprList : List TypeExpr → List TypeExpr
  | [] => []
  | e :: es => typeExpr e :: typeExprList es

end

/-- A word of a name with its new place and word. -/
def segment (s : NameSegment TypeExpr) : NameSegment TypeExpr :=
  ⟨m.text s.span s.name, m.span s.span, m.typeExprList s.args, s.argListSpan.map m.span⟩

/-- An attribute with its new places and words. -/
def attr (a : Attribute) : Attribute := ⟨m.typeExpr a.name, m.span a.span⟩

/-- An attribute list with its new places and words. -/
def attributeList (l : AttributeList) : AttributeList :=
  ⟨l.target.map (m.target l.span.start), l.attributes.map m.attr, m.span l.span⟩

/-- A type parameter with its new places and words. -/
def typeParam (p : TypeParam) : TypeParam where
  attributes := p.attributes.map m.attributeList
  variance := p.variance.map fun (v, s) => (v, m.span s)
  name := m.text p.nameSpan p.name
  nameSpan := m.span p.nameSpan
  span := m.span p.span

theorem typeExprList_eq_map (es : List TypeExpr) : m.typeExprList es = es.map m.typeExpr := by
  induction es with
  | nil => rfl
  | cons e es ih => rw [typeExprList, ih, List.map_cons]

theorem segmentList_eq_map (ss : List (NameSegment TypeExpr)) :
    m.segmentList ss = ss.map m.segment := by
  induction ss with
  | nil => rfl
  | cons s ss ih => rw [segmentList, ih, List.map_cons, segment]

theorem span_typeExpr (e : TypeExpr) : (m.typeExpr e).span = m.span e.span := by
  cases e <;> rfl

/-- The words that some positions reserve. -/
def contextualWords : List String :=
  ["where", "record", "global", "partial", "file", "required", "async"]

/-- Holds of a token that may get the word at its span: none, or it is an identifier, and neither its
word before nor the new one is seen by the grammar. -/
def Suits (t : Token) : Prop :=
  ∀ w, m.word t.span = some w → t.kind = .ident ∧ t.text ∉ contextualWords ∧
    identName t.text ≠ "global" ∧ w ∉ contextualWords ∧ identName w = w

variable {m} {t : Token}

theorem Suits.text_eq (h : m.Suits t) (hk : t.kind ≠ .ident) : m.text t.span t.text = t.text := by
  unfold text
  cases hw : m.word t.span with
  | none => rfl
  | some w => exact absurd (h w hw).1 hk

/-- A word that the grammar sees stands after respelling exactly where it did before. -/
theorem Suits.text_iff (h : m.Suits t) {word : String} (hword : word ∈ contextualWords) :
    m.text t.span t.text = word ↔ t.text = word := by
  unfold text
  cases hw : m.word t.span with
  | none => exact Iff.rfl
  | some w =>
    obtain ⟨-, hold, -, hnew, -⟩ := h w hw
    constructor
    · intro he
      exact absurd hword (he ▸ hnew)
    · intro he
      exact absurd hword (he ▸ hold)

theorem Suits.identName_eq (h : m.Suits t) :
    identName (m.text t.span t.text) = m.text t.span (identName t.text) := by
  unfold text
  cases hw : m.word t.span with
  | none => rfl
  | some w => exact (h w hw).2.2.2.2

theorem Suits.identName_eq_global_iff (h : m.Suits t) :
    identName (m.text t.span t.text) = "global" ↔ identName t.text = "global" := by
  rw [h.identName_eq]
  unfold text
  cases hw : m.word t.span with
  | none => exact Iff.rfl
  | some w =>
    obtain ⟨-, -, hold, hnew, -⟩ := h w hw
    constructor
    · intro he
      have hglobal : "global" ∈ contextualWords := by decide
      exact absurd hglobal (he ▸ hnew)
    · intro he
      exact absurd he hold

end Respelling

namespace Grammar

open Token Respelling

/-- Holds of tokens of which the grammar sees the same at their front. The second token does not count
after a mark that ends a form. -/
structure Agree (rest rest' : List Token) : Prop where
  nil : rest' = [] ↔ rest = []
  kind : kindAt rest' 0 = kindAt rest 0
  star : starAt rest' = starAt rest
  word : ∀ w ∈ contextualWords, wordAt w rest' = wordAt w rest
  second : kindAt rest 0 ∈ [.comma, .rbracket, .colon, .semi] ∨ kindAt rest' 1 = kindAt rest 1

theorem Agree.refl (rest : List Token) : Agree rest rest := ⟨Iff.rfl, rfl, rfl, fun _ _ => rfl, .inr rfl⟩

theorem Agree.second_of {rest rest' : List Token} (h : Agree rest rest') {k : TokenKind}
    (hk : kindAt rest 0 = k) (hne : k ∉ [.comma, .rbracket, .colon, .semi]) :
    kindAt rest' 1 = kindAt rest 1 := by
  rcases h.second with h | h
  · exact absurd (hk ▸ h) hne
  · exact h

variable {m : Respelling}

theorem Agree.cons {t : Token} {rest rest' : List Token} (h : Agree rest rest') (ht : m.Suits t) :
    Agree (t :: rest) (m.token t :: rest') where
  nil := by simp
  kind := rfl
  star := by
    by_cases hk : t.kind = .op
    · simp [starAt, token, ht.text_eq (by simp [hk])]
    · simp [starAt, token, hk]
  word := by
    intro w hw
    have := ht.text_iff hw
    simp only [wordAt, token, List.head?_cons, Option.any_some]
    rw [Bool.eq_iff_iff]
    simp [this]
  second := .inr h.kind

theorem Agree.append {ts rest rest' : List Token} (h : Agree rest rest')
    (hts : ∀ t ∈ ts, m.Suits t) : Agree (ts ++ rest) (ts.map m.token ++ rest') := by
  induction ts with
  | nil => exact h
  | cons t ts ih =>
    exact (ih fun u hu => hts u (List.mem_cons_of_mem t hu)).cons (hts t List.mem_cons_self)

theorem startOf_map {ts : List Token} (h : ts ≠ []) :
    startOf (ts.map m.token) = m.place (startOf ts) := by
  cases ts with
  | nil => exact absurd rfl h
  | cons t ts => rfl

theorem stopOf_map {ts : List Token} (h : ts ≠ []) (n : Nat) :
    stopOf n (ts.map m.token) = m.place (stopOf 0 ts) := by
  obtain ⟨us, t, rfl⟩ : ∃ us t, ts = us ++ [t] := ⟨_, _, (List.dropLast_concat_getLast h).symm⟩
  rw [List.map_append, List.map_singleton, stopOf_concat, stopOf_concat]
  rfl

theorem spanOf_map {ts : List Token} (h : ts ≠ []) :
    spanOf (ts.map m.token) = m.span (spanOf ts) := by
  rw [spanOf, startOf_map h, stopOf_map h]
  rfl

theorem idents_map {ts : List Token} (h : ∀ t ∈ ts, m.Suits t) :
    idents (ts.map m.token) = (idents ts).map m.ident := by
  induction ts with
  | nil => rfl
  | cons t ts ih =>
    have ht := h t List.mem_cons_self
    rw [List.map_cons]
    by_cases hk : t.kind = .ident
    · rw [idents_cons_of_ident (t := m.token t) hk, idents_cons_of_ident hk,
        ih fun u hu => h u (List.mem_cons_of_mem t hu), List.map_cons]
      simp only [token, ht.identName_eq]
      rfl
    · rw [idents_cons_of_ne (t := m.token t) hk, idents_cons_of_ne hk,
        ih fun u hu => h u (List.mem_cons_of_mem t hu)]

/-! ## Types -/

theorem NoSuffix.agree {rest rest' : List Token} (h : NoSuffix rest) (ha : Agree rest rest') :
    NoSuffix rest' where
  question := by
    rw [ha.kind]
    exact h.question
  brackets := by
    intro hk
    rw [ha.kind] at hk
    rw [ha.second_of hk (by simp)]
    exact h.brackets hk
  star := ha.star.trans h.star

theorem SuffixForm.respell {start : Nat} {a e : TypeExpr} {ts rest rest' : List Token}
    (h : SuffixForm start a ts rest e) (hts : ∀ t ∈ ts, m.Suits t) (ha : Agree rest rest') :
    SuffixForm (m.place start) (m.typeExpr a) (ts.map m.token) rest' (m.typeExpr e) := by
  induction h with
  | done stop => exact .done (stop.agree ha)
  | nullable question _ ih =>
    exact .nullable question (ih (fun t ht => hts t (List.mem_cons_of_mem _ ht)) ha)
  | @array a e o b cs ts rest opener commas closer _ ih =>
    rw [List.map_cons, List.map_append, List.map_cons]
    refine .array opener ?_ closer (ih (fun t ht => hts t (by simp [ht])) ha)
    intro t ht
    obtain ⟨u, hu, rfl⟩ := List.mem_map.1 ht
    exact commas u hu
  | @pointer a e s ts rest op star _ ih =>
    refine .pointer op ?_ (ih (fun t ht => hts t (List.mem_cons_of_mem _ ht)) ha)
    exact ((hts s List.mem_cons_self).text_eq (by simp [op])).trans star

theorem QualifierForm.respell {ts rest rest' : List Token} {isGlobal : Bool}
    {first : List (NameSegment TypeExpr)} (h : QualifierForm ts rest isGlobal first)
    (hts : ∀ t ∈ ts, m.Suits t) (hk : ts = [] → kindAt rest 0 = .ident) (ha : Agree rest rest') :
    QualifierForm (ts.map m.token) rest' isGlobal (m.segmentList first) := by
  cases h with
  | none stop =>
    refine .none ?_
    rw [ha.second_of (hk rfl) (by simp)]
    exact stop
  | @root t s _ word sign root =>
    have ht := hts t List.mem_cons_self
    exact .root word sign (ht.identName_eq_global_iff.2 root)
  | @word t s _ word sign other =>
    have ht := hts t List.mem_cons_self
    rw [segmentList, segmentList, ← ht.identName_eq]
    exact .word (t := m.token t) word sign fun h => other (ht.identName_eq_global_iff.1 h)

theorem OptionalForm.respell {k : TokenKind} {ts rest rest' : List Token}
    (h : OptionalForm k ts rest) (ha : Agree rest rest') :
    OptionalForm k (ts.map m.token) rest' := by
  cases h with
  | none stop => exact .none (by rwa [ha.kind])
  | some kind => exact .some kind

theorem DotAt.agree_iff {rest rest' : List Token} (ha : Agree rest rest') :
    DotAt rest' ↔ DotAt rest := by
  unfold DotAt
  rw [ha.kind]
  constructor
  · rintro ⟨h1, h2⟩
    exact ⟨h1, by rwa [← ha.second_of h1 (by simp)]⟩
  · rintro ⟨h1, h2⟩
    exact ⟨h1, by rwa [ha.second_of h1 (by simp)]⟩

mutual

theorem AtomForm.respell {ts rest rest' : List Token} {e : TypeExpr} (hts : ∀ t ∈ ts, m.Suits t)
    (ha : Agree rest rest') :
    AtomForm ts rest e → AtomForm (ts.map m.token) rest' (m.typeExpr e)
  | @AtomForm.predefined t _ hword => by
    have ht := (hts t List.mem_cons_self).text_eq (by simp [hword])
    rw [typeExpr, ← ht]
    exact .predefined (t := m.token t) hword
  | @AtomForm.tuple o c ts _ es opener elements closer => by
    have hc := hts c (by simp)
    rw [List.map_cons, List.map_append, List.map_singleton, typeExpr]
    exact .tuple (o := m.token o) opener
      (elements.respell (fun t ht => hts t (by simp [ht])) (ha.cons hc)) closer
  | @AtomForm.path qs ts _ isGlobal first more qualifier segments => by
    have hqs : ∀ t ∈ qs, m.Suits t := fun t ht => hts t (by simp [ht])
    have hss : ∀ t ∈ ts, m.Suits t := fun t ht => hts t (by simp [ht])
    have hne : qs ++ ts ≠ [] := by simp [segments.ne_nil]
    have hk : qs = [] → kindAt (ts ++ rest) 0 = .ident := by
      intro _
      rw [kindAt_append_left segments.ne_nil]
      exact segments.kindAt_eq
    have hpath := AtomForm.path (qualifier.respell hqs hk (ha.append hss)) (segments.respell hss ha)
    rw [typeExpr, ← spanOf_map hne, segmentList_eq_map, List.map_append, List.map_append,
      ← segmentList_eq_map, ← segmentList_eq_map]
    exact hpath

theorem TypeForm.respell {ts rest rest' : List Token} {e : TypeExpr} (hts : ∀ t ∈ ts, m.Suits t)
    (ha : Agree rest rest') :
    TypeForm ts rest e → TypeForm (ts.map m.token) rest' (m.typeExpr e)
  | @TypeForm.mk ts us _ _ _ atom suffixes => by
    have hus : ∀ t ∈ us, m.Suits t := fun t ht => hts t (by simp [ht])
    rw [List.map_append]
    refine .mk (atom.respell (fun t ht => hts t (by simp [ht])) (ha.append hus)) ?_
    rw [startOf_map atom.ne_nil]
    exact suffixes.respell hus ha

theorem ElementsForm.respell {ts rest rest' : List Token} {es : List TypeExpr}
    (hts : ∀ t ∈ ts, m.Suits t) (ha : Agree rest rest') :
    ElementsForm ts rest es → ElementsForm (ts.map m.token) rest' (m.typeExprList es)
  | @ElementsForm.last ts ns _ e type label stop => by
    have hns : ∀ t ∈ ns, m.Suits t := fun t ht => hts t (by simp [ht])
    rw [List.map_append]
    exact .last (type.respell (fun t ht => hts t (by simp [ht])) (ha.append hns)) (label.respell ha)
      (by rwa [ha.kind])
  | @ElementsForm.more ts ns us _ c e es type label comma tail => by
    have hns : ∀ t ∈ ns, m.Suits t := fun t ht => hts t (by simp [ht])
    have hus : ∀ t ∈ us, m.Suits t := fun t ht => hts t (by simp [ht])
    have hrest := (ha.append hus).cons (hts c (by simp))
    rw [List.map_append, List.map_append, List.map_cons]
    exact .more (type.respell (fun t ht => hts t (by simp [ht])) (hrest.append hns))
      (label.respell hrest) comma (tail.respell hus ha)

theorem SegmentForm.respell {ts rest rest' : List Token} {s : NameSegment TypeExpr}
    (hts : ∀ t ∈ ts, m.Suits t) (ha : Agree rest rest') :
    SegmentForm ts rest s → SegmentForm (ts.map m.token) rest' (m.segment s)
  | @SegmentForm.plain t _ hword stop => by
    have ht := hts t List.mem_cons_self
    rw [Respelling.segment, ← ht.identName_eq]
    exact .plain (t := m.token t) hword (by rwa [ha.kind])
  | @SegmentForm.generic t o c ts cs _ args hword opener arguments commas closer => by
    have ht := hts t List.mem_cons_self
    have hcs : ∀ t ∈ cs, m.Suits t := fun t ht => hts t (by simp [ht])
    have hrest := (ha.cons (hts c (by simp))).append hcs
    rw [List.map_cons, List.map_cons, List.map_append, List.map_append, List.map_singleton,
      Respelling.segment, ← ht.identName_eq]
    refine .generic (t := m.token t) (o := m.token o) (c := m.token c) hword opener
      (arguments.respell (fun t ht => hts t (by simp [ht])) hrest) ?_ closer
    intro k hk
    obtain ⟨u, hu, rfl⟩ := List.mem_map.1 hk
    exact commas u hu

theorem SegmentsForm.respell {ts rest rest' : List Token} {ss : List (NameSegment TypeExpr)}
    (hts : ∀ t ∈ ts, m.Suits t) (ha : Agree rest rest') :
    SegmentsForm ts rest ss → SegmentsForm (ts.map m.token) rest' (m.segmentList ss)
  | @SegmentsForm.last ts _ s form stop => by
    rw [segmentList_eq_map, List.map_singleton]
    exact .last (form.respell hts ha) (by rwa [DotAt.agree_iff ha])
  | @SegmentsForm.more ts us _ d s ss form dot tail => by
    have hus : ∀ t ∈ us, m.Suits t := fun t ht => hts t (by simp [ht])
    rw [List.map_append, List.map_cons, segmentList_eq_map, List.map_cons, ← segmentList_eq_map]
    exact .more (form.respell (fun t ht => hts t (by simp [ht]))
      ((ha.append hus).cons (hts d (by simp)))) dot (tail.respell hus ha)

theorem ArgumentsForm.respell {ts rest rest' : List Token} {es : List TypeExpr}
    (hts : ∀ t ∈ ts, m.Suits t) (ha : Agree rest rest') :
    ArgumentsForm ts rest es → ArgumentsForm (ts.map m.token) rest' (m.typeExprList es)
  | .none stop => .none (by rwa [ha.kind])
  | .some list => .some (list.respell hts ha)

theorem TypeListForm.respell {ts rest rest' : List Token} {es : List TypeExpr}
    (hts : ∀ t ∈ ts, m.Suits t) (ha : Agree rest rest') :
    TypeListForm ts rest es → TypeListForm (ts.map m.token) rest' (m.typeExprList es)
  | .last type stop => .last (type.respell hts ha) (by rwa [ha.kind])
  | @TypeListForm.more ts us _ c e es type comma tail => by
    have hus : ∀ t ∈ us, m.Suits t := fun t ht => hts t (by simp [ht])
    rw [List.map_append, List.map_cons]
    exact .more (type.respell (fun t ht => hts t (by simp [ht]))
      ((ha.append hus).cons (hts c (by simp)))) comma (tail.respell hus ha)

end

/-! ## Attribute lists -/

/-- Holds of tokens that suit, with every identifier that is the target of an attribute list recorded
at the opening bracket before it. -/
structure Suited (m : Respelling) (ts : List Token) : Prop where
  suits : ∀ t ∈ ts, m.Suits t
  targets : ∀ o t, [o, t] <:+: ts → o.kind = .lbracket → t.kind = .ident →
    m.target o.span.start t.text = m.text t.span t.text

theorem Suited.mono {ts us : List Token} (h : Suited m ts) (hus : us <:+: ts) : Suited m us where
  suits := fun t ht => h.suits t (hus.subset ht)
  targets := fun o t hot => h.targets o t (hot.trans hus)

/-- Whether brackets are closed is seen from the kinds of tokens. -/
theorem balancedLength?_map (stack : List TokenKind) (ts : List Token) :
    balancedLength? stack (ts.map m.token) = balancedLength? stack ts := by
  induction ts generalizing stack with
  | nil => rfl
  | cons t ts ih =>
    cases stack with
    | nil => rfl
    | cons top stack =>
      rw [List.map_cons, balancedLength?, balancedLength?, ih]
      rfl

theorem Group.respell {closer : TokenKind} {ts : List Token} (h : Group closer ts) :
    Group closer (ts.map m.token) := by
  rw [Grammar.Group, balancedLength?_map, List.length_map]
  exact h

theorem GroupForm.respell {k : TokenKind} {ts rest rest' : List Token} (h : GroupForm k ts rest)
    (ha : Agree rest rest') : GroupForm k (ts.map m.token) rest' := by
  cases h with
  | none stop => exact .none (by rwa [ha.kind])
  | group opener group => exact .group opener group.respell

theorem AttributesForm.respell {ts rest rest' : List Token} {as : List Attribute}
    (h : AttributesForm ts rest as) (hts : ∀ t ∈ ts, m.Suits t) (ha : Agree rest rest') :
    AttributesForm (ts.map m.token) rest' (as.map m.attr) := by
  induction h with
  | none stop => exact .none (by rwa [ha.kind])
  | @last ts us rest e type call stop =>
    have hus : ∀ t ∈ us, m.Suits t := fun t ht => hts t (by simp [ht])
    have hne : ts ++ us ≠ [] := by simp [type.ne_nil]
    rw [List.map_singleton, attr, ← spanOf_map hne, List.map_append]
    exact .last (type.respell (fun t ht => hts t (by simp [ht])) (ha.append hus)) (call.respell ha)
      (by rwa [ha.kind])
  | @more ts us vs rest c e as type call comma _ ih =>
    have hus : ∀ t ∈ us, m.Suits t := fun t ht => hts t (by simp [ht])
    have hvs : ∀ t ∈ vs, m.Suits t := fun t ht => hts t (by simp [ht])
    have hne : ts ++ us ≠ [] := by simp [type.ne_nil]
    have hrest := (ha.append hvs).cons (hts c (by simp))
    rw [List.map_cons, attr, ← spanOf_map hne, List.map_append, List.map_append, List.map_append,
      List.map_cons]
    exact .more (type.respell (fun t ht => hts t (by simp [ht])) (hrest.append hus))
      (call.respell hrest) comma (ih hvs ha)

theorem TargetForm.respell {o : Token} {ts rest rest' : List Token} {target : Option String}
    (h : TargetForm ts rest target) (ho : o.kind = .lbracket) (hts : Suited m (o :: ts))
    (ha : Agree rest rest') :
    TargetForm (ts.map m.token) rest' (target.map (m.target o.span.start)) := by
  cases h with
  | none stop =>
    refine .none ?_
    rw [ha.kind]
    rintro ⟨h1, h2⟩
    rw [ha.second_of h1 (by simp)] at h2
    exact stop ⟨h1, h2⟩
  | @word t s _ hword sign =>
    have htarget := hts.targets o t ⟨[], [s], rfl⟩ ho hword
    rw [Option.map_some, htarget]
    exact .word (t := m.token t) hword sign

theorem AttributeListsForm.respell {ts rest rest' : List Token} {ls : List AttributeList}
    (h : AttributeListsForm ts rest ls) (hts : Suited m ts) (ha : Agree rest rest') :
    AttributeListsForm (ts.map m.token) rest' (ls.map m.attributeList) := by
  induction h with
  | none stop => exact .none (by rwa [ha.kind])
  | @cons o c ts us vs rest target as ls opener head attributes closer _ ih =>
    have hvs : Suited m vs := hts.mono ⟨o :: (ts ++ (us ++ [c])), [], by simp⟩
    have hus : ∀ t ∈ us, m.Suits t := fun t ht => hts.suits t (by simp [ht])
    have hhead : Suited m (o :: ts) := hts.mono ⟨[], us ++ c :: vs, by simp⟩
    have hrest := (ha.append hvs.suits).cons (hts.suits c (by simp))
    rw [List.map_cons, List.map_append, List.map_append, List.map_cons, List.map_cons]
    exact .cons (o := m.token o) opener (head.respell opener hhead (hrest.append hus))
      (attributes.respell hus hrest) closer (ih hvs ha)

end Grammar

end SelfTypeLint
