import SelfTypeLint.Proofs.Grammar.RespellFiles
import SelfTypeLint.Proofs.Layout.Types
import SelfTypeLint.Proofs.Reader.FilesSound
import SelfTypeLint.Proofs.Reader.TypesComplete

/-!
# The layout of using directives

The target of a using directive is the words of a name joined by dots, or else the text of the file at
that place, blanks and comments included. `UsingDirective.NamesPath` tells the two apart by the grammar;
without its layout, a directive keeps its target only in the first case.
-/

namespace SelfTypeLint

open Token Grammar

/-- Before the token at which some tokens begin, all tokens begin earlier. -/
theorem Token.Placed.dropWhile_eq {offset : Nat} {ts us : List Token} (h : Placed offset (ts ++ us))
    (hne : us ≠ []) : (ts ++ us).dropWhile (·.span.start < startOf us) = us := by
  have hbefore : ∀ t ∈ ts, decide (t.span.start < startOf us) = true := by
    intro t ht
    cases us with
    | nil => exact absurd rfl hne
    | cons u us =>
      have hlt := (h.start_le (List.mem_append_left _ ht)).2
      have hle := (List.pairwise_append.1 h.pairwise).2.2 t ht u List.mem_cons_self
      rw [startOf_cons, decide_eq_true_eq]
      omega
  rw [List.dropWhile_append_of_pos hbefore]
  cases us with
  | nil => exact absurd rfl hne
  | cons u us => exact List.dropWhile_cons_of_neg (by simp)

/-- The cursor in a text before the first token that begins at an offset or behind it. -/
def Cursor.atOffset (source : String) (offset : Nat) : Cursor :=
  { ofSource source with ahead := (ofSource source).ahead.dropWhile (·.span.start < offset) }

theorem Cursor.ready_atOffset (source : String) (offset : Nat) : (atOffset source offset).Ready := by
  have hsource := ready_ofSource source
  have hsuffix : (atOffset source offset).ahead <:+ (ofSource source).ahead :=
    List.dropWhile_suffix _
  refine ⟨hsource.eof, fun t ht => hsource.ahead t (hsuffix.subset ht), ?_⟩
  obtain ⟨ts, hts⟩ := hsuffix
  exact (hts ▸ hsource.placed).append_right

/-- The type at an offset of a text, if one is read there. -/
def Read.typeAt? (source : String) (offset : Nat) : Option TypeExpr :=
  (typeExpr.runAt (Cursor.atOffset source offset)).1.toOption

namespace Read

open Cursor

variable {source : String} {ts rest : List Token} {e : TypeExpr}

theorem typeAt?_of_form (h : TypeForm ts rest e) (hs : ts ++ rest <:+ (ofSource source).ahead) :
    typeAt? source e.span.start = some e := by
  have hahead : (atOffset source e.span.start).ahead = ts ++ rest := by
    obtain ⟨us, hus⟩ := hs
    have hplaced := placed_ofSource source
    have hne : ts ++ rest ≠ [] := List.append_ne_nil_of_left_ne_nil h.ne_nil rest
    rw [← hus] at hplaced
    show (ofSource source).ahead.dropWhile _ = ts ++ rest
    rw [← hus, h.span_start, ← startOf_append h.ne_nil rest]
    exact hplaced.dropWhile_eq hne
  have hparses := parses_typeExpr h (ready_atOffset source e.span.start) hahead
  unfold typeAt?
  unfold Parses Sat at hparses
  split at hparses
  · next a d hrun =>
    rw [hrun, hparses.1]
    rfl
  · exact hparses.elim

/-- A type that is read is spelled by the tokens ahead. -/
theorem form_of_runAt {c d : Cursor} (hc : c.Ready) (hrun : typeExpr.runAt c = (.ok e, d)) :
    ∃ ts, TypeForm ts d.ahead e ∧ c.ahead = ts ++ d.ahead := by
  have hspells := spells_typeExpr c hc
  unfold Spells Sat at hspells
  rw [hrun] at hspells
  obtain ⟨ts, hts, hform⟩ := hspells
  exact ⟨ts, hform, hts.ahead⟩

theorem form_of_typeAt? {offset : Nat} (h : typeAt? source offset = some e) :
    ∃ ts rest, TypeForm ts rest e ∧ ts ++ rest <:+ (ofSource source).ahead := by
  unfold typeAt? at h
  cases hrun : typeExpr.runAt (atOffset source offset) with
  | mk r d =>
    rw [hrun] at h
    cases r with
    | error x => exact absurd h (by simp [Except.toOption])
    | ok a =>
      obtain rfl : a = e := Option.some.inj h
      obtain ⟨ts, hform, hahead⟩ := form_of_runAt (ready_atOffset source offset) hrun
      refine ⟨ts, d.ahead, hform, ?_⟩
      rw [← hahead]
      exact List.dropWhile_suffix _

end Read

/-- Holds of a using directive of a text whose target is a name by the grammar. -/
def UsingDirective.NamesPath (source : String) (u : UsingDirective) : Prop :=
  ∃ ts rest e, ts ++ rest <:+ (Cursor.ofSource source).ahead ∧ TypeForm ts rest e ∧
    e.span = u.targetSpan ∧ e.dottedName?.isSome = true

open Read in
/-- Whether the target is a name is seen from the type that is read there. -/
theorem UsingDirective.namesPath_iff (source : String) (u : UsingDirective) :
    u.NamesPath source ↔ ∃ e ∈ typeAt? source u.targetSpan.start,
      e.span = u.targetSpan ∧ e.dottedName?.isSome = true := by
  constructor
  · rintro ⟨ts, rest, e, hs, hform, hspan, hname⟩
    refine ⟨e, ?_, hspan, hname⟩
    rw [← hspan]
    exact typeAt?_of_form hform hs
  · rintro ⟨e, he, hspan, hname⟩
    obtain ⟨ts, rest, hform, hs⟩ := form_of_typeAt? he
    exact ⟨ts, rest, e, hs, hform, hspan, hname⟩

instance (source : String) (u : UsingDirective) : Decidable (u.NamesPath source) :=
  decidable_of_iff _ (u.namesPath_iff source).symm

/-- A using directive of a text without its places. Where the target is no name, it is dropped. -/
def UsingDirective.bare (source : String) (u : UsingDirective) : UsingDirective :=
  { Respelling.bare.usingDirective u with target := if u.NamesPath source then u.target else "" }

namespace Read

open Cursor Respelling

variable {α : Type} {source : String} {c d : Cursor} {f : α → α}

theorem dottedName?_bare (e : TypeExpr) : (bare.typeExpr e).dottedName? = e.dottedName? := by
  cases e with
  | path isGlobal segments span =>
    rw [Respelling.typeExpr, TypeExpr.dottedName?, TypeExpr.dottedName?, segmentList_eq_map,
      List.map_map]
    rfl
  | predefined _ _ => rfl
  | array _ _ => rfl
  | nullable _ _ => rfl
  | tuple _ _ => rfl

/-- On the way through a text, the target of a directive is a name if what is read is one. -/
theorem namesPath_iff_of_runAt {e : TypeExpr} (h : (ofSource source).Leads c)
    (hrun : typeExpr.runAt c = (.ok e, d)) {u : UsingDirective} (hu : u.targetSpan = e.span) :
    u.NamesPath source ↔ e.dottedName?.isSome = true := by
  obtain ⟨ts, hform, hahead⟩ := form_of_runAt (h.ready (ready_ofSource source)) hrun
  have hs : ts ++ d.ahead <:+ (ofSource source).ahead := hahead ▸ h.ahead
  constructor
  · rintro ⟨us, rest, e', hs', hform', hspan, hname⟩
    -- Two types that begin at one offset of a text are both what is read there.
    have he' := typeAt?_of_form hform' hs'
    rw [hspan, hu, typeAt?_of_form hform hs] at he'
    exact Option.some.inj he' ▸ hname
  · exact fun hname => ⟨ts, d.ahead, e, hs, hform, hu.symm, hname⟩

theorem layoutFree_usingTarget (h : (ofSource source).Leads c) (start : Nat) (isGlobal : Bool)
    (k : UsingKind) (newName : Option String) :
    LayoutFree (UsingDirective.bare source) (usingTarget start isGlobal source k newName)
      (usingTarget 0 isGlobal "" k newName) c := by
  refine (layoutFree_typeExpr c).bind fun e d hrun _ => ?_
  refine (layoutFree_expect _ _).bind fun _ d' _ _ => LayoutFree.spanFrom (layoutFree_pure ?_)
  have hpath : ∀ target span, UsingDirective.NamesPath source
      ⟨k, isGlobal, newName, target, e.span, span⟩ ↔ e.dottedName?.isSome = true :=
    fun _ _ => namesPath_iff_of_runAt h hrun rfl
  rw [dottedName?_bare, span_typeExpr, UsingDirective.bare]
  cases hname : e.dottedName? with
  | none =>
    -- Where no places are known, the text of a span is empty.
    rw [if_neg (mt (hpath _ _).1 (by simp [hname]))]
    rfl
  | some name =>
    rw [if_pos ((hpath _ _).2 (by simp [hname]))]
    rfl

theorem layoutFree_withUsingKind {g gBare : String → UsingKind → Option String → Read α}
    (hg : ∀ k newName d, (ofSource source).Leads d →
      LayoutFree f (g source k newName) (gBare "" k newName) d)
    (h : (ofSource source).Leads c) : LayoutFree f (withUsingKind g) (withUsingKind gBare) c := by
  have hsource : c.source = source := h.source
  refine layoutFree_get.2 (LayoutFree.ite (by rw [kind_bare]) (fun _ => ?_) fun _ => ?_)
  · rw [hsource]
    exact LayoutFree.set (bump_bare c) (leads_bump c) (hg _ _ _ (h.trans (leads_bump c)))
  · rw [hsource]
    refine LayoutFree.ite (by rw [kind_bare, peek_bare]) (fun _ => ?_) fun _ => hg _ _ _ h
    rw [current_bare]
    exact LayoutFree.set (advance_bare c 2) (leads_advance 2 c)
      (hg _ _ _ (h.trans (leads_advance 2 c)))

theorem layoutFree_usingDirective (h : (ofSource source).Leads c) :
    LayoutFree (UsingDirective.bare source) usingDirective usingDirective c := by
  rw [usingDirective_eq]
  apply layoutFree_get.2
  have hrest : ∀ d, c.Leads d → LayoutFree (UsingDirective.bare source) (do
      let _ ← expect .kwUsing .usingWord
      withUsingKind (usingTarget c.current.span.start (c.atWord "global"))) (do
      let _ ← expect .kwUsing .usingWord
      withUsingKind (usingTarget c.bare.current.span.start (c.bare.atWord "global"))) d := by
    intro d hd
    rw [current_bare, atWord_bare]
    refine (layoutFree_expect _ _).bind fun _ d' _ hd' => ?_
    exact layoutFree_withUsingKind (fun k newName _ hx => layoutFree_usingTarget hx _ _ k newName)
      ((h.trans hd).trans hd')
  refine LayoutFree.ite (by rw [atWord_bare]) (fun _ => ?_) fun _ => hrest c (Leads.refl c)
  exact LayoutFree.set (bump_bare c) (leads_bump c) (hrest c.bump (leads_bump c))

end Read

end SelfTypeLint
