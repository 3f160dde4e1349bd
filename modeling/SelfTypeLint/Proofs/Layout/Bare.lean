import SelfTypeLint.Proofs.Grammar.RespellDeclarations

/-!
# Cursors without a layout

A bare cursor stands before the same words in a text of which no place is known. Moving on and forgetting
the places can be exchanged. `Cursor.Leads` says what holds of two cursors on the way through a file, one
after the other.
-/

namespace SelfTypeLint

open Respelling

/-- Keeps all words and forgets their places. -/
def Respelling.bare : Respelling := ⟨fun _ => 0, fun _ => none, fun _ word => word⟩

namespace Respelling

@[simp] theorem kind_token (m : Respelling) (t : Token) : (m.token t).kind = t.kind := rfl

@[simp] theorem text_token_bare (t : Token) : (bare.token t).text = t.text := rfl

@[simp] theorem span_token_bare (t : Token) : (bare.token t).span = ⟨0, 0⟩ := rfl

/-- Tokens with the same kinds and texts are the same without their places. -/
theorem map_token_bare_eq {ts us : List Token}
    (h : ts.map (fun t => (t.kind, t.text)) = us.map fun t => (t.kind, t.text)) :
    ts.map bare.token = us.map bare.token := by
  have hfactor : bare.token = (fun p : TokenKind × String => ⟨p.1, ⟨0, 0⟩, p.2⟩) ∘
      fun t : Token => (t.kind, t.text) := rfl
  rw [hfactor, ← List.map_map, h, List.map_map]

theorem attributeList_bare (l : AttributeList) :
    bare.attributeList l = ⟨l.target, l.attributes.map bare.attr, ⟨0, 0⟩⟩ := by
  have htarget : l.target.map (bare.target l.span.start) = l.target := Option.map_id'
  rw [attributeList, htarget]
  rfl

end Respelling

/-- The fault without its place. -/
def ParseError.bare : ParseError → ParseError
  | expected wanted found _ => .expected wanted found ⟨0, 0⟩
  | unclosed delimiter _ => .unclosed delimiter ⟨0, 0⟩
  | invalidToken text _ => .invalidToken text ⟨0, 0⟩

theorem statementLength_token (depth : Nat) (m : Respelling) (ts : List Token) :
    statementLength depth (ts.map m.token) = statementLength depth ts := by
  induction ts generalizing depth with
  | nil => rfl
  | cons t ts ih => simp only [List.map_cons, statementLength, kind_token, ih]

theorem memberLength_token (depth : Nat) (m : Respelling) (ts : List Token) :
    memberLength depth (ts.map m.token) = memberLength depth ts := by
  induction ts generalizing depth with
  | nil => rfl
  | cons t ts ih =>
    have hnext : (ts.map m.token).head?.map (·.kind) = ts.head?.map (·.kind) := by
      cases ts <;> rfl
    simp only [List.map_cons, memberLength, kind_token, ih, hnext]

theorem leadingModifiers_bare (ts : List Token) :
    Read.leadingModifiers (ts.map bare.token) = Read.leadingModifiers ts := by
  induction ts with
  | nil => rfl
  | cons t ts ih =>
    have hnext : ((ts.map bare.token).head?.map (·.kind)) = ts.head?.map (·.kind) := by
      cases ts <;> rfl
    simp only [List.map_cons, Read.leadingModifiers, kind_token, text_token_bare, ih, hnext]

namespace Cursor

/-- The cursor before the same tokens without their places, in a text that is not known. -/
def bare (c : Cursor) : Cursor where
  source := ""
  ahead := c.ahead.map Respelling.bare.token
  eof := Respelling.bare.token c.eof
  prevEnd := 0
  errors := c.errors.map ParseError.bare
  idents := c.idents.map Respelling.bare.ident

variable (c : Cursor)

theorem ahead_bare : c.bare.ahead = c.ahead.map Respelling.bare.token := rfl

@[simp] theorem length_ahead_bare : c.bare.ahead.length = c.ahead.length := List.length_map _

@[simp] theorem current_bare : c.bare.current = Respelling.bare.token c.current := by
  unfold current bare
  cases c.ahead <;> rfl

@[simp] theorem kind_bare : c.bare.kind = c.kind := by
  rw [kind, current_bare]
  rfl

@[simp] theorem peek_bare (n : Nat) : c.bare.peek n = c.peek n := by
  rw [peek, peek, ahead_bare, List.getElem?_map, Option.map_map]
  rfl

@[simp] theorem atWord_bare (word : String) : c.bare.atWord word = c.atWord word := by
  rw [atWord, atWord, kind_bare, current_bare]
  rfl

@[simp] theorem unexpected_bare (wanted : Wanted) :
    c.bare.unexpected wanted = (c.unexpected wanted).bare := by
  rw [unexpected, unexpected, kind_bare, current_bare]
  rfl

@[simp] theorem report_bare (e : ParseError) : c.bare.report e.bare = (c.report e).bare := rfl

@[simp] theorem bump_bare : c.bare.bump = c.bump.bare := by
  unfold bump
  rw [ahead_bare]
  cases hahead : c.ahead with
  | nil => rfl
  | cons t ts =>
    by_cases hk : t.kind = .ident
    · simp only [List.map_cons, Respelling.kind_token, hk, ↓reduceIte]
      rfl
    · simp only [List.map_cons, Respelling.kind_token, hk, ↓reduceIte]
      rfl

@[simp] theorem advance_bare (n : Nat) : c.bare.advance n = (c.advance n).bare := by
  induction n generalizing c with
  | zero => rfl
  | succ n ih => rw [advance, advance, bump_bare, ih]

@[simp] theorem eat_bare (k : TokenKind) : c.bare.eat k = (c.eat k).bare := by
  rw [eat, eat, kind_bare]
  split
  · rw [bump_bare]
  · rfl

theorem skipWhile_bare {p : Token → Bool} (hp : ∀ t, p (Respelling.bare.token t) = p t) :
    c.bare.skipWhile p = (c.skipWhile p).bare := by
  have htake : ((c.ahead.map Respelling.bare.token).takeWhile p).length =
      (c.ahead.takeWhile p).length := by
    rw [List.takeWhile_map, List.length_map]
    exact congrArg (fun q => (c.ahead.takeWhile q).length) (funext hp)
  rw [skipWhile, skipWhile, ahead_bare, htake, advance_bare]

@[simp] theorem skipStatement_bare : c.bare.skipStatement = c.skipStatement.bare := by
  rw [skipStatement, skipStatement, ahead_bare, statementLength_token, advance_bare]

@[simp] theorem skipMember_bare : c.bare.skipMember = c.skipMember.bare := by
  rw [skipMember, skipMember, ahead_bare, memberLength_token, advance_bare]

@[simp] theorem skipDelegate_bare : c.bare.skipDelegate = c.skipDelegate.bare := by
  rw [skipDelegate, skipDelegate, skipStatement_bare]
  rfl

/-- Texts with the same kinds and texts of tokens begin at the same bare cursor. -/
theorem bare_ofSource {s s' : String}
    (h : (Token.read s).map (fun t => (t.kind, t.text)) =
      (Token.read s').map fun t => (t.kind, t.text)) :
    (ofSource s).bare = (ofSource s').bare := by
  have htokens := map_token_bare_eq h
  have hahead : (ofSource s).ahead.map Respelling.bare.token =
      (ofSource s').ahead.map Respelling.bare.token := by
    simp only [ofSource, List.map_dropLast, htokens]
  have heof : Respelling.bare.token (ofSource s).eof = Respelling.bare.token (ofSource s').eof := by
    have hlast := congrArg List.getLast? htokens
    rw [List.getLast?_map, List.getLast?_map] at hlast
    have hget : ∀ o : Option Token, Respelling.bare.token (o.getD default) =
        (o.map Respelling.bare.token).getD (Respelling.bare.token default) := by
      intro o
      cases o <;> rfl
    simp only [ofSource, hget, hlast]
  have herrors : ∀ text, (ofSource text).errors.map ParseError.bare =
      (((ofSource text).ahead.map Respelling.bare.token).filterMap fun t =>
        if t.kind = .error then some (.invalidToken t.text t.span) else none).reverse := by
    intro text
    rw [List.filterMap_map]
    simp only [ofSource, List.map_reverse, List.map_filterMap]
    refine congrArg List.reverse (congrArg (List.filterMap · _) (funext fun t => ?_))
    by_cases hk : t.kind = .error
    · simp [hk, ParseError.bare]
    · simp [hk]
  unfold bare
  rw [hahead, heof, herrors, herrors, hahead]
  rfl

/-! ## On the way through a file -/

/-- Holds of a cursor and one that stands behind it or at the same place on the way through a file. -/
structure Leads (c d : Cursor) : Prop where
  source : d.source = c.source
  eof : d.eof = c.eof
  ahead : d.ahead <:+ c.ahead
  ready : c.Ready → d.Ready

variable {c} {d e : Cursor}

theorem Leads.refl (c : Cursor) : c.Leads c := ⟨rfl, rfl, List.suffix_refl _, id⟩

theorem Leads.trans (h : c.Leads d) (h' : d.Leads e) : c.Leads e where
  source := h'.source.trans h.source
  eof := h'.eof.trans h.eof
  ahead := h'.ahead.trans h.ahead
  ready := fun hc => h'.ready (h.ready hc)

theorem Moved.leads {ts : List Token} {is : List Ident} {es : List ParseError}
    (h : c.Moved ts is es d) : c.Leads d :=
  ⟨h.source, h.eof, ⟨ts, h.ahead.symm⟩, h.ready⟩

theorem leads_report (c : Cursor) (e : ParseError) : c.Leads (c.report e) :=
  (moved_report c e).leads

theorem leads_bump (c : Cursor) : c.Leads c.bump := by
  cases h : c.ahead with
  | nil =>
    rw [bump, h]
    exact Leads.refl c
  | cons t ts => exact (took_bump h).leads

theorem leads_advance (n : Nat) (c : Cursor) : c.Leads (c.advance n) := by
  induction n generalizing c with
  | zero => exact Leads.refl c
  | succ n ih => exact (leads_bump c).trans (ih c.bump)

theorem leads_eat (k : TokenKind) (c : Cursor) : c.Leads (c.eat k) := by
  unfold eat
  split
  · exact leads_bump c
  · exact Leads.refl c

theorem leads_skipWhile (p : Token → Bool) (c : Cursor) : c.Leads (c.skipWhile p) :=
  leads_advance _ c

/-- The identifiers on the way do not matter. -/
theorem leads_idents (is : List Ident) (c : Cursor) : c.Leads { c with idents := is } :=
  ⟨rfl, rfl, List.suffix_refl _, fun h => ⟨h.eof, h.ahead, h.placed⟩⟩

theorem leads_skipStatement (c : Cursor) : c.Leads c.skipStatement := leads_advance _ c

theorem leads_skipMember (c : Cursor) : c.Leads c.skipMember := leads_advance _ c

theorem leads_skipDelegate (c : Cursor) : c.Leads c.skipDelegate :=
  (leads_skipStatement c).trans (leads_idents _ _)

end Cursor

end SelfTypeLint
