import SelfTypeLint.Proofs.Layout.Bare

/-!
# Steps that do not see the layout

`LayoutFree e f g c` says that the step `g` from the bare cursor of `c` has the outcome of the step `f`
from `c` without its places: the value that `e` makes of it, or the bare fault, at a bare cursor. The
lemmas below take this apart along the way in which steps are put together; what holds of a whole reader
follows from what its steps see of the tokens.
-/

namespace SelfTypeLint.Read

open Cursor

variable {α β : Type} {c d : Cursor} {e : α → α}

/-- Holds of two steps without failure of which the second has the outcome of the first without its
places. -/
def LayoutFreeM (e : α → α) (f g : StateM Cursor α) (c : Cursor) : Prop :=
  g.run c.bare = (e (f.run c).1, (f.run c).2.bare) ∧ c.Leads (f.run c).2

/-- An outcome without its places. -/
def bareOutcome (e : α → α) : Except ParseError α → Except ParseError α
  | .ok a => .ok (e a)
  | .error x => .error x.bare

/-- Holds of two steps of which the second has the outcome of the first without its places. -/
def LayoutFree (e : α → α) (f g : Read α) (c : Cursor) : Prop :=
  LayoutFreeM (bareOutcome e) (ExceptT.run f) (ExceptT.run g) c

/-! ## Steps without failure -/

section

variable {f g : StateM Cursor α}

theorem layoutFreeM_pure {a b : α} (h : b = e a) : LayoutFreeM e (pure a) (pure b) c :=
  ⟨congrArg (·, c.bare) h, Leads.refl c⟩

theorem LayoutFreeM.bind {e' : β → β} {f g : StateM Cursor β} {k k' : β → StateM Cursor α}
    (h : LayoutFreeM e' f g c) (hk : ∀ b d, c.Leads d → LayoutFreeM e (k b) (k' (e' b)) d) :
    LayoutFreeM e (f >>= k) (g >>= k') c := by
  obtain ⟨hf, hd⟩ := h
  obtain ⟨hrun, hleads⟩ := hk (f.run c).1 (f.run c).2 hd
  refine ⟨?_, hd.trans hleads⟩
  rw [StateT.run_bind, hf]
  exact hrun

theorem layoutFreeM_get {k k' : Cursor → StateM Cursor α} :
    LayoutFreeM e (get >>= k) (get >>= k') c ↔ LayoutFreeM e (k c) (k' c.bare) c := Iff.rfl

theorem LayoutFreeM.set {d' : Cursor} {k k' : PUnit → StateM Cursor α} (hd : d' = d.bare)
    (hleads : c.Leads d) (h : LayoutFreeM e (k ⟨⟩) (k' ⟨⟩) d) :
    LayoutFreeM e (set d >>= k) (set d' >>= k') c := by
  subst hd
  exact ⟨h.1, hleads.trans h.2⟩

theorem LayoutFreeM.modify {m m' : Cursor → Cursor} {k k' : PUnit → StateM Cursor α}
    (hm : m' c.bare = (m c).bare) (hleads : c.Leads (m c))
    (h : LayoutFreeM e (k ⟨⟩) (k' ⟨⟩) (m c)) :
    LayoutFreeM e (modify m >>= k) (modify m' >>= k') c := LayoutFreeM.set hm hleads h

/-- A fault is reported, and what follows it passed over. -/
theorem layoutFreeM_recover {skip : Cursor → Cursor} (hskip : ∀ d, skip d.bare = (skip d).bare)
    (hleads : ∀ d : Cursor, d.Leads (skip d)) (x : ParseError) {a b : α} (h : b = e a) :
    LayoutFreeM e (do modify fun d => skip (d.report x); return a)
      (do modify fun d => skip (d.report x.bare); return b) c := by
  apply LayoutFreeM.modify
  · rw [report_bare, hskip]
  · exact (leads_report c x).trans (hleads _)
  · exact layoutFreeM_pure h

theorem LayoutFreeM.ite {p q : Prop} [Decidable p] [Decidable q] {f' g' : StateM Cursor α}
    (hpq : q ↔ p) (hf : p → LayoutFreeM e f g c) (hf' : ¬p → LayoutFreeM e f' g' c) :
    LayoutFreeM e (if p then f else f') (if q then g else g') c := by
  by_cases h : p
  · rw [if_pos h, if_pos (hpq.2 h)]
    exact hf h
  · rw [if_neg h, if_neg (mt hpq.1 h)]
    exact hf' h

end

/-! ## Steps -/

section

variable {f g : Read α}

theorem layoutFree_pure {a b : α} (h : b = e a) : LayoutFree e (pure a) (pure b) c :=
  layoutFreeM_pure (congrArg Except.ok h)

theorem layoutFree_throw {x y : ParseError} (h : y = x.bare) :
    LayoutFree e (throw x : Read α) (throw y) c :=
  layoutFreeM_pure (congrArg Except.error h)

theorem LayoutFree.bind {e' : β → β} {f g : Read β} {k k' : β → Read α} (h : LayoutFree e' f g c)
    (hk : ∀ b d, f.runAt c = (.ok b, d) → c.Leads d → LayoutFree e (k b) (k' (e' b)) d) :
    LayoutFree e (f >>= k) (g >>= k') c := by
  obtain ⟨hrun, hleads⟩ := h
  have hbind : ∀ (s : Read β) (t : β → Read α) (x : Cursor), (s >>= t).run.run x =
      match s.run.run x with
      | (.ok b, y) => (t b).run.run y
      | (.error err, y) => (.error err, y) := by
    intro s t x
    rw [ExceptT.run_bind, StateT.run_bind]
    obtain ⟨r, y⟩ := s.run.run x
    cases r <;> rfl
  constructor
  · rw [hbind, hbind, hrun]
    cases hf : f.run.run c with
    | mk r d =>
      rw [hf] at hleads
      cases r with
      | ok b => exact (hk b d hf hleads).1
      | error err => rfl
  · rw [hbind]
    cases hf : f.run.run c with
    | mk r d =>
      rw [hf] at hleads
      cases r with
      | ok b => exact hleads.trans (hk b d hf hleads).2
      | error err => exact hleads

theorem layoutFree_get {k k' : Cursor → Read α} :
    LayoutFree e (get >>= k) (get >>= k') c ↔ LayoutFree e (k c) (k' c.bare) c := Iff.rfl

theorem layoutFree_set {d' : Cursor} (hd : d' = d.bare) (hleads : c.Leads d) :
    LayoutFree id (set d : Read PUnit) (set d') c := by
  subst hd
  exact ⟨rfl, hleads⟩

theorem LayoutFree.set {d' : Cursor} {k k' : PUnit → Read α} (hd : d' = d.bare)
    (hleads : c.Leads d) (h : LayoutFree e (k ⟨⟩) (k' ⟨⟩) d) :
    LayoutFree e (set d >>= k) (set d' >>= k') c := LayoutFreeM.set hd hleads h

theorem LayoutFree.modify {m m' : Cursor → Cursor} {k k' : PUnit → Read α}
    (hm : m' c.bare = (m c).bare) (hleads : c.Leads (m c))
    (h : LayoutFree e (k ⟨⟩) (k' ⟨⟩) (m c)) :
    LayoutFree e (modify m >>= k) (modify m' >>= k') c := LayoutFree.set hm hleads h

theorem LayoutFree.next {k k' : Token → Read α}
    (h : LayoutFree e (k c.current) (k' (Respelling.bare.token c.current)) c.bump) :
    LayoutFree e (next >>= k) (next >>= k') c := by
  refine ⟨?_, (leads_bump c).trans h.2⟩
  show (k' c.bare.current).run.run c.bare.bump = _
  rw [current_bare, bump_bare]
  exact h.1

theorem LayoutFree.spanFrom {start : Nat} {k k' : Span → Read α}
    (h : LayoutFree e (k (c.spanFrom start)) (k' ⟨0, 0⟩) c) :
    LayoutFree e (spanFrom start >>= k) (spanFrom 0 >>= k') c := h

theorem LayoutFree.ite {p q : Prop} [Decidable p] [Decidable q] {f' g' : Read α}
    (hpq : q ↔ p) (hf : p → LayoutFree e f g c) (hf' : ¬p → LayoutFree e f' g' c) :
    LayoutFree e (if p then f else f') (if q then g else g') c := LayoutFreeM.ite hpq hf hf'

theorem layoutFree_fail (wanted : Wanted) : LayoutFree e (fail wanted : Read α) (fail wanted) c :=
  layoutFree_throw (unexpected_bare c wanted)

theorem layoutFree_expect (k : TokenKind) (wanted : Wanted) :
    LayoutFree Respelling.bare.token (expect k wanted) (expect k wanted) c := by
  refine LayoutFree.ite (by rw [kind_bare]) (fun _ => ?_) fun _ => layoutFree_fail wanted
  exact LayoutFree.next (layoutFree_pure rfl)

theorem layoutFree_eat (k : TokenKind) : LayoutFree id (eat k) (eat k) c := by
  refine LayoutFree.ite (by rw [kind_bare]) (fun _ => ?_) fun _ => layoutFree_pure rfl
  exact LayoutFree.modify (bump_bare c) (leads_bump c) (layoutFree_pure rfl)

/-- A step without failure may stand in front of others. -/
theorem LayoutFree.lift {e' : β → β} {f g : StateM Cursor β} {k k' : β → Read α}
    (h : LayoutFreeM e' f g c) (hk : ∀ b d, c.Leads d → LayoutFree e (k b) (k' (e' b)) d) :
    LayoutFree e (liftM f >>= k) (liftM g >>= k') c := by
  obtain ⟨hf, hd⟩ := h
  obtain ⟨hrun, hleads⟩ := hk (f.run c).1 (f.run c).2 hd
  refine ⟨?_, hd.trans hleads⟩
  show (k' (g.run c.bare).1).run.run (g.run c.bare).2 = _
  rw [hf]
  exact hrun

/-- A step that may fail, as one that gives its outcome. -/
theorem LayoutFreeM.bind_run {e' : β → β} {f g : Read β}
    {k k' : Except ParseError β → StateM Cursor α} (h : LayoutFree e' f g c)
    (hok : ∀ b d, c.Leads d → LayoutFreeM e (k (.ok b)) (k' (.ok (e' b))) d)
    (herror : ∀ x d, c.Leads d → LayoutFreeM e (k (.error x)) (k' (.error x.bare)) d) :
    LayoutFreeM e (f.run >>= k) (g.run >>= k') c := by
  refine LayoutFreeM.bind h fun r d hd => ?_
  cases r with
  | ok b => exact hok b d hd
  | error x => exact herror x d hd

/-- After an item, a comma goes on with the list. -/
theorem layoutFree_more {m : α → α} {more more' : Read (List α)} {a a' : α} (ha : a' = m a)
    (hmore : ∀ d, LayoutFree (List.map m) more more' d) :
    LayoutFree (List.map m) (do if ← eat .comma then return a :: (← more) else return [a])
      (do if ← eat .comma then return a' :: (← more') else return [a']) c := by
  subst ha
  refine (layoutFree_eat .comma).bind fun b d _ _ => ?_
  refine LayoutFree.ite Iff.rfl (fun _ => ?_) fun _ => layoutFree_pure rfl
  exact (hmore d).bind fun as d' _ _ => layoutFree_pure rfl

end

end SelfTypeLint.Read
