import SelfTypeLint.Tree.Reader.Declarations

/-!
# Running reading steps

`Sat f c Q E` says of the step `f` begun at the cursor `c` that a success with a value `a` at a cursor
`c'` satisfies `Q a c'`, and that a failure leaves a cursor that satisfies `E`. The lemmas below take
this apart along the way in which steps are put together, so that a statement about a reader becomes
one about the cursors on its way.
-/

namespace SelfTypeLint.Read

variable {α β : Type} {c : Cursor} {Q : α → Cursor → Prop} {E : Cursor → Prop}

/-- The outcome of a step and the cursor that it leaves. -/
def runAt (f : Read α) (c : Cursor) : Except ParseError α × Cursor := (ExceptT.run f).run c

/-- What holds after a step, with one condition for success and one for failure. -/
def Sat (f : Read α) (c : Cursor) (Q : α → Cursor → Prop) (E : Cursor → Prop) : Prop :=
  match f.runAt c with
  | (.ok a, c') => Q a c'
  | (.error _, c') => E c'

/-- What holds after a step that does not fail. -/
def SatM (f : StateM Cursor α) (c : Cursor) (Q : α → Cursor → Prop) : Prop :=
  Q (f.run c).1 (f.run c).2

theorem Sat.mono {f : Read α} {Q' : α → Cursor → Prop} {E' : Cursor → Prop} (h : Sat f c Q E)
    (hQ : ∀ a c', Q a c' → Q' a c') (hE : ∀ c', E c' → E' c') : Sat f c Q' E' := by
  unfold Sat at h ⊢
  split
  · next a c' he => rw [he] at h; exact hQ a c' h
  · next e c' he => rw [he] at h; exact hE c' h

theorem SatM.mono {f : StateM Cursor α} {Q' : α → Cursor → Prop} (h : SatM f c Q)
    (hQ : ∀ a c', Q a c' → Q' a c') : SatM f c Q' :=
  hQ _ _ h

theorem sat_bind {f : Read β} {g : β → Read α} :
    Sat (f >>= g) c Q E ↔ Sat f c (fun b c' => Sat (g b) c' Q E) E := by
  have h : (f >>= g).runAt c = match f.runAt c with
      | (.ok b, c') => (g b).runAt c'
      | (.error e, c') => (.error e, c') := by
    simp only [runAt, ExceptT.run, bind, ExceptT.bind, ExceptT.mk, StateT.bind, StateT.run]
    generalize (f : StateM Cursor _) c = r
    obtain ⟨r, c'⟩ := r
    cases r <;> rfl
  unfold Sat
  rw [h]
  cases f.runAt c with
  | mk r c' => cases r <;> rfl

theorem satM_bind {f : StateM Cursor β} {g : β → StateM Cursor α} :
    SatM (f >>= g) c Q ↔ SatM f c fun b c' => SatM (g b) c' Q :=
  Iff.rfl

@[simp] theorem sat_pure {a : α} : Sat (pure a) c Q E ↔ Q a c := Iff.rfl

@[simp] theorem satM_pure {a : α} : SatM (pure a) c Q ↔ Q a c := Iff.rfl

@[simp] theorem sat_throw {e : ParseError} : Sat (throw e) c Q E ↔ E c := Iff.rfl

@[simp] theorem sat_get {Q : Cursor → Cursor → Prop} : Sat get c Q E ↔ Q c c := Iff.rfl

@[simp] theorem satM_get {Q : Cursor → Cursor → Prop} : SatM get c Q ↔ Q c c := Iff.rfl

@[simp] theorem sat_set {Q : PUnit → Cursor → Prop} {d : Cursor} :
    Sat (set d) c Q E ↔ Q ⟨⟩ d := Iff.rfl

@[simp] theorem satM_set {Q : PUnit → Cursor → Prop} {d : Cursor} :
    SatM (set d) c Q ↔ Q ⟨⟩ d := Iff.rfl

@[simp] theorem sat_modify {Q : PUnit → Cursor → Prop} {f : Cursor → Cursor} :
    Sat (modify f) c Q E ↔ Q ⟨⟩ (f c) := Iff.rfl

@[simp] theorem satM_modify {Q : PUnit → Cursor → Prop} {f : Cursor → Cursor} :
    SatM (modify f) c Q ↔ Q ⟨⟩ (f c) := Iff.rfl

@[simp] theorem sat_liftM {f : StateM Cursor α} : Sat (liftM f) c Q E ↔ SatM f c Q := Iff.rfl

@[simp] theorem sat_fail {w : Wanted} : Sat (fail w : Read α) c Q E ↔ E c := Iff.rfl

@[simp] theorem sat_next {Q : Token → Cursor → Prop} :
    Sat next c Q E ↔ Q c.current c.bump := Iff.rfl

@[simp] theorem sat_spanFrom {Q : Span → Cursor → Prop} {start : Nat} :
    Sat (spanFrom start) c Q E ↔ Q (c.spanFrom start) c := Iff.rfl

theorem sat_expect {Q : Token → Cursor → Prop} {k : TokenKind} {w : Wanted} :
    Sat (expect k w) c Q E ↔ if c.kind = k then Q c.current c.bump else E c := by
  rw [expect, sat_bind, sat_get]
  split <;> simp

theorem sat_eat {Q : Bool → Cursor → Prop} {k : TokenKind} :
    Sat (eat k) c Q E ↔ if c.kind = k then Q true c.bump else Q false c := by
  rw [eat, sat_bind, sat_get]
  split
  · rw [sat_bind]; simp
  · simp

theorem sat_attempt {f : Read α} {Q : Except ParseError α → Cursor → Prop} :
    Sat (attempt f) c Q E ↔ SatM f.run c Q := Iff.rfl

/-- The outcome of a step, as a step that does not fail. -/
theorem satM_run {f : Read α} {Q : Except ParseError α → Cursor → Prop} :
    SatM f.run c Q ↔ Sat f c (fun a c' => Q (.ok a) c') fun c' =>
      ∀ e, (f.runAt c).1 = .error e → Q (.error e) c' := by
  have h : SatM f.run c Q ↔ Q (f.runAt c).1 (f.runAt c).2 := Iff.rfl
  rw [h]
  unfold Sat
  cases f.runAt c with
  | mk r c' => cases r <;> simp

end SelfTypeLint.Read
