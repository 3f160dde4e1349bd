import SelfTypeLint.Diagnostic.Rule
import SelfTypeLint.Text.Span
import SelfTypeLint.Text.Template

/-!
# Diagnostics

A diagnostic is a finding of a rule at a location, with its message, labelled spans and notes.
-/

namespace SelfTypeLint

/-- The order of lists of numbers: the first difference decides. -/
def keyBefore : List Nat → List Nat → Bool
  | [], _ => true
  | _ :: _, [] => false
  | a :: as, b :: bs => a < b || a == b && keyBefore as bs

theorem keyBefore_total (as bs : List Nat) : (keyBefore as bs || keyBefore bs as) = true := by
  induction as generalizing bs with
  | nil => simp [keyBefore]
  | cons a as ih =>
    cases bs with
    | nil => simp [keyBefore]
    | cons b bs =>
      have := ih bs
      rcases Nat.lt_trichotomy a b with h | rfl | h <;> simp_all [keyBefore]

theorem keyBefore_trans {as bs cs : List Nat} (hab : keyBefore as bs = true)
    (hbc : keyBefore bs cs = true) : keyBefore as cs = true := by
  induction as generalizing bs cs with
  | nil => simp [keyBefore]
  | cons a as ih =>
    cases bs with
    | nil => simp [keyBefore] at hab
    | cons b bs =>
      cases cs with
      | nil => simp [keyBefore] at hbc
      | cons c cs =>
        simp only [keyBefore, Bool.or_eq_true, decide_eq_true_eq, Bool.and_eq_true,
          beq_iff_eq] at *
        rcases hab with hab | ⟨rfl, hab⟩
        · exact .inl (by omega)
        · rcases hbc with hbc | ⟨rfl, hbc⟩
          · exact .inl hbc
          · exact .inr ⟨rfl, ih hab hbc⟩

/-- A span of the diagnostic's document with a message. -/
structure Label where
  span : Span
  message : String
  isPrimary : Bool
  deriving DecidableEq, Repr, Inhabited

/-- A finding of a rule. -/
structure Diagnostic where
  rule : Rule
  severity : Severity
  message : String
  /-- The arguments of the message, in the order of its placeholders. -/
  arguments : List String
  location : Location
  labels : List Label
  notes : List String
  deriving DecidableEq, Repr, Inhabited

namespace Diagnostic

/-- A finding of a rule with its message and default severity. -/
def new (rule : Rule) (location : Location) (arguments : List String) : Diagnostic :=
  { rule, severity := rule.defaultSeverity
    message := Text.fillTemplate rule.messageTemplate arguments
    arguments, location, labels := [], notes := [] }

/-- Sets the severity. -/
def withSeverity (d : Diagnostic) (severity : Severity) : Diagnostic := { d with severity }

/-- Adds a primary label at the place of the finding. -/
def withLabel (d : Diagnostic) (message : String) : Diagnostic :=
  { d with labels := d.labels ++ [⟨d.location.span, message, true⟩] }

/-- Adds a secondary label. -/
def withSecondaryLabel (d : Diagnostic) (span : Span) (message : String) : Diagnostic :=
  { d with labels := d.labels ++ [⟨span, message, false⟩] }

/-- Adds a note. -/
def withNote (d : Diagnostic) (note : String) : Diagnostic := { d with notes := d.notes ++ [note] }

/-- The place of the finding in its document. -/
def span (d : Diagnostic) : Span := d.location.span

/-- Holds of errors. -/
def isError (d : Diagnostic) : Bool := d.severity = .error

/-- The diagnostic in one line. -/
def summary (d : Diagnostic) : String :=
  d.severity.name ++ "[" ++ d.rule.code ++ "]: " ++ d.message

end Diagnostic

end SelfTypeLint
