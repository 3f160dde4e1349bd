import SelfTypeLint.Fix.Argument
import SelfTypeLint.Fix.Marker
import SelfTypeLint.Fix.Name

/-!
# The registry of fixes

Collects kinds of fix. The actions for a diagnostic are those of the fixes for its rule, in the order
in which they were registered.
-/

namespace SelfTypeLint

/-- Kinds of fix in the order of registration. -/
structure FixRegistry where
  fixes : List CodeFix

namespace FixRegistry

/-- A registry without fixes. -/
def empty : FixRegistry := ⟨[]⟩

/-- Adds a kind of fix. -/
def register (r : FixRegistry) (fix : CodeFix) : FixRegistry := ⟨r.fixes ++ [fix]⟩

/-- The registry of the fixes of this library. -/
def builtin : FixRegistry :=
  ((empty.register Fix.nameFix).register Fix.markerFix).register Fix.argumentFix

/-- The fixes for a rule. -/
def fixesFor (r : FixRegistry) (rule : Rule) : List CodeFix :=
  r.fixes.filter (·.rules.contains rule)

/-- The actions offered for the diagnostic of a context. -/
def actions (r : FixRegistry) (ctx : FixContext) : List CodeAction :=
  (r.fixesFor ctx.diagnostic.rule).flatMap (·.offer ctx)

/-- The first fix with a key. -/
def find? (r : FixRegistry) (key : String) : Option CodeFix := r.fixes.find? (·.key == key)

/-- Holds if there are fixes for a rule. -/
def hasFixesFor (r : FixRegistry) (rule : Rule) : Bool := !(r.fixesFor rule).isEmpty

/-- The edits of an action. -/
def apply (r : FixRegistry) (ctx : FixContext) (action : CodeAction) : Except FixError EditSet :=
  match (r.fixesFor action.diagnostic.rule).find? (·.key == action.key) with
  | none => .error (.notApplicable action.key action.diagnostic.rule)
  | some fix => (FixRun.idle.execute fix ctx action).1

theorem fixesFor_register (r : FixRegistry) (fix : CodeFix) (rule : Rule) :
    (r.register fix).fixesFor rule =
      r.fixesFor rule ++ if fix.rules.contains rule then [fix] else [] := by
  simp only [register, fixesFor, List.filter_append]
  split <;> simp_all

end FixRegistry

end SelfTypeLint
