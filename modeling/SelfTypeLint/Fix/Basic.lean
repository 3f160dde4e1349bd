import SelfTypeLint.Analysis.Report

/-!
# Fixes

A `CodeFix` offers actions for the diagnostics of some rules and computes the edits of an action. A
`FixRun` carries out one action and ends either with its edits or with a failure; it is never begun
again.
-/

namespace SelfTypeLint

/-- What a fix sees of one diagnostic. -/
structure FixContext where
  host : Host
  diagnostic : Diagnostic
  /-- The configuration of the diagnostic's document. -/
  config : Config
  /-- Whether a request to stop was made. -/
  cancelled : Bool

namespace FixContext

/-- The context of a diagnostic. -/
def new (host : Host) (diagnostic : Diagnostic) (cancelled : Bool) : FixContext :=
  { host, diagnostic, config := Analysis.configFor host diagnostic.location.file, cancelled }

/-- The document of the diagnostic. -/
def file (c : FixContext) : FileId := c.diagnostic.location.file

/-- The place of the diagnostic in its document. -/
def span (c : FixContext) : Span := c.diagnostic.location.span

end FixContext

/-- An action that a fix offers. -/
structure CodeAction where
  title : String
  /-- Names the kind of fix. -/
  key : String
  diagnostic : Diagnostic
  deriving DecidableEq, Repr

/-- The stages of carrying out an action. -/
inductive FixState
  | idle
  | diagnosticReceived
  | editComputed
  | solutionReturned
  | failed
  deriving DecidableEq, Repr, Inhabited

namespace FixState

/-- Holds of the stages that no other follows. -/
def isTerminal : FixState → Bool
  | solutionReturned | failed => true
  | _ => false

/-- The name of a stage. -/
def name : FixState → String
  | idle => "Idle"
  | diagnosticReceived => "DiagnosticReceived"
  | editComputed => "EditComputed"
  | solutionReturned => "SolutionReturned"
  | failed => "Failed"

end FixState

/-- Why an action gives no edits. -/
inductive FixError
  | symbolNotFound
  | argumentNotFound
  | attributeNotResolved (name : String)
  | documentNotFound (file : FileId)
  | notApplicable (key : String) (rule : Rule)
  | alreadyRun (state : FixState)
  | rename (cause : RenameError)
  | cancelled
  deriving DecidableEq, Repr

namespace FixError

/-- The wording of a failure. -/
def message : FixError → String
  | symbolNotFound => "no type parameter is declared at the diagnostic location"
  | argumentNotFound => "no self-type argument at the diagnostic location"
  | attributeNotResolved name =>
    "marker attribute `" ++ name ++ "` does not resolve to a unique type"
  | documentNotFound file => "document " ++ FileId.render file ++ " is not part of the workspace"
  | notApplicable key rule => "`" ++ key ++ "` does not fix " ++ rule.code
  | alreadyRun state => "fix already finished in state " ++ state.name
  | rename cause => "rename failed: " ++ cause.message
  | cancelled => Cancelled.message {}

/-- Holds of failures that a request to stop caused. -/
def isCancelled : FixError → Bool
  | cancelled | rename .cancelled => true
  | _ => false

end FixError

/-- A kind of fix. -/
structure CodeFix where
  /-- Names the kind of fix. -/
  key : String
  /-- The rules whose diagnostics it fixes. -/
  rules : List Rule
  /-- The actions offered for the diagnostic of a context. -/
  offer : FixContext → List CodeAction
  /-- The edits of an action. -/
  compute : FixContext → CodeAction → Except FixError EditSet

/-- The progress of one action. -/
structure FixRun where
  state : FixState
  deriving DecidableEq, Repr, Inhabited

namespace FixRun

/-- A run that has not begun. -/
def idle : FixRun := ⟨.idle⟩

/-- Carries out an action, unless the run has begun before. -/
def execute (run : FixRun) (fix : CodeFix) (ctx : FixContext) (action : CodeAction) :
    Except FixError EditSet × FixRun :=
  if run.state ≠ .idle then (.error (.alreadyRun run.state), run)
  else
    let result := if ctx.cancelled then .error .cancelled else fix.compute ctx action
    match result with
    | .ok edit => (.ok edit, ⟨.solutionReturned⟩)
    | .error e => (.error e, ⟨.failed⟩)

/-- A run that was begun is at its end. -/
theorem isTerminal_execute (run : FixRun) (fix : CodeFix) (ctx : FixContext) (action : CodeAction)
    (h : run = idle) : (run.execute fix ctx action).2.state.isTerminal = true := by
  subst h
  simp only [execute, idle, ne_eq, not_true_eq_false, if_false]
  split <;> rfl

end FixRun

end SelfTypeLint
