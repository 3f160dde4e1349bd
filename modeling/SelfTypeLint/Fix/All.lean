import SelfTypeLint.Fix.Registry

/-!
# Fixing many diagnostics

Every diagnostic's edits are computed for the same documents and merged into one set. Equal edits are
kept once, so that several marks in one file share a using directive. An action with an edit that
overlaps one merged before is dropped as a whole.
-/

namespace SelfTypeLint

/-- A diagnostic whose edits could not be computed. -/
structure FixFailure where
  diagnostic : Diagnostic
  error : FixError
  deriving DecidableEq, Repr

/-- A diagnostic with an edit that overlaps one merged before it. -/
structure FixConflict where
  diagnostic : Diagnostic
  file : FileId
  conflict : EditConflict
  deriving DecidableEq, Repr

/-- What fixing many diagnostics gives. -/
structure FixAllOutcome where
  edit : EditSet
  /-- Number of diagnostics whose edits are merged. -/
  applied : Nat
  /-- Number of diagnostics without a matching action. -/
  notOffered : Nat
  conflicts : List FixConflict
  failures : List FixFailure
  deriving DecidableEq, Repr

namespace FixAll

/-- The outcome before the first diagnostic. -/
def start : FixAllOutcome := ⟨.empty, 0, 0, [], []⟩

/-- The edits of a list that are new, given those merged and those found new before; or the first
overlap with a merged one. -/
def newEdits (file : FileId) (existing : List TextEdit) :
    List TextEdit → List (FileId × TextEdit) → Except EditConflict (List (FileId × TextEdit))
  | [], pending => .ok pending
  | e :: es, pending =>
    if existing.contains e || pending.contains (file, e) then newEdits file existing es pending
    else
      match existing.find? (·.overlaps e) with
      | some old => .error ⟨old, e⟩
      | none => newEdits file existing es (pending ++ [(file, e)])

/-- The new edits of several documents, or the first overlap with its document. -/
def newChanges (merged : EditSet) :
    List (FileId × List TextEdit) → List (FileId × TextEdit) →
      Except (FileId × EditConflict) (List (FileId × TextEdit))
  | [], pending => .ok pending
  | (file, edits) :: rest, pending =>
    match newEdits file (merged.editsFor file) edits pending with
    | .ok pending => newChanges merged rest pending
    | .error conflict => .error (file, conflict)

/-- A set of edits with those of another, all or none. -/
def merge (merged edit : EditSet) : Except (FileId × EditConflict) EditSet := do
  let pending ← newChanges merged edit.changes []
  return pending.foldl (fun s (file, e) => s.push file e) merged

/-- The first action offered for a diagnostic, of the kind asked for if there is one. -/
def chooseAction (registry : FixRegistry) (ctx : FixContext) (key : Option String) :
    Option CodeAction :=
  (registry.actions ctx).find? fun a => key.all (a.key == ·)

/-- Adds one diagnostic to an outcome. -/
def step (registry : FixRegistry) (host : Host) (key : Option String) (cancelled : Bool)
    (o : FixAllOutcome) (d : Diagnostic) : Except Cancelled FixAllOutcome := do
  checkCancelled cancelled
  let ctx := FixContext.new host d cancelled
  match chooseAction registry ctx key with
  | none => return { o with notOffered := o.notOffered + 1 }
  | some action =>
    match registry.apply ctx action with
    | .error e =>
      if e.isCancelled then throw {}
      else return { o with failures := o.failures ++ [⟨d, e⟩] }
    | .ok edit =>
      match merge o.edit edit with
      | .ok merged => return { o with edit := merged, applied := o.applied + 1 }
      | .error (file, conflict) =>
        return { o with conflicts := o.conflicts ++ [⟨d, file, conflict⟩] }

end FixAll

/-- Fixes diagnostics, each with the first action offered, or the first of one kind. -/
def fixAll (registry : FixRegistry) (host : Host) (diagnostics : List Diagnostic)
    (key : Option String) (cancelled : Bool) : Except Cancelled FixAllOutcome :=
  diagnostics.foldlM (FixAll.step registry host key cancelled) FixAll.start

end SelfTypeLint
