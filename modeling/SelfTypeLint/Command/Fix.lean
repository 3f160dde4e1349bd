import SelfTypeLint.Analysis.Report
import SelfTypeLint.Command.Error
import SelfTypeLint.Fix.All
import SelfTypeLint.Workspace.Rename

/-!
# Fixing

Fixes the diagnostics of the sources that some paths name, updates the changed files and tells what
was done. Diagnostics that cannot be fixed are reported, and those whose fix overlaps another are left
for a second run.
-/

namespace SelfTypeLint

/-- How to fix. -/
structure FixOptions where
  /-- The only kind of fix to apply; without one, the first that is offered for each diagnostic. -/
  key : Option String
  /-- Says if no file is changed. -/
  dryRun : Bool
  deriving DecidableEq, Repr

/-- Every kind of fix, and files are changed. -/
def FixOptions.standard : FixOptions := ⟨none, false⟩

/-- Counts of what was fixed. -/
structure FixSummary where
  applied : Nat
  notOffered : Nat
  conflicts : Nat
  failures : Nat
  /-- The paths of the files that change. -/
  files : List String
  deriving DecidableEq, Repr

/-- What a run of fixes leaves behind: the files, what it tells, and its result. -/
structure FixReport where
  disk : Disk
  output : String
  result : Except CommandError FixSummary

namespace FixReport

/-- A run that fails before it changes a file. -/
def failure (d : Disk) (e : CommandError) : FixReport := ⟨d, "", .error e⟩

/-- The line that reports a diagnostic which cannot be fixed. -/
def failureLine (w : Workspace) (f : FixFailure) : String :=
  let path := ((w.document? f.diagnostic.location.file).map (·.path)).getD ""
  "warning: cannot fix " ++ f.diagnostic.rule.code ++ " in " ++ path ++ ": " ++ f.error.message ++ "\n"

/-- A count of fixes, and its noun. -/
def countFixes (n : Nat) (adjective : String) : String :=
  toString n ++ adjective ++ " fix" ++ if n = 1 then "" else "es"

/-- The lines that close a report. -/
def closing (s : FixSummary) : String :=
  let files := s.files.length
  countFixes s.applied "" ++ " in " ++ toString files ++ " file" ++ (if files = 1 then "" else "s") ++
    "\n" ++
    if s.conflicts = 0 then ""
    else countFixes s.conflicts " overlapping" ++ " skipped; run again to apply\n"

/-- The files after an update, what it tells, and the paths of the changed files; or an error that
ends it. -/
structure Update where
  disk : Disk
  output : String
  files : Except CommandError (List String)

/-- Updates the files of some documents, one after the other. -/
def update (w : Workspace) (edit : EditSet) (dryRun : Bool) (d : Disk) (output : String)
    (done : List String) : List FileId → Update
  | [] => ⟨d, output, .ok done⟩
  | file :: rest =>
    match w.document? file with
    | none => update w edit dryRun d output done rest
    | some doc =>
      match edit.applyTo file doc.text with
      | .error e => ⟨d, output, .error (.edits doc.path e)⟩
      | .ok text =>
        let (d, verb) := if dryRun then (d, "would fix ") else (d.writeText doc.path text, "fixed ")
        update w edit dryRun d (output ++ verb ++ doc.path ++ "\n") (done ++ [doc.path]) rest

/-- Applies the outcome of fixing to the files. -/
def ofOutcome (d : Disk) (w : Workspace) (dryRun : Bool) (o : FixAllOutcome) : FixReport :=
  let warnings := String.join (o.failures.map (failureLine w))
  let r := update w o.edit dryRun d warnings [] o.edit.files
  match r.files with
  | .error e => ⟨r.disk, r.output, .error e⟩
  | .ok files =>
    let summary : FixSummary :=
      ⟨o.applied, o.notOffered, o.conflicts.length, o.failures.length, files⟩
    ⟨r.disk, r.output ++ closing summary, .ok summary⟩

end FixReport

/-- Finds the diagnostics of the sources that some paths name and computes their fixes. -/
def computeFixes (d : Disk) (paths : List String) (options : FixOptions) :
    Except CommandError (Workspace × FixAllOutcome) := do
  if let some key := options.key then
    if (FixRegistry.builtin.find? key).isNone then throw (.unknownFix key)
  let w ← (Project.load d paths).mapError .sources
  let cancelled {α : Type} (r : Except Cancelled α) : Except CommandError α :=
    r.mapError fun _ => .cancelled
  let found ← cancelled (Analysis.analyzeAll w.host false)
  return (w, ← cancelled (fixAll .builtin w.host found options.key false))

/-- Fixes the sources that some paths name. -/
def fix (d : Disk) (paths : List String) (options : FixOptions) : FixReport :=
  match computeFixes d paths options with
  | .error e => .failure d e
  | .ok (w, outcome) => .ofOutcome d w options.dryRun outcome

/-- A dry run changes no file. -/
theorem FixReport.disk_update_dry (w : Workspace) (edit : EditSet) (d : Disk) (output : String)
    (done : List String) (files : List FileId) :
    (update w edit true d output done files).disk = d := by
  induction files generalizing output done with
  | nil => rfl
  | cons file rest ih =>
    rw [update]
    split
    · exact ih _ _
    · split
      · rfl
      · exact ih _ _

end SelfTypeLint
