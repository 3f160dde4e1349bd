import SelfTypeLint.Analysis.Report
import SelfTypeLint.Command.Error
import SelfTypeLint.Report.Json
import SelfTypeLint.Report.Sarif
import SelfTypeLint.Report.Terminal
import SelfTypeLint.Workspace.Rename

/-!
# Checking

Analyzes the sources that some paths name and writes a report of the diagnostics.
-/

namespace SelfTypeLint

/-- The kinds of report. -/
inductive ReportFormat
  | terminal
  | json
  | sarif
  deriving DecidableEq, Repr, Inhabited

/-- The kind of report with a name. -/
def ReportFormat.ofName? : String → Option ReportFormat
  | "terminal" | "text" => some terminal
  | "json" => some json
  | "sarif" => some sarif
  | _ => none

/-- How a check reports. -/
structure CheckOptions where
  format : ReportFormat
  color : ColorMode
  deriving DecidableEq, Repr

/-- A report for people, in colours if it goes to a terminal. -/
def CheckOptions.standard : CheckOptions := ⟨.terminal, .auto⟩

/-- Counts of what a check reports. -/
structure CheckSummary where
  documents : Nat
  errors : Nat
  warnings : Nat
  /-- Number of diagnostics of all severities. -/
  reported : Nat
  deriving DecidableEq, Repr

/-- Holds if anything is reported. -/
def CheckSummary.hasFindings (s : CheckSummary) : Bool := 0 < s.reported

/-- The name that the tool reports itself under. -/
def toolName : String := "tsgc"

/-- The version that the tool reports. -/
def toolVersion : String := "0.1.0"

namespace Check

/-- The diagnostics of each document together with it. -/
def byDocument (w : Workspace) (diagnostics : List Diagnostic) :
    List (SourceDocument × List Diagnostic) :=
  (diagnostics.splitBy fun a b => a.location.file == b.location.file).filterMap fun group => do
    let first ← group.head?
    let doc ← w.document? first.location.file
    return (.new doc.path doc.text, group)

/-- The report of some diagnostics, which stand in the order of their documents. -/
def report (w : Workspace) (options : CheckOptions) (isTerminal : Bool) (summary : CheckSummary)
    (diagnostics : List Diagnostic) : String :=
  let groups := byDocument w diagnostics
  match options.format with
  | .terminal =>
    let colors := options.color.usesColors isTerminal
    String.join (groups.flatMap fun (doc, ds) => ds.map (TerminalReport.diagnostic colors doc)) ++
      TerminalReport.summary colors summary.errors summary.warnings
  | .json => (groups.foldl (fun r (doc, ds) => r.add doc ds) JsonReport.empty).finish.1
  | .sarif =>
    (groups.foldl (fun r (doc, ds) => r.add doc ds) (SarifReport.empty toolName toolVersion)).finish

end Check

/-- Checks the sources that some paths name. -/
def check (d : Disk) (paths : List String) (options : CheckOptions) (isTerminal : Bool) :
    Except CommandError (CheckSummary × String) := do
  let w ← (Project.load d paths).mapError .sources
  let found ← (Analysis.analyzeAll w.host false).mapError fun _ => .cancelled
  let queue := (DiagnosticQueue.empty .standard).addAll found
  let diagnostics := queue.flush.1
  let summary : CheckSummary :=
    { documents := w.documents.length
      errors := queue.errorCount
      warnings := queue.warningCount
      reported := diagnostics.length }
  return (summary, Check.report w options isTerminal summary diagnostics)

end SelfTypeLint
