import SelfTypeLint.Analysis.Scan
import SelfTypeLint.Diagnostic.Queue

/-!
# Analysis of documents

Turns the findings of documents into diagnostics, with the severities that their configurations set.
-/

namespace SelfTypeLint

/-- The diagnostic of a finding; none if its rule is suppressed. -/
def Finding.toDiagnostic? (config : Config) (file : FileId) (finding : Finding) :
    Option Diagnostic := do
  let d ← match finding with
    | .selfArgument span typeName =>
      some ((Diagnostic.new .selfArgument ⟨file, span⟩ [typeName]).withLabel
        ("expected `" ++ typeName ++ "`"))
    | .forwardedParameter span _ paramName => do
      let expected ← config.alternatives paramName
      some ((Diagnostic.new .forwardedParameter ⟨file, span⟩ [expected]).withLabel
        "passed to a self-type parameter")
  let severity ← (config.level d.rule).severity? d.rule
  return d.withSeverity severity

namespace Analysis

/-- The configuration for a document. -/
def configFor (host : Host) (file : FileId) : Config :=
  Config.resolve ((host.options file).getD .empty).lookup host.typeByName

/-- The diagnostics of a document, in the order of its declarations. -/
def analyzeDocument (host : Host) (file : FileId) (cancelled : Bool) :
    Except Cancelled (List Diagnostic) :=
  match host.syntaxTree file with
  | none => .ok []
  | some tree =>
    let config := configFor host file
    if config.isActive then do
      let findings ← Scan.scanTree host.toSemanticModel config tree cancelled
      return findings.filterMap (Finding.toDiagnostic? config file)
    else .ok []

/-- The order of diagnostics: by document, start and end. -/
def placedBefore (a b : Diagnostic) : Bool :=
  let key (d : Diagnostic) : List Nat := [d.location.file, d.span.start, d.span.stop]
  keyBefore (key a) (key b)

/-- The diagnostics of all documents, in the order of their places. -/
def analyzeAll (host : Host) (cancelled : Bool) : Except Cancelled (List Diagnostic) := do
  let perDocument ← host.documentIds.mapM fun file => analyzeDocument host file cancelled
  return perDocument.flatten.mergeSort placedBefore

end Analysis

end SelfTypeLint
