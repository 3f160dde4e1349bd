import SelfTypeLint.Report.Document
import SelfTypeLint.Report.JsonValue

/-!
# Reports in the static analysis results interchange format

The log of one run in SARIF 2.1.0: the tool with the rules that were found violated, and a result for
each diagnostic. The fields of every object stand in alphabetical order.
-/

namespace SelfTypeLint

/-- The part of a document that a result points to. -/
structure SarifRegion where
  startLine : Nat
  startColumn : Nat
  endLine : Nat
  endColumn : Nat
  charOffset : Nat
  charLength : Nat
  deriving DecidableEq, Repr

/-- A log under construction. -/
structure SarifReport where
  toolName : String
  toolVersion : String
  results : List JsonValue
  /-- The rules of the results so far, by code. -/
  rules : List Rule
  deriving Repr

namespace SarifReport

open JsonValue

/-- A log without results. -/
def empty (toolName toolVersion : String) : SarifReport := ⟨toolName, toolVersion, [], []⟩

/-- The word for a severity. -/
def level : Severity → String
  | .error => "error"
  | .warning => "warning"
  | .note | .help => "note"

/-- An object that holds a text. -/
def message (text : String) : JsonValue := object [("text", string text)]

/-- The region of a span. -/
def region (doc : SourceDocument) (span : Span) : SarifRegion :=
  let ((startLine, startColumn), (endLine, endColumn)) := doc.range span
  { startLine, startColumn, endLine, endColumn
    charOffset := span.start, charLength := span.size }

/-- A region as an object. -/
def regionValue (r : SarifRegion) : JsonValue :=
  object [("charLength", number r.charLength), ("charOffset", number r.charOffset),
    ("endColumn", number r.endColumn), ("endLine", number r.endLine),
    ("startColumn", number r.startColumn), ("startLine", number r.startLine)]

/-- The document and region of a span. -/
def physicalLocation (doc : SourceDocument) (span : Span) : JsonValue :=
  object [("artifactLocation", object [("uri", string doc.path)]),
    ("region", regionValue (region doc span))]

/-- A secondary label with its number. -/
def relatedLocation (doc : SourceDocument) (label : Label) (id : Nat) : JsonValue :=
  object [("id", number id), ("message", message label.message),
    ("physicalLocation", physicalLocation doc label.span)]

/-- A diagnostic as a result. -/
def result (doc : SourceDocument) (d : Diagnostic) : JsonValue :=
  let related := ((d.labels.filter (!·.isPrimary)).zipIdx).map fun (l, i) => relatedLocation doc l i
  object
    ([("level", string (level d.severity)),
      ("locations", array [object [("physicalLocation", physicalLocation doc d.span)]]),
      ("message", message d.message)] ++
      (if related.isEmpty then [] else [("relatedLocations", array related)]) ++
      [("ruleId", string d.rule.code)])

/-- A list of rules by code with one more. -/
def insertRule (r : Rule) : List Rule → List Rule
  | [] => [r]
  | s :: rest =>
    if r.rank < s.rank then r :: s :: rest
    else if r = s then s :: rest
    else s :: insertRule r rest

/-- Adds diagnostics of a document. -/
def add (report : SarifReport) (doc : SourceDocument) (ds : List Diagnostic) : SarifReport :=
  { report with
    results := report.results ++ ds.map (result doc)
    rules := ds.foldl (fun rules d => insertRule d.rule rules) report.rules }

/-- A rule with its title and default severity. -/
def ruleValue (r : Rule) : JsonValue :=
  object [("defaultConfiguration", object [("level", string (level r.defaultSeverity))]),
    ("id", string r.code), ("name", string r.title),
    ("properties", object [("category", string r.category)]),
    ("shortDescription", message r.title)]

/-- Where the schema of the format is published. -/
def schema : String :=
  "https://raw.githubusercontent.com/oasis-tcs/sarif-spec/master/Schemata/" ++
    "sarif-schema-2.1.0.json"

/-- The whole log. -/
def toValue (report : SarifReport) : JsonValue :=
  object [("$schema", string schema),
    ("runs", array [object [("results", array report.results),
      ("tool", object [("driver", object [("name", string report.toolName),
        ("rules", array (report.rules.map ruleValue)),
        ("version", string report.toolVersion)])])]]),
    ("version", string "2.1.0")]

/-- The text of the log. -/
def finish (report : SarifReport) : String := report.toValue.render

end SarifReport

end SelfTypeLint
