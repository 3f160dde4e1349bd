import SelfTypeLint.Report.Document
import SelfTypeLint.Report.JsonValue

/-!
# Reports as a JSON array

Each diagnostic is an object whose fields stand in a fixed order. Finishing a report writes the array
and begins a new one.
-/

namespace SelfTypeLint

/-- The diagnostics collected for one array. -/
structure JsonReport where
  entries : List JsonValue
  deriving Repr, Inhabited

namespace JsonReport

open JsonValue

/-- A report without diagnostics. -/
def empty : JsonReport := ⟨[]⟩

/-- A place as an object. -/
def position (p : Nat × Nat) : JsonValue := object [("line", number p.1), ("column", number p.2)]

/-- A label as an object. -/
def label (l : Label) : JsonValue :=
  object [("start", number l.span.start), ("end", number l.span.stop),
    ("message", string l.message), ("primary", bool l.isPrimary)]

/-- A diagnostic as an object. -/
def entry (doc : SourceDocument) (d : Diagnostic) : JsonValue :=
  let (start, stop) := doc.range d.span
  object [("code", string d.rule.code), ("severity", string d.severity.name),
    ("category", string d.rule.category), ("message", string d.message),
    ("arguments", array (d.arguments.map string)), ("file", string doc.path),
    ("start", position start), ("end", position stop),
    ("labels", array (d.labels.map label)), ("notes", array (d.notes.map string))]

/-- Adds diagnostics of a document. -/
def add (r : JsonReport) (doc : SourceDocument) (ds : List Diagnostic) : JsonReport :=
  ⟨r.entries ++ ds.map (entry doc)⟩

/-- The text of the array, and the report that follows it. -/
def finish (r : JsonReport) : String × JsonReport := ((array r.entries).render, empty)

end JsonReport

end SelfTypeLint
