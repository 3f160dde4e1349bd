import SelfTypeLint.Diagnostic.Basic
import SelfTypeLint.Text.Lines

/-!
# Documents in reports

The document that a diagnostic points into, with the table of its lines.
-/

namespace SelfTypeLint

/-- A document with its path and the table of its lines. -/
structure SourceDocument where
  path : String
  text : String
  lines : LineTable
  deriving Repr, Inhabited

namespace SourceDocument

/-- The document with a path and a text. -/
def new (path text : String) : SourceDocument := ⟨path, text, .ofText text⟩

/-- Line and column of an offset. -/
def position (doc : SourceDocument) (offset : Nat) : Nat × Nat :=
  doc.lines.position doc.text offset

/-- The positions of both ends of a span. -/
def range (doc : SourceDocument) (span : Span) : (Nat × Nat) × (Nat × Nat) :=
  doc.lines.range doc.text span

/-- The text of a line. -/
def lineText? (doc : SourceDocument) (line : Nat) : Option String :=
  doc.lines.lineText? doc.text line

end SourceDocument

end SelfTypeLint
