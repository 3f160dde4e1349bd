import SelfTypeLint.Report.Document

/-!
# Reports for people

A diagnostic is written with its place and, under each labelled line of the source, a row of marks
with the label's message. Colours are the escape sequences of a terminal.
-/

namespace SelfTypeLint

/-- When to use colours. -/
inductive ColorMode
  /-- If the output is a terminal. -/
  | auto
  | always
  | never
  deriving DecidableEq, Repr, Inhabited

namespace ColorMode

/-- Whether to use colours, given whether the output is a terminal. -/
def usesColors : ColorMode → Bool → Bool
  | auto, isTerminal => isTerminal
  | always, _ => true
  | never, _ => false

/-- The mode with a name. -/
def ofName? : String → Option ColorMode
  | "auto" => some auto
  | "always" => some always
  | "never" => some never
  | _ => none

end ColorMode

namespace TerminalReport

/-- The colours of a report. -/
inductive Color
  | red | yellow | cyan | green | plain | blue

/-- The escape sequence that begins a colour; all are bold. -/
def Color.sequence : Color → String
  | red => "\x1b[1;31m"
  | yellow => "\x1b[1;33m"
  | cyan => "\x1b[1;36m"
  | green => "\x1b[1;32m"
  | plain => "\x1b[1m"
  | blue => "\x1b[1;34m"

/-- The colour of a severity. -/
def colorOf : Severity → Color
  | .error => .red
  | .warning => .yellow
  | .note => .cyan
  | .help => .green

/-- A text in a colour, if colours are used. -/
def paint (colors : Bool) (color : Color) (text : String) : String :=
  if colors then color.sequence ++ text ++ "\x1b[0m" else text

/-- Some copies of a character. -/
def copies (n : Nat) (c : Char) : String := String.ofList (List.replicate n c)

/-- A text with blanks in front that fill it up to a width. -/
def padLeft (width : Nat) (text : String) : String := copies (width - text.length) ' ' ++ text

/-- The plural ending that a count asks for. -/
def plural (count : Nat) : String := if count = 1 then "" else "s"

/-- The line that a label begins in, with marks under the part that the label covers. -/
def snippet (colors : Bool) (doc : SourceDocument) (gutter : Nat) (label : Label) : String :=
  let ((line, column), (lastLine, lastColumn)) := doc.range label.span
  match doc.lineText? line with
  | none => ""
  | some text =>
    let marksEnd := if lastLine = line then lastColumn else text.length + 1
    let width := max (marksEnd - column) 1
    let (mark, color) := if label.isPrimary then ('^', Color.red) else ('-', Color.blue)
    let message := if label.message.isEmpty then "" else " " ++ label.message
    padLeft gutter (toString line) ++ " | " ++ text ++ "\n" ++
      padLeft gutter "" ++ " | " ++ copies (column - 1) ' ' ++
      paint colors color (copies width mark ++ message) ++ "\n"

/-- A diagnostic of a document. -/
def diagnostic (colors : Bool) (doc : SourceDocument) (d : Diagnostic) : String :=
  let header := paint colors (colorOf d.severity) d.severity.name ++
    paint colors .plain ("[" ++ d.rule.code ++ "]") ++ ": " ++ d.message ++ "\n"
  let (line, column) := doc.position d.span.start
  let lastLine := (d.labels.map fun l => (doc.position l.span.stop).1).foldl max line
  let gutter := (toString lastLine).length
  let margin := padLeft gutter ""
  let place := margin ++ "--> " ++ doc.path ++ ":" ++ toString line ++ ":" ++ toString column ++ "\n"
  let snippets :=
    if d.labels.isEmpty then ""
    else margin ++ " |\n" ++ String.join (d.labels.map (snippet colors doc gutter)) ++ margin ++ " |\n"
  let notes := d.notes.map fun n => margin ++ " = " ++ paint colors .plain "note" ++ ": " ++ n ++ "\n"
  header ++ place ++ snippets ++ String.join notes ++ "\n"

/-- The last line of a report, which counts errors and warnings; nothing if there are none. -/
def summary (colors : Bool) (errors warnings : Nat) : String :=
  let warningPart := toString warnings ++ " warning" ++ plural warnings
  if errors = 0 ∧ warnings = 0 then ""
  else if errors = 0 then paint colors .yellow "warning" ++ ": " ++ warningPart ++ " emitted\n"
  else
    paint colors .red "error" ++ ": " ++ toString errors ++ " error" ++ plural errors ++
      (if warnings = 0 then "" else ", " ++ warningPart) ++ " emitted\n"

end TerminalReport

end SelfTypeLint
