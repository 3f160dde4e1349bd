import SelfTypeLint.Path
import SelfTypeLint.Settings.Braces
import SelfTypeLint.Settings.Glob
import SelfTypeLint.Settings.Options

/-!
# Settings files

A `.editorconfig` file is a list of lines. A line in brackets opens a section for the files that its
pattern matches, and a line with an equals sign sets a property in the section before it. Above the
first section, only the property `root` has a meaning.
-/

namespace SelfTypeLint

namespace EditorConfig

/-- What a line of a settings file says. -/
inductive Entry
  | header (pattern : List Char)
  | property (key value : String)
  deriving DecidableEq, Repr

namespace Entry

/-- The property that a line sets: its key in small letters and its value. -/
def property? (line : List Char) : Option Entry :=
  match line.dropWhile (· ≠ '=') with
  | [] => none
  | _ :: value =>
    let key := Text.trimList (line.takeWhile (· ≠ '='))
    some (.property (Text.lower (String.ofList key)) (String.ofList (Text.trimList value)))

/-- What a line without the blanks at its ends says; none for comments and malformed lines. -/
def ofTrimmed? : List Char → Option Entry
  | [] => none
  | c :: cs =>
    if c = '#' ∨ c = ';' then none
    else if c = '[' ∧ cs.getLast? = some ']' then some (.header cs.dropLast)
    else property? (c :: cs)

/-- What a line says. -/
def ofLine? (line : List Char) : Option Entry := ofTrimmed? (Text.trimList line)

/-- What the lines of a text say. -/
def ofText (text : String) : List Entry := (Dotted.pieces '\n' text.toList).filterMap ofLine?

end Entry

/-- A section: the patterns of the files it is for, and its properties. -/
structure Section where
  patterns : List Glob
  /-- Says if the patterns are for whole paths, and not for file names. -/
  byPath : Bool
  properties : List (String × String)
  deriving DecidableEq, Repr

namespace Section

/-- The section with a header. Malformed patterns are left out, and a stroke at the start of the
pattern only makes it one for paths. -/
def ofHeader (header : List Char) (properties : List (String × String)) : Section :=
  let header := Text.trimList header
  let pattern := if header.head? = some '/' then header.tail else header
  { patterns := (Braces.expand pattern).filterMap Glob.ofText?
    byPath := header.contains '/'
    properties }

/-- Holds if a section is for the file whose path has the given names. -/
def accepts (s : Section) (names : List String) : Bool :=
  let target := if s.byPath then String.intercalate "/" names else names.getLast?.getD ""
  s.patterns.any (·.accepts target.toList)

end Section

/-- The properties up to the next header. -/
def leading : List Entry → List (String × String)
  | .property key value :: rest => (key, value) :: leading rest
  | _ => []

/-- The sections of a list of entries. -/
def sectionsOf : List Entry → List Section
  | [] => []
  | .header pattern :: rest => .ofHeader pattern (leading rest) :: sectionsOf rest
  | .property _ _ :: rest => sectionsOf rest

/-- Holds if the last setting of `root` is the word `true`, in any letter case. -/
def declaresRoot (properties : List (String × String)) : Bool :=
  match (properties.filter (·.1 == "root")).getLast? with
  | some (_, value) => Text.sameLetters value "true"
  | none => false

end EditorConfig

/-- A settings file. -/
structure EditorConfig where
  /-- Says if settings files in the directories above do not count. -/
  isRoot : Bool
  sections : List EditorConfig.Section
  deriving DecidableEq, Repr

namespace EditorConfig

/-- The settings file that some entries make. -/
def ofEntries (entries : List Entry) : EditorConfig :=
  ⟨declaresRoot (leading entries), sectionsOf entries⟩

/-- Reads a settings file. -/
def ofText (text : String) : EditorConfig := ofEntries (Entry.ofText text)

/-- The properties of the sections for a file, in the order of the settings file. The file's path is
given by its names below the directory of the settings file. -/
def propertiesFor (c : EditorConfig) (names : List String) : List (String × String) :=
  c.sections.flatMap fun s => if s.accepts names then s.properties else []

/-- What a settings file adds to the options of a file. -/
def apply (c : EditorConfig) (names : List String) (options : Options) : Options :=
  options.insertAll (c.propertiesFor names)

/-- Properties above the first section are in no section. -/
theorem sectionsOf_properties (ps : List (String × String)) (entries : List Entry) :
    sectionsOf (ps.map (fun (k, v) => .property k v) ++ entries) = sectionsOf entries := by
  induction ps with
  | nil => rfl
  | cons p ps ih => exact ih

end EditorConfig

end SelfTypeLint
