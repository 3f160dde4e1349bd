import SelfTypeLint.Text.Dotted

/-!
# Paths

A path is a text with strokes. Two paths are equal, and ordered, by their components: repeated
strokes and inner components `.` do not count, but a leading `.` does.
-/

namespace SelfTypeLint.Path

/-- A component of a path. -/
inductive Component
  | root
  | current
  | parent
  | normal (name : String)
  deriving DecidableEq, Repr

/-- A number that orders the kinds of component, and the name. -/
def Component.key : Component → Nat × String
  | root => (0, "")
  | current => (1, "")
  | parent => (2, "")
  | normal name => (3, name)

/-- The order of components: the root first, names last and by their characters. -/
def Component.before (a b : Component) : Bool :=
  a.key.1 < b.key.1 || a.key.1 == b.key.1 && a.key.2 < b.key.2

/-- The texts between the strokes of a path. -/
def pieces (path : String) : List String := (Dotted.pieces '/' path.toList).map String.ofList

/-- Holds of the pieces that add no component after the first. -/
def isSkipped (piece : String) : Bool := piece == "" || piece == "."

/-- The component of a piece that is not skipped. -/
def ofPiece (piece : String) : Component := if piece = ".." then .parent else .normal piece

/-- The components of a path. -/
def components (path : String) : List Component :=
  match pieces path with
  | [] => []
  | first :: rest =>
    let tail := (rest.filter (!isSkipped ·)).map ofPiece
    if first = "" then if rest.isEmpty then [] else .root :: tail
    else if first = "." then .current :: tail
    else ofPiece first :: tail

/-- The text of a component, other than the root. -/
def Component.text : Component → String
  | root => ""
  | current => "."
  | parent => ".."
  | normal name => name

/-- The plain text of a path with the given components. -/
def ofComponents : List Component → String
  | .root :: cs => "/" ++ String.intercalate "/" (cs.map (·.text))
  | cs => String.intercalate "/" (cs.map (·.text))

/-- Equality of paths. -/
def same (a b : String) : Bool := components a == components b

/-- The order of lists of components. -/
def componentsBefore : List Component → List Component → Bool
  | [], _ => true
  | _ :: _, [] => false
  | a :: as, b :: bs => a.before b || a == b && componentsBefore as bs

/-- The order of paths. -/
def before (a b : String) : Bool := componentsBefore (components a) (components b)

/-- A path with a name added; no stroke is added after one. -/
def join (directory name : String) : String :=
  if directory.isEmpty || directory.toList.getLast? == some '/' then directory ++ name
  else directory ++ "/" ++ name

/-- The last component of a path, if it is a name. -/
def fileName? (path : String) : Option String :=
  match (components path).getLast? with
  | some (.normal name) => some name
  | _ => none

/-- What stands after the last point of a file name that has a point after its first character. -/
def extension? (path : String) : Option String := do
  let name ← fileName? path
  match (Dotted.pieces '.' name.toList).reverse with
  | last :: second :: front =>
    if second.isEmpty && front.isEmpty then none else some (String.ofList last)
  | _ => none

/-- The names among some components. -/
def names (cs : List Component) : List String :=
  cs.filterMap fun
    | .normal name => some name
    | _ => none

/-- The directories above a path, the nearest first. Nothing is above the root. -/
def ancestors : List Component → List (List Component)
  | [] => []
  | c :: cs => (ancestors cs).map (c :: ·) ++ if c = .root then [] else [[]]

/-- The shortest beginning of a path's text that has the given components. -/
def beginning (path : String) (cs : List Component) : String :=
  let texts := (List.range (path.length + 1)).map fun n => String.ofList (path.toList.take n)
  (texts.find? (components · == cs)).getD path

/-- What is above a path begins it, and is shorter. -/
theorem exists_append_of_mem_ancestors {cs dir : List Component} (h : dir ∈ ancestors cs) :
    ∃ rest, rest ≠ [] ∧ cs = dir ++ rest := by
  induction cs generalizing dir with
  | nil => simp [ancestors] at h
  | cons c cs ih =>
    rcases List.mem_append.1 h with h | h
    · obtain ⟨dir, hd, rfl⟩ := List.mem_map.1 h
      obtain ⟨rest, hr, rfl⟩ := ih hd
      exact ⟨rest, hr, rfl⟩
    · split at h
      · simp at h
      · obtain rfl := List.mem_singleton.1 h
        exact ⟨c :: cs, by simp, rfl⟩

theorem same_iff (a b : String) : same a b = true ↔ components a = components b := by
  simp [same]

end SelfTypeLint.Path
