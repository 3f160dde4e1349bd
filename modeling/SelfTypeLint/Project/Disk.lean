import SelfTypeLint.Settings.Cascade

/-!
# Files and directories

A `Disk` holds the files that a command can see. The text of a path names a place on it: the pieces of
the path are followed one by one, from the root or the working directory, and every piece but the last
has to be a directory.
-/

namespace SelfTypeLint

/-- A place on a disk, by the names that lead to it from the root. -/
abbrev Place := List String

/-- What stands at a place. -/
inductive Node
  | directory
  | text (content : String)
  /-- A file whose bytes are not UTF-8. -/
  | binary
  deriving DecidableEq, Repr

/-- Why a file cannot be read. -/
inductive ReadFailure
  | notFound
  | notDirectory
  | isDirectory
  | notUtf8
  deriving DecidableEq, Repr

/-- The wording of a failure. -/
def ReadFailure.message : ReadFailure → String
  | notFound => "entity not found"
  | notDirectory => "Not a directory (os error 20)"
  | isDirectory => "Is a directory (os error 21)"
  | notUtf8 => "stream did not contain valid UTF-8"

/-- A settings file that cannot be read. -/
structure ConfigError where
  path : String
  cause : ReadFailure
  deriving DecidableEq, Repr

/-- The wording of an error. -/
def ConfigError.message (e : ConfigError) : String :=
  "failed to read " ++ e.path ++ ": " ++ e.cause.message

/-- Files and directories, with the directory that relative paths start from. -/
structure Disk where
  workingDirectory : Place
  nodes : List (Place × Node)
  deriving Repr

namespace Disk

/-- What stands at a place. The root is always a directory. -/
def node? (d : Disk) (place : Place) : Option Node :=
  if place.isEmpty then some .directory else d.nodes.lookup place

/-- Sets what stands at one place. -/
def set (d : Disk) (place : Place) (node : Node) : Disk :=
  { d with nodes := (place, node) :: d.nodes.filter (·.1 != place) }

/-- Puts something at a place, and directories on the way where nothing stands. -/
def put (d : Disk) (place : Place) (node : Node) : Disk :=
  let parents := (List.range place.length).map place.take
  (parents.foldl (fun d p => if (d.node? p).isSome then d else d.set p .directory) d).set place node

/-- Takes away what stands at a place, and all below it. -/
def remove (d : Disk) (place : Place) : Disk :=
  { d with nodes := d.nodes.filter (!place.isPrefixOf ·.1) }

/-- The place that a piece of a path leads to from another. -/
def follow (d : Disk) (place : Place) (piece : String) : Except ReadFailure Place :=
  match d.node? place with
  | none => .error .notFound
  | some .directory =>
    if Path.isSkipped piece then .ok place
    else if piece = ".." then .ok place.dropLast
    else if (d.node? (place ++ [piece])).isSome then .ok (place ++ [piece])
    else .error .notFound
  | some _ => .error .notDirectory

/-- The place that a path names. -/
def locate (d : Disk) (path : String) : Except ReadFailure Place :=
  if path.isEmpty then .error .notFound
  else
    let start := if path.toList.head? = some '/' then [] else d.workingDirectory
    (Path.pieces path).foldlM d.follow start

/-- What a path names. -/
def find? (d : Disk) (path : String) : Option (Place × Node) := do
  let place ← (d.locate path).toOption
  return (place, ← d.node? place)

/-- The text of a file. -/
def readText (d : Disk) (path : String) : Except ReadFailure String := do
  let place ← d.locate path
  match d.node? place with
  | none => throw .notFound
  | some .directory => throw .isDirectory
  | some .binary => throw .notUtf8
  | some (.text content) => return content

/-- Sets the text of a file that is there. -/
def writeText (d : Disk) (path text : String) : Disk :=
  match d.locate path with
  | .ok place => d.set place (.text text)
  | .error _ => d

/-- The absolute path of a place. -/
def absolutePath (place : Place) : String := "/" ++ String.intercalate "/" place

/-- The name of settings files. -/
def configName : String := ".editorconfig"

/-- The text of the settings file of a directory, if there is one. -/
def readConfig (d : Disk) (dir : Directory) : Except ReadFailure (Option String) :=
  match d.readText (Path.join (Path.ofComponents dir) configName) with
  | .ok text => .ok (some text)
  | .error .notFound => .ok none
  | .error e => .error e

/-- The options of a file. -/
def optionsFor (d : Disk) (cache : ConfigCache) (path : String) :
    Except ConfigError Options × ConfigCache :=
  let (result, cache) := cache.optionsFor d.readConfig (Path.components path)
  (result.mapError fun (dir, cause) => ⟨Path.join (Path.beginning path dir) configName, cause⟩, cache)

/-- What was set stands at its place, and nothing else changes. -/
theorem node?_set (d : Disk) (place p : Place) (node : Node) (h : p ≠ []) :
    (d.set place node).node? p = if p = place then some node else d.node? p := by
  have hp : p.isEmpty = false := by simpa using h
  simp only [node?, set, hp, Bool.false_eq_true, if_false, List.lookup_cons]
  by_cases he : p = place
  · simp [he]
  · rw [beq_eq_false_iff_ne.2 he, if_neg he]
    induction d.nodes with
    | nil => rfl
    | cons e rest ih =>
      obtain ⟨q, n⟩ := e
      by_cases hq : q = place
      · subst hq
        simp [List.lookup_cons, beq_eq_false_iff_ne.2 he, ih]
      · simp only [List.filter_cons, bne_iff_ne.2 hq, if_true, List.lookup_cons, ih]

end Disk

end SelfTypeLint
