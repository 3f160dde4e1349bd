import SelfTypeLint.Project.Disk
import SelfTypeLint.Workspace.Basic

/-!
# Sources of a project

The sources named by some paths are the files among them, and every file with the extension `cs` below
the directories among them. Directories with build output and hidden ones are not searched. Each
source gets the options that the settings files above it give.
-/

namespace SelfTypeLint

/-- Why the documents of a project cannot be loaded. -/
inductive SourceError
  | unreadable (path : String) (cause : ReadFailure)
  | noSources
  | settings (error : ConfigError)
  deriving DecidableEq, Repr

/-- The wording of an error. -/
def SourceError.message : SourceError → String
  | unreadable path cause => "failed to read " ++ path ++ ": " ++ cause.message
  | noSources => "no C# sources found"
  | settings e => e.message

namespace Project

/-- Holds of the directories that are not searched. -/
def isSkippedDirectory (name : String) : Bool :=
  name.toList.head? == some '.' || name == "bin" || name == "obj"

/-- Holds of the files that are sources. -/
def isSource (name : String) : Bool := (Path.extension? name).any (Text.sameLetters · "cs")

/-- The path of a source below a directory, given the directory's path and the names that lead from it
to the source; none for files that are not found. -/
def sourcePath? (directory : String) (names : List String) : Option String :=
  match names.reverse with
  | [] => none
  | name :: folders =>
    if isSource name && !folders.any isSkippedDirectory then some (names.foldl Path.join directory)
    else none

/-- The paths of the sources below a directory. -/
def sourcesBelow (d : Disk) (directory : String) (place : Place) : List String :=
  d.nodes.filterMap fun (p, node) =>
    if node = .directory then none
    else (place.isPrefixOf? p).bind (sourcePath? directory)

/-- The paths of the sources that a path names. -/
def sourcesAt (d : Disk) (path : String) : Except SourceError (List String) :=
  match d.find? path with
  | none => .error (.unreadable path .notFound)
  | some (place, .directory) => .ok (sourcesBelow d path place)
  | some _ => .ok [path]

/-- Some paths without those that equal the one kept before them. -/
def withoutRepeats (previous : Option String) : List String → List String
  | [] => []
  | path :: paths =>
    if previous.any (Path.same · path) then withoutRepeats previous paths
    else path :: withoutRepeats (some path) paths

/-- The paths of the sources that some paths name, in order and each once. -/
def discover (d : Disk) (paths : List String) : Except SourceError (List String) := do
  let found ← paths.mapM (sourcesAt d)
  match withoutRepeats none (found.flatten.mergeSort Path.before) with
  | [] => throw .noSources
  | sources => return sources

/-- Reads a source and its options. -/
def readSource (d : Disk) (cache : ConfigCache) (path : String) :
    Except SourceError (SourceText × ConfigCache) := do
  let unreadable {α : Type} (r : Except ReadFailure α) := r.mapError (SourceError.unreadable path)
  let text ← unreadable (d.readText path)
  let place ← unreadable (d.locate path)
  let (options, cache) := d.optionsFor cache (Disk.absolutePath place)
  return (⟨path, text, ← options.mapError .settings⟩, cache)

/-- Reads some sources, one after the other. -/
def readSources (d : Disk) (cache : ConfigCache) :
    List String → Except SourceError (List SourceText)
  | [] => .ok []
  | path :: paths => do
    let (source, cache) ← readSource d cache path
    return source :: (← readSources d cache paths)

/-- The documents that some paths name. -/
def load (d : Disk) (paths : List String) : Except SourceError Workspace := do
  return .build (← readSources d .empty (← discover d paths))

/-- A path that stands where nothing equal was kept stays. -/
theorem withoutRepeats_cons_of_not {previous : Option String} {path : String}
    (h : previous.any (Path.same · path) = false) (paths : List String) :
    withoutRepeats previous (path :: paths) = path :: withoutRepeats (some path) paths := by
  simp [withoutRepeats, h]

/-- Leaving out repeated paths adds none. -/
theorem withoutRepeats_sublist (previous : Option String) (paths : List String) :
    (withoutRepeats previous paths).Sublist paths := by
  induction paths generalizing previous with
  | nil => exact .slnil
  | cons path paths ih =>
    rw [withoutRepeats]
    split
    · exact (ih _).cons _
    · exact (ih _).cons_cons _

end Project

end SelfTypeLint
