import SelfTypeLint.Command.Line

/-!
# The program

Collects the files that a command line is about, runs it on them, writes what it says and the files
that changed.
-/

namespace SelfTypeLint.Program

/-- What stands at a path. -/
def nodeAt? (path : String) : IO (Option Node) := do
  let file := (← IO.currentDir) / path
  if ← file.isDir then return some .directory
  if ← file.pathExists then
    return some (((String.fromUTF8? (← IO.FS.readBinFile file)).map .text).getD .binary)
  return none

/-- Adds what stands at a place. -/
def addNode (d : Disk) (place : Place) : IO Disk := do
  return ((← nodeAt? (Disk.absolutePath place)).map (d.put place)).getD d

/-- Adds what stands at a place, with the settings files of all directories on the way. -/
def addPlace (d : Disk) (place : Place) : IO Disk := do
  let directories := (List.range (place.length + 1)).map place.take
  let d ← directories.foldlM (fun d p => addNode d (p ++ [Disk.configName])) d
  addNode d place

/-- Adds the sources below a directory. -/
partial def addSources (d : Disk) (place : Place) : IO Disk := do
  let d ← addPlace d place
  let entries ← ((← IO.currentDir) / Disk.absolutePath place).readDir
  entries.foldlM (fun d entry => do
    let below := place ++ [entry.fileName]
    if ← entry.path.isDir then
      if Project.isSkippedDirectory entry.fileName then return d else addSources d below
    else if Project.isSource entry.fileName then addNode d below
    else return d) d

/-- Adds all that a path leads through, and the sources below it. -/
def addPath (d : Disk) (path : String) : IO Disk := do
  let start := if path.toList.head? = some '/' then [] else d.workingDirectory
  let (d, place) ← (Path.pieces path).foldlM (fun (d, place) piece => do
    let next :=
      if Path.isSkipped piece then place
      else if piece = ".." then place.dropLast
      else place ++ [piece]
    return (← addPlace d next, next)) (d, start)
  if d.node? place = some .directory then addSources d place else return d

/-- Writes the files whose text changed. -/
def writeChanges (before after : Disk) : IO Unit :=
  after.nodes.forM fun (place, node) => do
    match node with
    | .text content =>
      unless before.node? place = some node do
        IO.FS.writeFile ((← IO.currentDir) / Disk.absolutePath place) content
    | _ => return

end SelfTypeLint.Program

open SelfTypeLint in
/-- Runs the command line of the process. -/
def main (arguments : List String) : IO UInt32 := do
  let here := (Path.pieces (← IO.currentDir).toString).filter (!·.isEmpty)
  let start ← Program.addPlace ⟨here, []⟩ here
  let paths := ((Command.ofArguments arguments).toOption.map Command.paths).getD []
  let disk ← paths.foldlM Program.addPath start
  let outcome := runCommandLine disk (← (← IO.getStdout).isTty) arguments
  (← IO.getStdout).putStr outcome.output
  (← IO.getStderr).putStr outcome.errors
  Program.writeChanges disk outcome.disk
  return outcome.status.toUInt32
