import Declutter.CommandLine.Run
import Declutter.Syntax.Listing

/-!
# The program

The files that a command names are read, the command is carried out on them, and what it changed is
written back.  The concrete trees of a source lie beside it, in a file with the ending `.trees`:
first that of the source, then those of what the rewrites make of it, in their order.
-/

namespace Declutter.Program

/-- An entry of the disk, as it is named by a path. -/
def entryOf (path : String) : IO.FS.DirEntry := { root := path, fileName := "" }

/-- The file or the folder of a path. -/
partial def readEntry (path : String) : IO FileTree := do
  if ← (entryOf path).root.isDir then
    let entries ← (entryOf path).root.readDir
    let below ← entries.toList.mapM fun e => do
      return (e.fileName, ← readEntry (Path.join path e.fileName))
    return .folder below
  else return .file (← IO.FS.readBinFile path).toList

/-- The disk as far as some paths reach. -/
def readDisk (here : String) (paths : List String) : IO Disk := do
  let place (path : String) : Place := (Path.normal path).components
  let mut root := FileTree.folder []
  for path in here :: paths do
    let full := if Path.isAbsolute path then path else Path.join here path
    if path == here then root := root.put (.folder []) (place full)
    else if ← (entryOf path).root.pathExists then root := root.put (← readEntry path) (place full)
  return { root, here := place here }

/-- Writes the files that differ from what they were. -/
def writeChanges (before after : Disk) : IO Unit := do
  for (place, content) in after.root.files do
    let unchanged := match before.root.at? place with
      | some (.file old) => old == content
      | _ => false
    unless unchanged do
      let path := "/" ++ "/".intercalate place
      IO.FS.writeBinFile (temporaryPath path) ⟨content.toArray⟩
      IO.FS.rename (temporaryPath path) path

/-- A grammar that takes the trees of a source from the file beside it. -/
def storedGrammar (seen : IO.Ref (List (String × Bytes))) (path : String) : Grammar IO :=
  fun _ source => do
    let sources := (← seen.get).filterMap fun s => if s.1 == path then some s.2 else none
    unless sources.contains source do seen.modify (· ++ [(path, source)])
    match Parsed.ofListing? (← IO.FS.readFile (path ++ ".trees")) with
    | none => throw (.userError ("malformed trees of " ++ path))
    | some trees =>
      match trees[sources.idxOf source]? with
      | some tree => return tree
      | none => throw (.userError ("no tree for a source of " ++ path))

/-- The paths that a command names. -/
def pathsOf : Command → List String
  | .analyze r => r.paths
  | _ => []

/-- Carries out a command line. -/
def run (words : List String) : IO UInt32 := do
  match Command.ofWords words with
  | .error e =>
    IO.eprintln ("Error: " ++ e.message)
    return exitError.toUInt32
  | .ok command =>
    let before ← readDisk (← IO.currentDir).toString (pathsOf command)
    match ← command.run (storedGrammar (← IO.mkRef [])) before with
    | .error e =>
      IO.eprintln (e.name ++ ": " ++ e.message)
      return 1
    | .ok answer =>
      writeChanges before answer.disk
      IO.print answer.out
      IO.eprint answer.err
      return answer.exitCode.toUInt32

end Declutter.Program

/-- The program. -/
def main (args : List String) : IO UInt32 := Declutter.Program.run args
