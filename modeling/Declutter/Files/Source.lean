import Declutter.Files.Tree
import Declutter.Syntax.Language
import Declutter.Syntax.Parse

/-!
# Finding sources

The files that some paths stand for: a path to a folder stands for the sources in it and below it,
and any other path for itself.

## Main definitions

* `FileTree.sources` — the sources in a folder, by name, those of the folder itself first.
* `Disk.sources` — the sources that some paths stand for, each of them once.
* `readableText` — whether some bytes are read as a source.
* `Disk.load` — the sources with their contents.
-/

namespace Declutter

/-- The folders whose content is not looked at, for it is installed or generated. -/
def skippedFolders : List String :=
  ["node_modules", ".git", "dist", "build", "coverage", ".next", "__pycache__"]

/-- Whether a folder of a name is passed over. -/
def skipsFolder (name : String) : Bool :=
  skippedFolders.contains name || Text.beginsWith name "."

/-- Whether a file of a name is a source.  A file that only declares types is none. -/
def isSourceName (name : String) : Bool :=
  !Text.endsWith name ".d.ts" && (Language.ofExtension? (Language.extension name)).isSome

namespace FileTree

/-- The names of the sources among the entries of a folder, in alphabetical order. -/
def sourceNames (entries : List (String × FileTree)) : List String :=
  sortBy (· ≤ ·) ((entries.filter fun e => !e.2.isFolder && isSourceName e.1).map (·.1))

mutual

/-- The paths of the sources in a folder that has the path `path`: its own by name, then those of
the folders in it. -/
def sources (path : String) : FileTree → List String
  | file _ => []
  | folder entries =>
    (sourceNames entries).map (Path.join path) ++
      (sortBy (fun a b => a.1 ≤ b.1) (sourcesBelow path entries)).flatMap (·.2)

/-- The folders among the entries, each with the sources in it. -/
def sourcesBelow (path : String) : List (String × FileTree) → List (String × List String)
  | [] => []
  | (name, t) :: rest =>
    if t.isFolder && !skipsFolder name then
      (name, sources (Path.join path name) t) :: sourcesBelow path rest
    else sourcesBelow path rest

end

end FileTree

/-- The paths that come first among those that differ only in spelling. -/
def dropRespelled (paths : List String) : List String :=
  (paths.foldl
    (fun found path =>
      if found.any (Path.normal · == Path.normal path) then found else path :: found)
    []).reverse

/-- The greatest number of line breaks of a source. -/
def maxLineBreaks : Nat := 99999

/-- Whether some bytes are read as a source: they are text, and not too many lines of it. -/
def readableText (content : Bytes) : Bool :=
  !content.isBinary && content.count Bytes.newline ≤ maxLineBreaks

/-- What was found to analyse. -/
structure Sources where
  /-- The sources with their contents. -/
  readable : List (String × Bytes) := []
  /-- The paths that could not be read. -/
  unreadable : List String := []
  deriving DecidableEq, Repr, Inhabited

namespace Disk

/-- The paths that a path stands for. -/
def expand (d : Disk) (path : String) : List String :=
  match d.entry? path with
  | some (.folder entries) => (FileTree.folder entries).sources path
  | _ => [path]

/-- The paths that some paths stand for, each of them once. -/
def sources (d : Disk) (paths : List String) : List String :=
  dropRespelled (paths.flatMap d.expand)

/-- The source at a path. -/
def source? (d : Disk) (path : String) : Option Bytes := (d.content? path).filter readableText

/-- The sources that some paths stand for, with their contents. -/
def load (d : Disk) (paths : List String) : Sources where
  readable := (d.sources paths).filterMap fun path => (d.source? path).map ((path, ·))
  unreadable := (d.sources paths).filter fun path => (d.source? path).isNone

end Disk

end Declutter
