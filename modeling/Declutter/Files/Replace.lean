import Declutter.Files.Tree
import Declutter.Report.Basic
import Declutter.Text.Quoted
import Declutter.Text.Utf8

/-!
# Writing results

A file is replaced in one step: its new content is written to a temporary file beside it, which
then takes its place.  So a file is never left half written.

## Main definitions

* `DiskFault`, `WriteError` — why a file cannot be replaced.
* `Disk.replace` — replacing the content of a file.
* `RunReport.results` — what a run would write.
* `RunReport.write` — writing it, and saying so in the report.
-/

namespace Declutter

/-- What can go wrong with a file. -/
inductive DiskFault where
  | busy
  | notFolder
  | isFolder
  | nameTooLong
  deriving DecidableEq, Repr, Inhabited

namespace DiskFault

/-- The number of a fault. -/
def number : DiskFault → Nat
  | busy => 16
  | notFolder => 20
  | isFolder => 21
  | nameTooLong => 36

/-- What is said of a fault. -/
def message : DiskFault → String
  | busy => "Device or resource busy"
  | notFolder => "Not a directory"
  | isFolder => "Is a directory"
  | nameTooLong => "File name too long"

end DiskFault

/-- Why a file cannot be replaced. -/
inductive WriteError where
  | missing (path : String)
  /-- The temporary file cannot be written. -/
  | temporary (fault : DiskFault) (path : String)
  /-- The temporary file cannot take the place of the other. -/
  | move (fault : DiskFault) (source target : String)
  deriving DecidableEq, Repr, Inhabited

/-- What is said of an error. -/
def WriteError.message : WriteError → String
  | missing path => "File not found: " ++ path
  | temporary fault path => s!"[Errno {fault.number}] {fault.message}: {Text.quoted path}"
  | move fault source target =>
    s!"[Errno {fault.number}] {fault.message}: {Text.quoted source} -> {Text.quoted target}"

/-- The path of the temporary file that is to replace a file. -/
def temporaryPath (path : String) : String := path ++ ".jssimplify.tmp"

/-- Why a file cannot take the place of the folder that a path names. -/
def DiskFault.ofFolder (path : String) : DiskFault :=
  match (Path.components path).getLast? with
  | none | some "." | some ".." => .busy
  | some _ => if Path.endsWithSlash path then .notFolder else .isFolder

namespace Disk

/-- Replaces the content of a file.  The result is the error, if there is one, and the disk
afterwards. -/
def replace (d : Disk) (path : String) (content : Bytes) : Option WriteError × Disk :=
  let temporary := temporaryPath path
  match d.entry? path with
  | none => (some (.missing path), d)
  | some old =>
    if Path.isTooLong temporary then (some (.temporary .nameTooLong temporary), d)
    else if d.isFolder temporary then (some (.temporary .isFolder temporary), d)
    else if old.isFolder then
      (some (.move (.ofFolder path) temporary path), d.erase temporary)
    else (none, (d.erase temporary).put path (.file content))

/-- Finds out whether a file could be replaced, without touching it. -/
def check (d : Disk) (path : String) : Option WriteError :=
  if (d.entry? path).isNone then some (.missing path) else none

end Disk

/-- What became of an attempt to write a file. -/
structure WriteResult where
  path : String
  /-- How many bytes were to be written. -/
  size : Nat
  error : Option WriteError
  deriving DecidableEq, Repr, Inhabited

/-- How many bytes were written. -/
def WriteResult.written (r : WriteResult) : Nat := if r.error.isSome then 0 else r.size

namespace FileReport

/-- The text that a file is to have, if it is to be rewritten. -/
def result? (r : FileReport) : Option (String × String) :=
  if r.outcome == .ok then r.rewritten.map ((r.path, ·)) else none

/-- The report of a file after the attempts to write. -/
def afterWriting (r : FileReport) (dryRun : Bool) (results : List WriteResult) : FileReport :=
  match results.find? (·.path == r.path) with
  | none => r
  | some w =>
    match w.error with
    | some e =>
      { r with
        writeError := some e.message
        diagnostics := r.diagnostics ++ ["could not write rewritten source: " ++ e.message] }
    | none => if w.size != 0 && !dryRun then { r with written := true } else r

end FileReport

/-- A list of texts under their paths with one more.  A path that is there already keeps its
position and gets the new text. -/
def putText (texts : List (String × String)) (new : String × String) : List (String × String) :=
  if texts.any (·.1 == new.1) then texts.map fun t => if t.1 == new.1 then new else t
  else texts ++ [new]

namespace RunReport

variable (r : RunReport)

/-- The texts that the files are to have, each path once. -/
def results : List (String × String) := (r.files.filterMap (·.result?)).foldl putText []

/-- Writes texts to their files, one after the other. -/
def writeTexts (dryRun : Bool) : Disk → List (String × String) → List WriteResult × Disk
  | d, [] => ([], d)
  | d, (path, text) :: rest =>
    let content := Utf8.encode text
    let (error, next) := if dryRun then (d.check path, d) else d.replace path content
    let (results, last) := writeTexts dryRun next rest
    ({ path, size := content.length, error } :: results, last)

/-- Writes the texts that the files are to have, unless this is but a trial.  The result is what
became of each, the report that says so, and the disk afterwards. -/
def write (dryRun : Bool) (d : Disk) : List WriteResult × RunReport × Disk :=
  let (results, next) := writeTexts dryRun d r.results
  (results, ⟨r.files.map (·.afterWriting dryRun results)⟩, next)

end RunReport

end Declutter
