import Declutter.Analysis.Session
import Declutter.CommandLine.Command
import Declutter.Files.Replace
import Declutter.Files.Source
import Declutter.Report.Json
import Declutter.Report.Markdown

/-!
# Carrying out commands

What the program answers to a command, and what it does to the files.

## Main definitions

* `Answer` — what is printed, the exit code, and the files afterwards.
* `AnalyzeRequest.run` — analysing files.
* `Command.run` — carrying out a command.
-/

namespace Declutter

/-- What a command leads to. -/
structure Answer where
  exitCode : Nat
  out : String := ""
  err : String := ""
  /-- The files afterwards. -/
  disk : Disk
  deriving Repr, Inhabited

/-- The exit code when something is wrong. -/
def exitError : Nat := 2

/-- A line of text. -/
def lineOf (s : String) : String := s ++ "\n"

namespace Answer

/-- An answer that only prints something. -/
def ofText (disk : Disk) (s : String) : Answer := { exitCode := 0, out := lineOf s, disk }

/-- An answer that only complains. -/
def ofError (disk : Disk) (s : String) : Answer := { exitCode := exitError, err := lineOf s, disk }

end Answer

/-- The name and version of the program. -/
def versionText : String := "jssimplify 0.1.0"

/-- How the program is used. -/
def usageText : String := "\n".intercalate [
    "usage: jssimplify analyze [options] PATH...",
    "       jssimplify explain RULE",
    "       jssimplify rules",
    "       jssimplify --version",
    "",
    "options of analyze:",
    "  --write             write the results to the files",
    "  --rule ID           apply only this rule (may be repeated)",
    "  --format FORMAT     text or json",
    "  --max-findings N    report at most N findings of a file",
    "  --marker WORD       the word by which a comment exempts the next line",
    "  --max-depth N       the greatest depth of an initial value that is inlined",
    "  --pure NAME         calls of NAME have no side effects (may be repeated)",
    "  --jobs N, -j N      how many files may be analysed at a time",
    "  --timeout SECONDS   the limit on the time for a file",
    "  --verbose, -v       say more"]

/-- A report in a format. -/
def RunReport.render (r : RunReport) : ReportFormat → String
  | .text => r.toMarkdown
  | .json => r.toDocument.render

/-- The report of a file that could not be read. -/
def FileReport.unread (path : String) : FileReport where
  path
  outcome := .error
  diagnostics := ["could not read file"]

namespace AnalyzeRequest

variable {m : Type → Type} [Monad m]

/-- The answer to a request, given the report of the run. -/
def answer (r : AnalyzeRequest) (disk : Disk) (report : RunReport) : Answer :=
  let (report, disk) :=
    if r.write then (report.write false disk).2 else (report, disk)
  { exitCode := report.exitCode, out := lineOf (report.render r.format), disk }

/-- Analyses files with the given settings.  Each path has a grammar of its own. -/
def runWith (grammar : String → Grammar m) (disk : Disk) (r : AnalyzeRequest) (s : Settings) :
    m Answer :=
  match Config.ofSettings s with
  | .error problems => pure (.ofError disk ("Error: " ++ configMessage problems))
  | .ok config => do
    let sources := disk.load r.paths
    if sources.readable.isEmpty && sources.unreadable.isEmpty then
      return .ofError disk "Error: no JavaScript or TypeScript sources found"
    let files : List (SourceFile m) := sources.readable.map fun (path, source) =>
      { path, source, grammar := grammar path }
    let (report, _) ← Session.run { config } files
    return r.answer disk ⟨report.files ++ sources.unreadable.map .unread⟩

/-- Analyses files, unless the request makes that impossible. -/
def run (grammar : String → Grammar m) (disk : Disk) (r : AnalyzeRequest) :
    m (Except RequestError Answer) :=
  match r.settings with
  | .error e => pure (.error e)
  | .ok s => do return .ok (← r.runWith grammar disk s)

end AnalyzeRequest

/-- Carries out a command. -/
def Command.run {m : Type → Type} [Monad m] (grammar : String → Grammar m) (disk : Disk) :
    Command → m (Except RequestError Answer)
  | .analyze r => r.run grammar disk
  | .explain name =>
    pure (.ok (if (Rule.ofName? name).isSome then .ofText disk (Declutter.explain name)
      else .ofError disk (unknownRule name)))
  | .rules => pure (.ok (.ofText disk ruleTable))
  | .version => pure (.ok (.ofText disk versionText))
  | .help => pure (.ok (.ofText disk usageText))

end Declutter
