import Declutter.Finding.Basic
import Declutter.Syntax.Language

/-!
# Reports

What a run says of each file, and the exit code that sums it up.

## Main definitions

* `FindingReport`, `FileReport` — what is said of a finding and of a file.
* `RunReport` — the files of a run.
* `RunReport.exitCode` — 0 if nothing is left to do, 1 if something is, 2 if something failed.
-/

namespace Declutter

/-- An edit as it is reported. -/
structure EditReport where
  span : String
  start : Nat
  stop : Nat
  replacement : String
  deriving DecidableEq, Repr, Inhabited

/-- A finding as it is reported. -/
structure FindingReport where
  rule : String
  span : String
  line : Int
  column : Int
  symbol : String := ""
  rationale : String
  status : String
  unavailable : Option String := none
  referenced : List String := []
  edits : List EditReport := []
  deriving DecidableEq, Repr, Inhabited

/-- An edit as it is reported. -/
def Edit.report (e : Edit) : EditReport where
  span := e.span.format
  start := e.span.start
  stop := e.span.stop
  replacement := e.replacement

/-- A finding as it is reported. -/
def Finding.report (f : Finding) : FindingReport where
  rule := f.rule.id
  span := f.primary.format
  line := f.primary.first.line
  column := f.primary.first.column
  symbol := f.symbol
  rationale := f.rationale
  status := f.status.name
  unavailable := f.unavailable.map (·.message)
  referenced := f.referenced.map (·.format)
  edits := f.edits.map (·.report)

/-- How the analysis of a file ended. -/
inductive Outcome where
  | ok
  | parseError
  | timedOut
  | cancelled
  | error
  deriving DecidableEq, Repr, Inhabited

namespace Outcome

/-- The outcomes. -/
def all : List Outcome := [ok, parseError, timedOut, cancelled, error]

/-- The name of an outcome. -/
def name : Outcome → String
  | ok => "ok"
  | parseError => "parse_error"
  | timedOut => "timed_out"
  | cancelled => "cancelled"
  | error => "error"

/-- The outcome of a name. -/
def ofName? (s : String) : Option Outcome := all.find? (·.name == s)

end Outcome

/-- What a run says of a file. -/
structure FileReport where
  path : String
  language : String := "javascript"
  outcome : Outcome := .ok
  diagnostics : List String := []
  findings : List FindingReport := []
  suppressed : Int := 0
  truncated : Int := 0
  /-- The text after the rewrites. -/
  rewritten : Option String := none
  /-- Whether that text was written to the file. -/
  written : Bool := false
  writeError : Option String := none
  /-- How often rewrites were carried out. -/
  fixPasses : Int := 0
  /-- How many findings are left at the end. -/
  remaining : Int := 0
  deriving DecidableEq, Repr, Inhabited

namespace FileReport

/-- How many findings were resolved. -/
def applied (r : FileReport) : Nat :=
  r.findings.countP (·.status == Status.applied.name)

/-- Whether writing the file failed. -/
def failedToWrite (r : FileReport) : Bool := r.writeError.any (· != "")

/-- The report of a file whose analysis did not end as it should. -/
def failure (path : String) (outcome : Outcome) (message : String) : FileReport where
  path
  language := (Language.ofPath path).name
  outcome
  diagnostics := [message]

end FileReport

/-- What a run says of its files. -/
structure RunReport where
  files : List FileReport := []
  deriving DecidableEq, Repr, Inhabited

namespace RunReport

variable (r : RunReport)

/-- How many findings were reported. -/
def totalFindings : Nat := r.files.foldr (fun f n => f.findings.length + n) 0

/-- How many findings are left. -/
def remaining : Int := r.files.foldr (fun f n => f.remaining + n) 0

/-- How many findings were resolved. -/
def applied : Nat := r.files.foldr (fun f n => f.applied + n) 0

/-- Whether something failed: the analysis of a file, writing one, or parsing all of them. -/
def hasFailed : Bool :=
  r.files.any (fun f => f.outcome == .error || f.failedToWrite) ||
    (!r.files.isEmpty && r.files.all (·.outcome == .parseError))

/-- Whether the analysis of some file was given up. -/
def isIncomplete : Bool :=
  r.files.any fun f => f.outcome == .timedOut || f.outcome == .cancelled

/-- The exit code of a run. -/
def exitCode : Nat :=
  if r.hasFailed then 2 else if r.remaining != 0 || r.isIncomplete then 1 else 0

end RunReport

end Declutter
