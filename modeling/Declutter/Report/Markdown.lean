import Declutter.Report.Basic

/-!
# Reports as text

A report laid out for people to read: a section for each file, with a table of its findings and a
list of what is to be said of them, and a summary at the end.

## Main definitions

* `FileReport.toMarkdown` — the section of a file.
* `RunReport.toMarkdown` — the whole report.
-/

namespace Declutter

/-- A quotation of code within a line. -/
def codeText (s : String) : String := "\x60" ++ s ++ "\x60"

namespace FindingReport

/-- The row of a finding in the table. -/
def tableRow (f : FindingReport) : String :=
  s!"| {f.span} | {codeText f.rule} | {codeText f.symbol} | {f.status} |"

/-- What is to be said of a finding. -/
def notes (f : FindingReport) : List String :=
  s!"- **{f.span}** {f.rationale}" ::
    match f.unavailable with
    | some why => if why == "" then [] else [s!"  - _{why}_"]
    | none => []

end FindingReport

namespace FileReport

variable (r : FileReport)

/-- The heading of a section. -/
def heading : String := "### " ++ codeText r.path

/-- The lines of a section about findings. -/
def findingLines : List String :=
  [r.heading, "", "| Location | Rule | Symbol | Status |",
    "|----------|------|--------|--------|"] ++
  r.findings.map (·.tableRow) ++ [""] ++ r.findings.flatMap (·.notes) ++
  r.diagnostics.map ("- " ++ ·) ++
  (if r.fixPasses == 0 then []
    else ["", s!"Fix passes: {r.fixPasses}, remaining findings: {r.remaining}"])

/-- The section of a file. -/
def toMarkdown : String :=
  if r.outcome != .ok then
    "\n".intercalate
      (s!"{r.heading} — **{r.outcome.name}**" :: r.diagnostics.map ("- " ++ ·))
  else if r.findings.isEmpty then r.heading ++ " — no findings"
  else "\n".intercalate r.findingLines

end FileReport

namespace RunReport

variable (r : RunReport)

/-- How many files ended with an outcome, if any. -/
def countOutcome? (outcome : Outcome) : Option String :=
  let n := r.files.countP (·.outcome == outcome)
  if n == 0 then none else some (toString n ++ " " ++ outcome.name)

/-- How many files ended with each outcome, in the order of the names. -/
def outcomes : String :=
  match [Outcome.cancelled, .error, .ok, .parseError, .timedOut].filterMap r.countOutcome? with
  | [] => "none"
  | counts => ", ".intercalate counts

/-- The last line of a report. -/
def summary : String :=
  s!"**Summary:** {r.files.length} file(s) ({r.outcomes}), {r.totalFindings} finding(s), " ++
    s!"{r.applied} applied, {r.remaining} remaining"

/-- The whole report. -/
def toMarkdown : String := "\n\n".intercalate (r.files.map (·.toMarkdown) ++ [r.summary])

end RunReport

end Declutter
