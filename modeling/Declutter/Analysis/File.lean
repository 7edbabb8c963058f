import Declutter.Analysis.Collect
import Declutter.Analysis.Review
import Declutter.Report.Basic

/-!
# Analysing a file

A file is parsed and its findings are reported.  When rewrites are carried out, the result is
analysed again, so that rewrites which had to give way get their turn, until a pass rewrites
nothing or the passes run out.

## Main definitions

* `Tree.analyze` — one pass over a program.
* `Fixing`, `continueFixing` — the further passes.
* `AnalysisError` — why there is no report.
* `analyzeSource` — the report of a file.
-/

namespace Declutter

/-- The greatest number of passes that rewrite a file. -/
def maxFixPasses : Nat := 10

/-- Why the analysis of a file gives no report. -/
inductive AnalysisError where
  /-- It was asked to stop. -/
  | cancelled
  | conflict (c : Conflict)
  | defect (d : Defect)
  /-- A rewritten source that was a program is none when it is parsed again. -/
  | unparsable (e : ParseError)
  /-- The rewritten bytes are no text. -/
  | undecodable (rewritten : Bytes)
  deriving DecidableEq, Repr, Inhabited

namespace AnalysisError

/-- The name of an error. -/
def name : AnalysisError → String
  | cancelled => "AnalysisCancelled"
  | conflict _ => "RewriteConflict"
  | defect d => d.name
  | unparsable _ => "ParseError"
  | undecodable _ => "UnicodeDecodeError"

/-- What is said of an error. -/
def message : AnalysisError → String
  | cancelled => "analysis cancelled"
  | conflict c => c.message
  | defect d => d.message
  | unparsable e => e.message
  | undecodable rewritten => ((Utf8.firstFault? rewritten).map (·.message)).getD ""

end AnalysisError

variable {m : Type → Type} [Monad m]

/-- One pass over a program. -/
def Tree.analyze (grammar : Grammar m) (t : Tree) (c : Config) (apply : Bool) :
    m (Except AnalysisError Review) :=
  match t.collectFindings c with
  | .error d => pure (.error (.defect d))
  | .ok findings => do
    match ← t.review grammar c.marker c.maxFindings apply findings with
    | .error e => return .error (.conflict e)
    | .ok review => return .ok review

/-- Where the passes over a file have come to. -/
structure Fixing where
  /-- What the last pass reports. -/
  last : Review
  /-- How many passes rewrote the file. -/
  passes : Nat := 0
  /-- The source after the last pass that did. -/
  current : Option Bytes := none
  diagnostics : List String := []
  deriving Inhabited

/-- One pass over a source that the pass before it made. -/
def analyzeAgain (grammar : Grammar m) (c : Config) (language : Language) (apply : Bool)
    (source : Bytes) : m (Except AnalysisError Review) := do
  match ← Tree.parse grammar language source with
  | .error e => return .error (.unparsable e)
  | .ok tree => tree.analyze grammar c apply

/-- Further passes over a file, as long as the last one rewrote it; with no more than `left` to
come, the one after them only reports what remains.  `stopped` says before the pass of which number
the analysis is asked to stop. -/
def continueFixing (grammar : Grammar m) (c : Config) (language : Language) (stopped : Nat → Bool)
    (left : Nat) (f : Fixing) : m (Except AnalysisError Fixing) :=
  match f.last.rewritten with
  | none => pure (.ok f)
  | some source =>
    if stopped (f.passes + 1) then pure (.error .cancelled)
    else match left with
    | 0 => do
      let note := s!"stopped after {f.passes + 1} fix passes"
      match ← analyzeAgain grammar c language false source with
      | .error e => return .error e
      | .ok last =>
        return .ok
          { last, passes := f.passes + 1, current := some source,
            diagnostics := f.diagnostics ++ [note] }
    | left + 1 => do
      match ← analyzeAgain grammar c language true source with
      | .error e => return .error e
      | .ok last =>
        continueFixing grammar c language stopped left
          { last, passes := f.passes + 1, current := some source,
            diagnostics := f.diagnostics ++ last.diagnostics }

/-- All passes over a program. -/
def Tree.fix (grammar : Grammar m) (t : Tree) (c : Config) (stopped : Nat → Bool)
    (apply : Bool) : m (Except AnalysisError (Review × Fixing)) := do
  match ← t.analyze grammar c apply with
  | .error e => return .error e
  | .ok first =>
    match ← continueFixing grammar c t.language stopped (maxFixPasses - 1)
        { last := first, diagnostics := first.diagnostics } with
    | .error e => return .error e
    | .ok f => return .ok (first, f)

/-- The text of the source after the last pass that rewrote it. -/
def Fixing.rewritten? (f : Fixing) : Except AnalysisError (Option String) :=
  match f.current with
  | none => .ok none
  | some source =>
    match Utf8.decode? source with
    | some text => .ok (some text)
    | none => .error (.undecodable source)

/-- The report of a file, given what its passes found: the findings of the first pass, and the
text and the number of findings after the last. -/
def FileReport.ofPasses (base : FileReport) (first : Review) (f : Fixing) :
    Except AnalysisError FileReport := do
  let rewritten ← f.rewritten?
  return { base with
    diagnostics := base.diagnostics ++ f.diagnostics
    findings := first.findings.map (·.report)
    suppressed := first.suppressed.length
    truncated := first.truncated
    rewritten
    fixPasses := f.passes
    remaining := f.last.kept.length }

/-- Whether rewrites can be carried out: they were asked for, and the source is text. -/
def canRewrite (c : Config) (source : Bytes) : Bool :=
  c.applyFixes && (Utf8.decode? source).isSome

/-- What is known of a file before it is parsed. -/
def FileReport.start (path : String) (source : Bytes) (c : Config) : FileReport where
  path
  language := (Language.ofPath path).name
  diagnostics :=
    if c.applyFixes && (Utf8.decode? source).isNone then
      ["source is not valid UTF-8; rewrites were not applied"]
    else []

/-- The report of a file.  A file that does not parse is reported as such even when the analysis
was asked to stop. -/
def analyzeSource (grammar : Grammar m) (path : String) (source : Bytes) (c : Config)
    (stopped : Nat → Bool) : m (Except AnalysisError FileReport) := do
  let base := FileReport.start path source c
  match ← Tree.parse grammar (Language.ofPath path) source with
  | .error e =>
    return .ok { base with
      outcome := .parseError
      diagnostics := base.diagnostics ++ ["parse error: " ++ e.message] }
  | .ok tree =>
    if stopped 0 then return .error .cancelled
    else
      match ← tree.fix grammar c stopped (canRewrite c source) with
      | .error e => return .error e
      | .ok (first, f) => return base.ofPasses first f

end Declutter
