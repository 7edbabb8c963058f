import Declutter.Analysis.File

/-!
# Sessions

A session analyses files, run after run, with one configuration.  A run can be cancelled before it
starts; the request is spent by the next run that has any files.

## Main definitions

* `SourceFile` — a file to analyse, with a grammar for it.
* `runFile` — the report of a file, whatever happens.
* `Session`, `Session.run` — runs and their cancellation.
-/

namespace Declutter

/-- A file to analyse, with a grammar for its source. -/
structure SourceFile (m : Type → Type) where
  path : String
  source : Bytes
  grammar : Grammar m

variable {m : Type → Type} [Monad m]

/-- The report of a file whose analysis gave none. -/
def FileReport.ofError (path : String) : AnalysisError → FileReport
  | .cancelled => .failure path .cancelled AnalysisError.cancelled.message
  | e => .failure path .error (e.name ++ ": " ++ e.message)

/-- The report of a file, whatever happens. -/
def runFile (c : Config) (cancelled : Bool) (f : SourceFile m) : m FileReport :=
  if cancelled then pure (.ofError f.path .cancelled)
  else do
    match ← analyzeSource f.grammar f.path f.source c (fun _ => false) with
    | .ok report => return report
    | .error e => return .ofError f.path e

/-- Runs with one configuration. -/
structure Session where
  config : Config
  /-- Whether the next run is to be cancelled. -/
  cancelRequested : Bool := false
  deriving Inhabited

namespace Session

/-- Asks for the next run to be cancelled. -/
def cancel (s : Session) : Session := { s with cancelRequested := true }

/-- Analyses some files, and reports them in order. -/
def run (s : Session) (files : List (SourceFile m)) : m (RunReport × Session) :=
  if files.isEmpty then pure ({}, s)
  else do
    let reports ← files.mapM (runFile s.config s.cancelRequested)
    return (⟨reports⟩, { s with cancelRequested := false })

end Session

end Declutter
