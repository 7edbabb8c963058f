import Declutter.Analysis.Triage
import Declutter.Syntax.Parse

/-!
# Carrying out rewrites

The accepted rewrites are carried out together, and the result is adopted only if it is a program
again.  If it is not, none of them counts.

## Main definitions

* `Conflict` — accepted edits that could not all be carried out.
* `Review` — what is reported of a file, and what it was turned into.
* `Tree.review` — triage and, if asked for, the rewrites.
-/

namespace Declutter

/-- Accepted edits of which some were skipped. -/
structure Conflict where
  skipped : Nat
  total : Nat
  deriving DecidableEq, Repr, Inhabited

/-- What is said of accepted edits that were skipped. -/
def Conflict.message (c : Conflict) : String :=
  s!"{c.skipped} of {c.total} accepted edit(s) were skipped"

/-- What is reported of a file. -/
structure Review where
  /-- The findings, in order. -/
  kept : List Numbered
  /-- The numbers of the findings that a comment exempts. -/
  suppressed : List Nat
  truncated : Nat
  /-- How many findings were resolved. -/
  applied : Nat := 0
  diagnostics : List String := []
  /-- The source after the rewrites. -/
  rewritten : Option Bytes := none
  deriving Inhabited

namespace Review

/-- The findings, in order. -/
def findings (r : Review) : List Finding := r.kept.map (·.finding)

/-- What became of the finding of a number. -/
def statusOf (r : Review) (number : Nat) : Status :=
  match r.kept.find? (·.number == number) with
  | some n => n.finding.status
  | none => .unavailable

end Review

namespace Triage

/-- The report when the accepted findings get a status. -/
def report (g : Triage) (status : Status) : Review where
  kept := g.settled status
  suppressed := g.suppressed
  truncated := g.truncated

/-- The report when the rewrites turned the source into `source`, given what parsing that gave. -/
def conclude (g : Triage) (source : Bytes) : Except ParseError Tree → Review
  | .ok _ =>
    { g.report .applied with applied := g.accepted.length, rewritten := some source }
  | .error e =>
    { g.report .invalidResult with diagnostics := ["rewrite rolled back: " ++ e.message] }

end Triage

/-- Triage of the findings of a program and, with `apply`, the accepted rewrites. -/
def Tree.review {m : Type → Type} [Monad m] (grammar : Grammar m) (t : Tree) (marker : String)
    (maxFindings : Nat) (apply : Bool) (findings : List Finding) :
    m (Except Conflict Review) :=
  let g := t.triage marker maxFindings findings
  if g.accepted.isEmpty || !apply then pure (.ok (g.report .available))
  else
    let (source, applied) := Edit.applyAll t.source g.edits
    if applied != g.edits.length then
      pure (.error ⟨g.edits.length - applied, g.edits.length⟩)
    else do
      let parsed ← Tree.parse grammar t.language source
      return .ok (g.conclude source parsed)

end Declutter
