import Declutter.Finding.Rule
import Declutter.Finding.Withheld

/-!
# Findings

A finding is one place where a rule applies: what it is about, where it is, and either the rewrite
that resolves it or the reason why there is none.

## Main definitions

* `Status` — what became of a finding.
* `Finding` — a place where a rule applies.
* `Finding.combinedSpan` — all the text that a finding concerns.
-/

namespace Declutter

/-- What became of a finding. -/
inductive Status where
  /-- Its rewrite was carried out. -/
  | applied
  /-- Its rewrite could be carried out. -/
  | available
  /-- Its rewrite overlaps one that was preferred. -/
  | superseded
  /-- Its rewrite was undone because the result was no program. -/
  | invalidResult
  /-- It has no rewrite, or was not considered. -/
  | unavailable
  deriving DecidableEq, Repr, Inhabited

/-- The name of a status. -/
def Status.name : Status → String
  | applied => "applied"
  | available => "available"
  | superseded => "skipped: superseded"
  | invalidResult => "skipped: invalid-result"
  | unavailable => "unavailable"

/-- Why a finding cannot be rewritten, or was not. -/
inductive Unavailable where
  | withheld (why : Withheld)
  /-- The rewrite overlaps the one of another finding. -/
  | overlapping (rule : Rule) (symbol : String) (primary : Span)
  deriving DecidableEq, Repr, Inhabited

/-- What is said of a finding that is not rewritten. -/
def Unavailable.message : Unavailable → String
  | withheld why => why.message
  | overlapping rule symbol primary =>
    s!"overlaps the rewrite for {rule.id} '{symbol}' at {primary.format}"

/-- A place where a rule applies. -/
structure Finding where
  rule : Rule
  /-- The place itself. -/
  primary : Span
  rationale : String
  /-- The name, or names, that the finding is about. -/
  symbol : String := ""
  /-- Further places that belong to it. -/
  referenced : List Span := []
  rewrite : Option Rewrite := none
  unavailable : Option Unavailable := none
  /-- Whether a comment exempts the place. -/
  suppressed : Bool := false
  status : Status := .unavailable
  deriving DecidableEq, Repr, Inhabited

namespace Finding

/-- The edits of the rewrite, if there is one. -/
def edits (f : Finding) : List Edit :=
  match f.rewrite with
  | some r => r.edits
  | none => []

/-- The least span over all the text that a finding concerns. -/
def combinedSpan (f : Finding) : Span := f.primary.union (f.referenced ++ f.edits.map (·.span))

/-- A finding with its rewrite, or with the reason why there is none. -/
def resolve (f : Finding) : Attempt Rewrite → Except Defect Finding
  | .ok r => .ok { f with rewrite := some r }
  | .error (.withheld why) => .ok { f with unavailable := some (.withheld why) }
  | .error (.defect d) => .error d

end Finding

end Declutter
