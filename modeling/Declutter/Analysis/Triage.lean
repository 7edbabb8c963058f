import Declutter.Finding.Basic
import Declutter.Syntax.Tree
import Declutter.Text.Blank

/-!
# Triage

Of the findings of a file, those exempt by a comment are dropped, repeated ones collapse, the rest
is put in order and cut to the greatest number that may be reported.  Of their rewrites, those are
accepted that overlap none accepted before; larger ones come first.

## Main definitions

* `Numbered` — a finding with its place in the list that was given.
* `Tree.exempts` — whether a comment exempts a finding.
* `accept` — the choice of rewrites.
* `Triage`, `Tree.triage` — all steps together.
-/

namespace Declutter

/-- A finding with its place in the list that was given. -/
structure Numbered where
  number : Nat
  finding : Finding
  deriving DecidableEq, Repr, Inhabited

/-- Whether a comment with the marker ends on the line before a finding. -/
def Tree.exempts (t : Tree) (marker : String) (f : Finding) : Bool :=
  let line := f.primary.first.line - 1
  1 ≤ line && t.comments.any fun c => c.span.last.line == line && Text.contains c.text marker

/-- Whether two findings say the same of the same place. -/
def Finding.repeats (f g : Finding) : Bool :=
  f.rule == g.rule && f.primary.start == g.primary.start && f.primary.stop == g.primary.stop &&
    f.symbol == g.symbol

/-- The order of report: by start, then by end, then by the name of the rule. -/
def Finding.reportedBefore (f g : Finding) : Bool :=
  f.primary.start < g.primary.start ||
    (f.primary.start == g.primary.start &&
      (f.primary.stop < g.primary.stop ||
        (f.primary.stop == g.primary.stop && f.rule.rank ≤ g.rule.rank)))

/-- The order in which rewrites are considered: the larger combined span first, then the one that
starts earlier. -/
def Finding.consideredBefore (f g : Finding) : Bool :=
  g.combinedSpan.length < f.combinedSpan.length ||
    (g.combinedSpan.length == f.combinedSpan.length &&
      f.combinedSpan.start ≤ g.combinedSpan.start)

/-- Whether the rewrites of two findings overlap. -/
def Finding.conflicts (f g : Finding) : Bool :=
  match f.rewrite, g.rewrite with
  | some r, some s => r.overlaps s
  | _, _ => false

/-- A finding whose rewrite gives way to that of another one. -/
def Finding.supersededBy (f winner : Finding) : Finding :=
  { f with
    status := .superseded
    unavailable := some (.overlapping winner.rule winner.symbol winner.primary) }

/-- The rewrites accepted in turn after some others, and the findings whose rewrites give way. -/
def accept (accepted : List Numbered) : List Numbered → List Numbered × List Numbered
  | [] => (accepted, [])
  | n :: rest =>
    match accepted.find? (·.finding.conflicts n.finding) with
    | some winner =>
      let (accepted, superseded) := accept accepted rest
      (accepted, ⟨n.number, n.finding.supersededBy winner.finding⟩ :: superseded)
    | none => accept (accepted ++ [n]) rest

/-- What becomes of the findings of a file. -/
structure Triage where
  /-- The numbers of the findings that a comment exempts. -/
  suppressed : List Nat
  /-- How many findings exceed the number that may be reported. -/
  truncated : Nat
  /-- The findings to report, in order. -/
  kept : List Numbered
  /-- Those of them whose rewrites are accepted. -/
  accepted : List Numbered
  /-- Those of them whose rewrites give way. -/
  superseded : List Numbered
  deriving Repr, Inhabited

/-- What becomes of the findings of a file. -/
def Tree.triage (t : Tree) (marker : String) (maxFindings : Nat) (findings : List Finding) :
    Triage :=
  let all := findings.zipIdx.map fun (finding, number) => (⟨number, finding⟩ : Numbered)
  let (exempt, others) := all.partition fun n => t.exempts marker n.finding
  let distinct := distinctBy (fun m n => m.finding.repeats n.finding) [] others
  let ordered := sortBy (fun m n => m.finding.reportedBefore n.finding) distinct
  let kept := ordered.take maxFindings
  let candidates := sortBy (fun m n => m.finding.consideredBefore n.finding)
    (kept.filter fun n => !n.finding.edits.isEmpty)
  let (accepted, superseded) := accept [] candidates
  { suppressed := exempt.map (·.number)
    truncated := ordered.length - maxFindings
    kept
    accepted
    superseded }

namespace Triage

variable (g : Triage)

/-- The edits of the accepted rewrites. -/
def edits : List Edit := g.accepted.flatMap (·.finding.edits)

/-- Whether the rewrite of the finding of a number is accepted. -/
def accepts (number : Nat) : Bool := g.accepted.any (·.number == number)

/-- The finding of a number as it is reported, when the accepted ones get a status. -/
def settle (status : Status) (n : Numbered) : Numbered :=
  if g.accepts n.number then ⟨n.number, { n.finding with status }⟩
  else (g.superseded.find? (·.number == n.number)).getD n

/-- The findings to report, when the accepted ones get a status. -/
def settled (status : Status) : List Numbered := g.kept.map (g.settle status)

end Triage

end Declutter
