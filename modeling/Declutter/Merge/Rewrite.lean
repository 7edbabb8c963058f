import Declutter.Merge.CoBuilt
import Declutter.Merge.Usages
import Declutter.Merge.Views

/-!
# Merging a group of collections

The rewrite that merges the members of a group: it declares the merged collection where the
members were declared and lets every usage of a removed member read it.

## Main definitions

* `MergePlan.draft` — all edits of a merge.
* `MergePlan.rewrite` — the rewrite, if the edits fit together.
-/

namespace Declutter.MergePlan

open Attempt

/-- Whether two edits do the same. -/
def sameEdit (a b : Edit) : Bool :=
  a.span.start == b.span.start && a.span.stop == b.span.stop && a.replacement == b.replacement

variable (p : MergePlan)

/-- The edits that declare the merged collection. -/
def declarationDraft : Attempt Draft :=
  match p.group.pattern with
  | .coBuilt => p.coBuiltDraft
  | .derivedViews => p.viewDraft

/-- All edits of the merge. -/
def draft : Attempt Draft := do
  let declared ← p.declarationDraft
  let used ← p.usageDraft declared.covered
  return declared.append used

/-- The rewrite of the merge, unless its edits overlap. -/
def rewrite : Attempt Rewrite := do
  let draft ← p.draft
  match Rewrite.ofEdits (distinctBy sameEdit [] draft.edits) with
  | .ok rewrite => return rewrite
  | .error (first, second) => withhold (.conflict first second)

end Declutter.MergePlan
