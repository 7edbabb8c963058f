import Declutter.Config.Basic
import Declutter.Merge.Rewrite

/-!
# Findings of a program

All places of a program where an enabled rule applies, each with its rewrite or with the reason why
there is none.

## Main definitions

* `Tree.singleUseFindings`, `Tree.parallelFindings` — the findings of each rule.
* `Tree.collectFindings` — the findings of the enabled rules.
-/

namespace Declutter.Tree

variable (t : Tree) (c : Config)

/-- The single-use bindings of a program. -/
def singleUseFindings (b : BindingTable) : Except Defect (List Finding) :=
  (b.singleUse t c.inlinePolicy).mapM fun i => do
    let finding ← b.singleUseFinding t i
    finding.resolve (b.inline t c.marker i)

/-- The groups of parallel collections of a program. -/
def parallelFindings (b : BindingTable) : Except Defect (List Finding) :=
  let a := Arena.ofTree b t
  let names := t.spelledNames
  match a.defect? with
  | some d => .error d
  | none => (a.groups b t).mapM fun g => do
    let finding ← g.finding a b t
    finding.resolve (MergePlan.ofGroup t b a c.pureFunctions c.marker names g).rewrite

/-- The findings of a rule, if it is enabled. -/
def enabledFindings (r : Rule) (findings : Except Defect (List Finding)) :
    Except Defect (List Finding) :=
  if c.enables r then findings else .ok []

/-- The findings of the enabled rules. -/
def collectFindings : Except Defect (List Finding) := do
  let b := BindingTable.ofTree t
  let single ← enabledFindings c .singleUse (t.singleUseFindings c b)
  let parallel ← enabledFindings c .parallelCollections (t.parallelFindings c b)
  return single ++ parallel

end Declutter.Tree
