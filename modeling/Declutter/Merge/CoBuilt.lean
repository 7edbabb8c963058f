import Declutter.Merge.Plan

/-!
# Merging collections filled side by side

Several empty sequences to which one loop pushes an element each are merged into one sequence to
which it pushes a record.  The record is pushed where the first element was; the other values move
there, which is harmless if they stood next to it, or if they depend on nothing that could change
in between.

## Main definitions

* `MergePlan.checkPushed` — what a member must be like.
* `MergePlan.checkMovable` — whether a value may move to the first push.
* `MergePlan.coBuiltDraft` — the edits that fill the merged collection.
-/

namespace Declutter.MergePlan

open Attempt

variable (p : MergePlan)

/-! ### Checks -/

/-- Succeeds if a member is filled by a push that is a statement of its own. -/
def checkPushed (m : CollectionId) : Attempt Unit := do
  let c := p.collection m
  let kind := (p.binding m).kind
  require (c.shape == .sequence &&
    c.populate.any (p.tree.kind · == .expressionStatement)) (.notPushed (p.nameOf m))
  require (kind == .const || kind == .let) (.notConstOrLet (p.nameOf m))

/-- The statement that pushes an element to a member, with the member. -/
def pushOf (m : CollectionId) : Attempt (CollectionId × NodeId) :=
  (fetch (.absent "span") (p.collection m).populate).map fun push => (m, push)

/-- The value that a statement pushes to a member, with the member. -/
def pushedValue : CollectionId × NodeId → Attempt (CollectionId × NodeId)
  | (m, push) => do
    let call ← fetch .exhausted (p.tree.children push).head?
    let arguments ← fetch (.absent "children") (p.tree.child? call "arguments")
    let value ← fetch .exhausted (p.tree.children arguments).head?
    return (m, value)

/-- The first name in a value that is declared after an offset, functions apart. -/
def laterName? (value : NodeId) (offset : Nat) : Option String :=
  (p.tree.subtree value).findSome? fun n =>
    (p.table.of? n).bind fun i =>
      let binding := p.table.binding i
      if binding.kind != .function && offset < (p.tree.span binding.nameNode).start then
        some binding.name
      else none

/-- Succeeds if a value may move up to an offset. -/
def checkMovable (offset : Nat) : CollectionId × NodeId → Attempt Unit
  | (m, value) => do
    require (p.tree.isTriviallyPure value && p.tree.readsOnlyStable p.table.kindOf? value)
      .pushesApart
    match p.laterName? value offset with
    | some name => withhold (.readsLaterName (p.nameOf m) name)
    | none => .ok ()

/-- The position of a statement among its siblings. -/
def positionIn (siblings : List NodeId) (statement : NodeId) : Attempt Nat :=
  fetch (.unlisted (p.tree.describe statement)) (siblings.findIdx? (· == statement))

/-- Whether some statements stand next to each other in the block of the first one. -/
def areAdjacent (statements : List NodeId) : Attempt Bool := do
  let first ← fetch .exhausted statements.head?
  let body ← fetch (.absent "children") (p.tree.parent? first)
  let positions ← statements.mapM (p.positionIn (p.tree.children body))
  return isConsecutive positions

/-! ### Edits -/

/-- The edits that push a record in the place of the first push and remove the others. -/
def pushEdits (entries : List String) : List NodeId → List Edit
  | [] => []
  | first :: rest =>
    ⟨p.tree.span first, s!"{p.recordName}.push({recordText entries})" ++ p.terminatorOf first⟩ ::
      rest.map (p.tree.removal p.marker)

/-- The edits that declare and fill the merged collection in the place of the members. -/
def coBuiltDraft : Attempt Draft := do
  checkAll p.checkPushed p.removed
  let declarations ← p.adjacentDeclarations p.removed
  let start (push : CollectionId × NodeId) : Nat := (p.tree.span push.2).start
  let filled ← p.removed.mapM p.pushOf
  let filled := sortBy (fun m n => start m ≤ start n) filled
  let pushes := filled.map (·.2)
  let adjacent ← p.areAdjacent pushes
  let values ← filled.mapM p.pushedValue
  p.checkUnread (values.map (·.2))
  if !adjacent then
    let first := (filled.head?.map start).getD 0
    checkAll (p.checkMovable first) values.tail
  let entries := values.map fun (m, value) =>
    entryText (p.fieldOf (p.bindingId m)) (p.tree.text value)
  return { edits := p.declarationEdits "[]" declarations ++ p.pushEdits entries pushes
           covered := p.subtrees (declarations ++ pushes) }

end Declutter.MergePlan
