import Declutter.Merge.Plan

/-!
# Usages of merged collections

Once several collections are merged, every usage of a removed one has to read the merged one
instead: iterations take the record apart where they take an element, accesses at the index of an
iteration read a field of the record, and the length is that of the merged collection.  Any other
usage stands in the way of the merge.

## Main definitions

* `MergePlan.contextDraft` — the edits of an iteration that knows the index.
* `MergePlan.usageEdits` — the edits of a usage outside such iterations.
* `MergePlan.usageDraft` — the edits of all usages.
-/

namespace Declutter

/-- The methods whose result is the same for elements as for records that are taken apart. -/
def recordSafeMethods : List String := ["forEach", "map", "some", "every", "findIndex"]

namespace Tree

variable (t : Tree)

/-- Whether an access is assigned to, counted, or deleted. -/
def isTarget (i : NodeId) : Bool :=
  match t.parent? i with
  | none => false
  | some p =>
    ((t.kind p).isAssignment && t.hasField i "left") || t.kind p == .update || t.isDeletion p

/-- The first name in a function by which it might get hold of the collection it iterates over.
An arrow function has none. -/
def receiverName? (function : NodeId) : Option String :=
  if t.type function == "arrow_function" then none
  else
    (t.child? function "body").bind fun body =>
      ((t.subtree body).find? fun n =>
        t.kind n == .this || (t.kind n == .identifier && t.text n == "arguments")).map t.text

end Tree

namespace MergePlan

open Attempt

variable (p : MergePlan)

/-- Succeeds if a callback sees the elements of the collection only. -/
def checkElementCallback (place : IterationPlace) (callback : NodeId) : Attempt Unit := do
  require ((p.tree.functionParameters callback).length ≤ 2) (.arrayParameter place)
  match p.tree.receiverName? callback with
  | some name => withhold (.callbackReads place name)
  | none => .ok ()

/-! ### Iterations that know the index -/

/-- The accesses of an iteration to elements of members at its index. -/
def memberAccesses (context : ZipContext) : List (NodeId × BindingId) :=
  (p.table.indexedAccesses p.tree context).filter fun (_, target) => p.hasMember target

/-- Whether an iteration has to change: it iterates over a member, and over or through a removed
one. -/
def concerns (context : ZipContext) : Bool :=
  p.hasMember context.collection &&
    (p.removes context.collection ||
      (p.memberAccesses context).any fun (_, target) => p.removes target)

/-- The members whose fields the callback of an iteration takes out of the record, each with its
field: those whose field is a fresh name, but none of which an element is marked. -/
def localFields (context : ZipContext) (accesses : List (NodeId × BindingId)) (own : String)
    (parameter : String) : List (BindingId × String) :=
  let marked := (accesses.filter fun (n, _) => p.markerNodes.contains n).map (·.2)
  (accesses.map (·.2)).eraseDups.filterMap fun target =>
    let field := p.fieldOf target
    if target == context.collection || marked.contains target || p.names.contains field ||
        field == parameter || field == own then none
    else some (target, field)

/-- What takes the place of an access at the index. -/
def accessText (context : ZipContext) (locals : List (BindingId × String)) (target : BindingId) :
    String :=
  match locals.lookup target with
  | some field => field
  | none =>
    s!"{p.recordName}[" ++ (p.table.binding context.index).name ++ "]." ++ p.fieldOf target

/-- The edit of an access at the index; only a marked element may be assigned to. -/
def accessEdit (context : ZipContext) (locals : List (BindingId × String)) :
    NodeId × BindingId → Attempt Edit
  | (n, target) => do
    require (!p.tree.isTarget n || p.markerNodes.contains n)
      (.writtenThroughIndex (p.table.binding target).name)
    return ⟨p.tree.span n, p.accessText context locals target⟩

/-- The edits of the callback of an iteration: it takes a record apart in the place of the
element. -/
def callbackDraft (context : ZipContext) (method : String) (receiver callback : NodeId)
    (accesses : List (NodeId × BindingId)) :
    Attempt (Draft × List (BindingId × String)) := do
  let collection := (p.table.binding context.collection).name
  require (recordSafeMethods.contains method) (.returnsElements method)
  p.checkElementCallback (.iteration method collection) callback
  let first ← fetch .exhausted (p.tree.functionParameters callback).head?
  let parameter := p.tree.text first
  let own := p.fieldOf context.collection
  let locals := p.localFields context accesses own parameter
  let pattern := recordText (entryText own parameter :: locals.map (·.2))
  return ({ edits := [⟨p.tree.span receiver, p.recordName⟩, ⟨p.tree.span first, pattern⟩]
            covered := receiver :: p.tree.subtree first }, locals)

/-- The edits of the head of an iteration, and the members that it takes out of the record. -/
def headDraft (context : ZipContext) (accesses : List (NodeId × BindingId)) :
    Attempt (Draft × List (BindingId × String)) :=
  match context.indexing with
  | .callback method receiver callback => p.callbackDraft context method receiver callback accesses
  | .loop length => do
    let object ← fetch (.absent "span") (p.tree.child? length "object")
    return ({ edits := [⟨p.tree.span object, p.recordName⟩], covered := [object] }, [])

/-- The edits of an iteration that knows the index. -/
def contextDraft (context : ZipContext) : Attempt Draft :=
  if p.concerns context then do
    let accesses := p.memberAccesses context
    require (p.ready ≤ (p.tree.span context.node).start)
      (.zippedTooEarly (p.table.binding context.collection).name)
    let (head, locals) ← p.headDraft context accesses
    let edits ← accesses.mapM (p.accessEdit context locals)
    return head.append ⟨edits, p.subtrees (accesses.map (·.1))⟩
  else .ok {}

/-! ### Other usages -/

/-- Where a usage stands. -/
def usagePlace (m : CollectionId) (usage : NodeId) : IterationPlace :=
  .usage (p.nameOf m) (p.tree.span usage).first

/-- The edits of a method call on a member: the callback takes the record apart. -/
def methodEdits (m : CollectionId) (usage call : NodeId) (method : String) :
    Attempt (List Edit) := do
  let place := p.usagePlace m usage
  let callback := ((p.tree.child? call "arguments").bind
    fun a => (p.tree.children a).head?).bind p.tree.asFunction?
  match callback with
  | none => withhold (.callbackNotFunction place method)
  | some callback =>
    p.checkElementCallback place callback
    match p.tree.functionParameters callback with
    | [] => withhold (.elementParameterMissing place)
    | first :: _ =>
      let pattern := recordText [entryText (p.fieldOf (p.bindingId m)) (p.tree.text first)]
      let text := parenthesize (p.tree.child? callback "parameter").isSome pattern
      return [⟨p.tree.span usage, p.recordName⟩, ⟨p.tree.span first, text⟩]

/-- The call of a method by which the elements of a collection may be visited, given the access to
the method. -/
def visitingCall? (access : NodeId) (method : String) : Option NodeId :=
  (p.tree.parent? access).filter fun call =>
    recordSafeMethods.contains method && p.tree.kind call == .call &&
      p.tree.hasField access "function"

/-- The edits of an access to a property of a member: its length, or a method that visits its
elements. -/
def memberEdits (m : CollectionId) (usage access : NodeId) : Attempt (List Edit) :=
  let name := ((p.tree.child? access "property").map p.tree.text).getD ""
  if name == "length" && !p.tree.isTarget access then .ok [⟨p.tree.span usage, p.recordName⟩]
  else match p.visitingCall? access name with
    | some call => p.methodEdits m usage call name
    | none => withhold (.unsupportedUsage (p.usagePlace m usage))

/-- The edits of a loop over the elements of a member: its head takes the record apart. -/
def loopEdits (m : CollectionId) (usage loop : NodeId) : Attempt (List Edit) :=
  match p.tree.child? loop "left" with
  | none => withhold (.unsupportedUsage (p.usagePlace m usage))
  | some target =>
    let pattern := recordText [entryText (p.fieldOf (p.bindingId m)) (p.tree.text target)]
    .ok [⟨p.tree.span usage, p.recordName⟩, ⟨p.tree.span target, pattern⟩]

/-- The edits of a usage of a removed member. -/
def usageEdits (m : CollectionId) (usage : NodeId) : Attempt (List Edit) :=
  let place := p.usagePlace m usage
  match p.tree.parent? usage with
  | none => withhold (.unsupportedUsage place)
  | some parent =>
    let kind := p.tree.kind parent
    let isObject := p.tree.hasField usage "object"
    if kind == .member && isObject && !p.tree.optionalLink parent then
      p.memberEdits m usage parent
    else if kind == .forInStatement && p.tree.hasField usage "right" &&
        p.tree.operator parent == some "of" then p.loopEdits m usage parent
    else if kind == .subscript && isObject then withhold (.indexUnproven place)
    else withhold (.unsupportedUsage place)

/-- The usages of a removed member outside some nodes. -/
def openUsages (covered : List NodeId) (m : CollectionId) : List NodeId :=
  ((p.binding m).usages.map (·.node)).filter (!covered.contains ·)

/-- The edits of all usages of the removed members, given what is taken care of already. -/
def usageDraft (covered : List NodeId) : Attempt Draft := do
  let contexts := Draft.concat (← p.arena.contexts.mapM p.contextDraft)
  let usages := p.removed.flatMap fun m =>
    (p.openUsages (covered ++ contexts.covered) m).map fun usage => (m, usage)
  let edits ← usages.mapM fun (m, usage) => p.usageEdits m usage
  return contexts.append ⟨edits.flatten, usages.map (·.2)⟩

end MergePlan

end Declutter
