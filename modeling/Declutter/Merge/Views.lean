import Declutter.Merge.Plan

/-!
# Merging derived views

Several collections derived element by element from one anchor are merged into one derivation that
makes a record of all the elements.  The callbacks that made the members become the fields of the
record, after their parameters have been given one common name.

## Main definitions

* `MergePlan.checkView`, `MergePlan.checkCallback` — what a member must be like.
* `MergePlan.renamedBody` — the body of a callback with its parameter renamed.
* `MergePlan.viewDraft` — the edits that declare the merged collection.
-/

namespace Declutter.MergePlan

open Attempt

variable (p : MergePlan)

/-! ### Checks -/

/-- Succeeds if a member is a map or copy of the anchor, declared by itself. -/
def checkView (m : CollectionId) : Attempt Unit := do
  let c := p.collection m
  let binding := p.binding m
  let name := p.nameOf m
  require (c.origin == some p.group.anchor) (.derivedIndirectly name)
  require (c.derivation == .map || c.derivation == .copy)
    (.notMapOrCopy name (p.nameOf p.group.anchor))
  require ((binding.kind == .const || binding.kind == .let) &&
      binding.declaration.any (p.tree.kind · == .variableDeclaration)) (.notPlainDeclaration name)
  require (p.tree.declaratorCount binding.declarationNode == 1) (.sharedDeclaration name)

/-- Succeeds if the callback of a member is a function of one plain parameter, or none, whose body
is an expression that can be evaluated elsewhere. -/
def checkCallback (m : CollectionId) : Attempt Unit := do
  let name := p.nameOf m
  match (p.collection m).callback with
  | none => withhold (.callbackMissing name)
  | some callback =>
    let parameters := p.tree.functionParameters callback
    let body := p.tree.child? callback "body"
    require (parameters.length ≤ 1 && parameters.head?.all (p.tree.kind · == .identifier))
      (.callbackParameters name)
    require (body.any (p.tree.kind · != .block)) (.callbackBody name)
    require (!Text.beginsWith (Text.stripStart (p.tree.text callback)) "async" &&
        !body.any p.tree.suspends) (.callbackAsynchronous name)

/-- The body of the callback of a member. -/
def callbackBody (m : CollectionId) : Attempt NodeId := do
  let callback ← fetch (.absent "child") (p.collection m).callback
  fetch (.absent "walk") (p.tree.child? callback "body")

/-- Succeeds if the callback of a member has no side effects. -/
def checkCallbackEffects (m : CollectionId) : Attempt Unit := do
  let body ← p.callbackBody m
  require (!p.tree.hasSideEffects p.pure body) (.callbackEffects (p.nameOf m))

/-- The parameter of the callback of a member. -/
def callbackParameter? (m : CollectionId) : Option NodeId :=
  (p.collection m).callback.bind fun callback => (p.tree.functionParameters callback).head?

/-! ### The record -/

/-- The common name of the callbacks' parameters: the first one there is, or else a fresh name for
an element of the anchor. -/
def parameterName (callbacks : List CollectionId) : String :=
  match callbacks.findSome? p.callbackParameter? with
  | some parameter => p.tree.text parameter
  | none =>
    let anchor := p.nameOf p.group.anchor
    let singular := singularize anchor
    fresh (if singular == anchor then "item" else singular) p.names

/-- The edit that gives a reference to a parameter its new name. -/
def renameEdit (own name : String) (i : NodeId) : Edit :=
  ⟨p.tree.span i,
    if p.tree.kind i == .shorthandProperty then own ++ ": " ++ name else name⟩

/-- The names in the body of a callback. -/
def bodyNames (body : NodeId) : List NodeId :=
  (p.tree.subtree body).filter fun n =>
    p.tree.kind n == .identifier || p.tree.kind n == .shorthandProperty

/-- The text of a node with some edits within it. -/
def editedText (i : NodeId) (edits : List Edit) : String :=
  let s := p.tree.span i
  let sorted := sortBy Edit.after edits
  Utf8.decode (((Edit.applyBelow p.tree.source sorted s.stop []).1).drop s.start)

/-- The body of a member's callback with its parameter renamed, as the value of a field.  Nothing
else in the body may have the new name. -/
def renamedBody (m : CollectionId) (name : String) : Attempt String := do
  let body ← p.callbackBody m
  let own := (p.callbackParameter? m).bind p.table.of?
  let isOwn (i : NodeId) : Bool := own.isSome && p.table.of? i == own
  let ownName := (own.map fun i => (p.table.binding i).name).getD ""
  let names := p.bodyNames body
  require (names.all fun n => p.tree.text n != name || isOwn n) (.nameTaken name (p.nameOf m))
  let edits :=
    if ownName == name then [] else (names.filter isOwn).map (p.renameEdit ownName name)
  return parenthesize (p.tree.precedence body < Precedence.assignment) (p.editedText body edits)

/-- The value of a member's field. -/
def viewValue (name : String) (m : CollectionId) : Attempt String :=
  if (p.collection m).derivation == .copy then .ok name else p.renamedBody m name

/-- The field of a member in the record. -/
def viewEntry (name : String) (m : CollectionId) : Attempt String := do
  let value ← p.viewValue name m
  return entryText (p.fieldOf (p.bindingId m)) value

/-- The fields of the record. -/
def viewEntries (name : String) : Attempt (List String) := do
  let entries ← p.removed.mapM (p.viewEntry name)
  if p.group.anchorJoined then
    return entryText (p.fieldOf (p.bindingId p.group.anchor)) name :: entries
  else return entries

/-- Whether an initial value is a call of a method of the anchor itself. -/
def isMethodOfAnchor (value : NodeId) : Bool :=
  let value := p.tree.unparenthesized value
  p.tree.kind value == .call &&
    ((p.tree.child? value "function").filter (p.tree.kind · == .member)).any fun callee =>
      (p.tree.child? callee "object").any fun object =>
        p.table.of? object == some (p.bindingId p.group.anchor)

/-- Whether all of some members were made by a method of the anchor itself. -/
def areMadeByMethod : List CollectionId → Attempt Bool
  | [] => .ok true
  | m :: rest => do
    let value ← fetch (.absent "unparenthesized") (p.binding m).initializer
    if p.isMethodOfAnchor value then areMadeByMethod rest else return false

/-- The derivation of the merged collection. -/
def viewDerivation (name : String) (entries : List String) : Attempt String := do
  let anchor := p.nameOf p.group.anchor
  let record := recordText entries
  if ← p.areMadeByMethod p.removed then return s!"{anchor}.map({name} => ({record}))"
  else return s!"Array.from({anchor}, {name} => ({record}))"

/-- The edits that derive the merged collection in the place of the members. -/
def viewDraft : Attempt Draft := do
  checkAll p.checkView p.removed
  let declarations ← p.adjacentDeclarations p.removed
  p.checkUnread declarations
  let callbacks := p.removed.filter fun m => (p.collection m).derivation == .map
  checkAll p.checkCallback callbacks
  let name := p.parameterName callbacks
  if 2 ≤ callbacks.length then checkAll p.checkCallbackEffects callbacks
  let entries ← p.viewEntries name
  let derivation ← p.viewDerivation name entries
  return { edits := p.declarationEdits derivation declarations
           covered := p.subtrees declarations }

end Declutter.MergePlan
