import Declutter.Collection.Origin
import Declutter.Finding.Defect

/-!
# The arena of collections

All collections of a program in one table, in the order in which they are declared.  A collection
made of another one points at it, always backwards, so following the pointers comes to an end.

## Main definitions

* `Collection` — an entry of the table.
* `Arena`, `Arena.ofTree` — the table, with the iterations that know an index.
* `Arena.anchor?` — the collection with which an entry is aligned index by index.
* `Arena.readyOffset` — from where on an entry is complete.
-/

namespace Declutter

/-- The number of a collection in its arena. -/
abbrev CollectionId := Nat

/-- A collection of a program. -/
structure Collection where
  binding : BindingId
  shape : Shape
  derivation : Derivation
  /-- The collection it was made of. -/
  origin : Option CollectionId
  callback : Option NodeId
  /-- The loop that fills it. -/
  loop : Option NodeId
  /-- What adds an element in that loop. -/
  populate : Option NodeId
  /-- Whether its elements may be added, removed or replaced later on. -/
  mutated : Bool := false
  /-- The statements `c[i] = v` that mark an element as done, each with the iteration of `i`. -/
  markers : List (NodeId × ZipContext) := []
  /-- What was missing when the usages were inspected. -/
  defect : Option Defect := none
  deriving DecidableEq, Repr, Inhabited

/-- The collections of a program. -/
structure Arena where
  collections : Array Collection
  contexts : List ZipContext
  deriving Repr, Inhabited

/-- The methods that change a collection. -/
def mutatingMethods : List String :=
  ["push", "pop", "shift", "unshift", "splice", "sort", "reverse", "fill", "copyWithin", "set",
    "delete", "clear", "add"]

namespace Collection

/-! ### Origins -/

/-- The position of the collection of a binding among the candidates. -/
def position? (all : List Candidate) (i : BindingId) : Option CollectionId :=
  all.findIdx? (·.binding == i)

/-- The entry of the candidate at a position.  A source that is not declared earlier does not
count. -/
def ofCandidate (all : List Candidate) (c : Candidate) (position : CollectionId) : Collection :=
  match (c.source.bind (position? all)).filter (· < position) with
  | some origin =>
    { binding := c.binding, shape := c.shape, derivation := c.derivation, origin := some origin,
      callback := c.callback, loop := c.loop, populate := c.populate }
  | none =>
    { binding := c.binding, shape := c.shape, derivation := .root, origin := none,
      callback := c.callback, loop := none, populate := none }

/-! ### Mutation -/

/-- What a usage does to the elements of a collection. -/
inductive Touch where
  | harmless
  | mutation
  | marker (subscript : NodeId) (context : ZipContext)
  /-- The usage cannot be judged. -/
  | defect (d : Defect)
  deriving DecidableEq, Repr

/-- The iteration in which a statement `c[i] = v` marks the element of its index. -/
def markerContext? (b : BindingTable) (t : Tree) (contexts : List ZipContext)
    (subscript : NodeId) : Option ZipContext := do
  let assignment ← t.parent? subscript
  let statement ← t.parent? assignment
  let place ← t.child? subscript "index"
  let index ← b.of? place
  if t.kind assignment == .assignment && t.hasField subscript "left" &&
      (t.operator assignment).all (· == "=") && t.kind statement == .expressionStatement &&
      t.kind place == .identifier then
    contexts.find? fun c => c.index == index && (t.ancestors subscript).contains c.body
  else none

/-- Whether an access to a property changes the collection: a call of a mutating method, or an
assignment to the property. -/
def mutatesByMember (t : Tree) (access : NodeId) : Bool :=
  match t.parent? access with
  | none => false
  | some outer =>
    (t.kind outer == .call && t.hasField access "function" &&
      mutatingMethods.contains (((t.child? access "property").map t.text).getD "")) ||
    ((t.kind outer).isAssignment && t.hasField access "left")

/-- Whether an access to an element changes the collection: an assignment to it, a count, or a
deletion. -/
def mutatesBySubscript (t : Tree) (access : NodeId) : Bool :=
  match t.parent? access with
  | none => false
  | some outer =>
    (((t.kind outer).isAssignment || t.kind outer == .update) &&
      t.hasEitherField access "left" "argument") || t.isDeletion outer

/-- What a usage does to the elements of a collection.  The statement that fills the collection
does not count, and only a derived collection can have markers. -/
def touch (b : BindingTable) (t : Tree) (contexts : List ZipContext) (c : Collection)
    (usage : NodeId) : Touch :=
  if c.populate.any (t.ancestors usage).contains then .harmless
  else match t.parent? usage with
    | none => .harmless
    | some access =>
      if !t.hasField usage "object" then .harmless
      else if t.kind access == .member then
        if mutatesByMember t access then .mutation else .harmless
      else if t.kind access == .subscript then
        if c.derivation == .map || c.derivation == .copy then
          if (t.parent? access).isNone then .defect (.absent "kind")
          else match markerContext? b t contexts access with
            | some context => .marker access context
            | none => if mutatesBySubscript t access then .mutation else .harmless
        else if mutatesBySubscript t access then .mutation else .harmless
      else .harmless

/-- What some usages do to the elements of a collection, up to the first that changes it. -/
structure Inspection where
  mutated : Bool := false
  markers : List (NodeId × ZipContext) := []
  defect : Option Defect := none
  deriving DecidableEq, Repr

/-- Whether one of some usages changes a collection, and the markers before the first that does. -/
def inspect (b : BindingTable) (t : Tree) (contexts : List ZipContext) (c : Collection) :
    List Usage → Inspection
  | [] => {}
  | u :: rest =>
    match touch b t contexts c u.node with
    | .mutation => { mutated := true }
    | .defect d => { defect := some d }
    | .harmless => inspect b t contexts c rest
    | .marker subscript context =>
      let found := inspect b t contexts c rest
      { found with markers := (subscript, context) :: found.markers }

/-- An entry with what its usages do to it. -/
def inspected (b : BindingTable) (t : Tree) (contexts : List ZipContext) (c : Collection) :
    Collection :=
  let binding := b.binding c.binding
  if !binding.writes.isEmpty then { c with mutated := true }
  else
    let found := inspect b t contexts c binding.usages
    { c with mutated := found.mutated, markers := found.markers, defect := found.defect }

end Collection

namespace Arena

/-- The arena of a program. -/
def ofTree (b : BindingTable) (t : Tree) : Arena :=
  let all := b.candidates t
  let contexts := b.zipContexts t
  let entries := all.zipIdx.map fun (c, position) =>
    (Collection.ofCandidate all c position).inspected b t contexts
  ⟨entries.toArray, contexts⟩

variable (a : Arena)

/-- The numbers of all collections. -/
def ids : List CollectionId := List.range a.collections.size

/-- The collection of a number. -/
def collection (i : CollectionId) : Collection := a.collections.getD i default

/-- The binding of a collection. -/
def bindingOf (b : BindingTable) (i : CollectionId) : Binding :=
  b.binding (a.collection i).binding

/-- What was missing when the collections were inspected. -/
def defect? : Option Defect := a.collections.toList.findSome? (·.defect)

/-- The collection of a binding. -/
def ofBinding? (i : BindingId) : Option CollectionId :=
  a.ids.find? fun c => (a.collection c).binding == i

/-- Whether a collection is aligned with the one it was made of. -/
def isView (i : CollectionId) : Bool :=
  (a.collection i).derivation.preservesIndex && (a.collection i).origin.isSome

/-- The collection at the end of the pointers from `i`, as far as they preserve indices; none if
a collection on the way may change. -/
def anchor? (i : CollectionId) : Option CollectionId :=
  let c := a.collection i
  if c.mutated then none
  else if !c.derivation.preservesIndex then some i
  else match c.origin with
    | none => some i
    | some o => if o < i then anchor? o else some i
termination_by i

/-- The offset from which on a collection holds all its elements: the end of the loop that fills
it, or of its declaration. -/
def readyOffset (b : BindingTable) (t : Tree) (i : CollectionId) : Nat :=
  let c := a.collection i
  (t.span (c.loop.getD (b.binding c.binding).declarationNode)).stop

end Arena

end Declutter
