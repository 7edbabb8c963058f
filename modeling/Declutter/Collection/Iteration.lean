import Declutter.Binding.Reference
import Declutter.Syntax.Statement

/-!
# Iterations with an index

A loop that counts an index up to the length of a collection, or a method that hands its callback
the index beside the element, visits each index of the collection once.  Another collection read
at that index is zipped with the first.

## Main definitions

* `Tree.stripped` — an expression without parentheses and type assertions.
* `Tree.functionParameters` — the parameters of a function, without their types.
* `ZipContext` — an iteration over a collection that knows the index.
* `BindingTable.zipContexts` — the iterations of a program.
* `BindingTable.indexedAccesses` — the elements read at the index.
-/

namespace Declutter

namespace Tree

variable (t : Tree)

/-- What stands within parentheses or a type assertion. -/
def wrapped? (i : NodeId) : Option NodeId :=
  if t.kind i == .parenthesized || t.kind i == .typeExpression then
    (t.children i).find? (t.kind · != .type)
  else none

/-- An expression without the parentheses and type assertions around it. -/
def stripped (i : NodeId) : NodeId := t.bottom t.wrapped? i

/-- What a parameter declares, without its type; a mere type declares nothing. -/
def parameterPattern? (i : NodeId) : Option NodeId :=
  if t.type i == "required_parameter" || t.type i == "optional_parameter" then
    some ((t.child? i "pattern").getD i)
  else if t.kind i == .type then none
  else some i

/-- The parameters of a function. -/
def functionParameters (i : NodeId) : List NodeId :=
  match t.child? i "parameter", t.child? i "parameters" with
  | some single, _ => [single]
  | none, some list => (t.children list).filterMap t.parameterPattern?
  | none, none => []

/-- A node if it is a function. -/
def asFunction? (i : NodeId) : Option NodeId := if t.kind i == .function then some i else none

end Tree

/-- How an iteration knows the index. -/
inductive Indexing where
  /-- A loop that compares the index with a length, the node `length`. -/
  | loop (length : NodeId)
  /-- A method that passes the index to its callback. -/
  | callback (method : String) (receiver function : NodeId)
  deriving DecidableEq, Repr, Inhabited

/-- An iteration over a collection that knows the index of each element. -/
structure ZipContext where
  /-- The loop, or the call of the method. -/
  node : NodeId
  collection : BindingId
  /-- The binding that holds the index. -/
  index : BindingId
  /-- What is done for each element. -/
  body : NodeId
  indexing : Indexing
  deriving DecidableEq, Repr, Inhabited

/-- The methods that pass an index to their callback. -/
def indexedMethods : List String :=
  ["forEach", "map", "some", "every", "find", "findIndex", "filter"]

namespace BindingTable

variable (b : BindingTable) (t : Tree)

/-- The binding that an expression names, if it is a name. -/
def sourceOf? (i : NodeId) : Option BindingId :=
  let inner := t.stripped i
  if t.kind inner == .identifier then b.of? inner else none

/-! ### Loops -/

/-- The name that a loop head starts at zero. -/
def counter? (initializer : NodeId) : Option BindingId :=
  match t.kind initializer, t.children initializer with
  | .variableDeclaration, [declarator] =>
    match t.child? declarator "name", t.child? declarator "value" with
    | some name, some value => if t.text value == "0" then b.of? name else none
    | _, _ => none
  | _, _ => none

/-- The access to a length below which a test keeps the index. -/
def lengthBound? (index : BindingId) (condition : NodeId) : Option NodeId :=
  let test :=
    if t.kind condition == .expressionStatement then (t.children condition).head?.getD condition
    else condition
  if t.kind test == .binary && t.operator test == some "<" then
    match t.child? test "left", t.child? test "right" with
    | some left, some right =>
      if b.of? left == some index && t.kind right == .member && !t.optionalLink right &&
          (t.child? right "property").any (t.text · == "length") then some right
      else none
    | _, _ => none
  else none

/-- Whether an expression counts the index up by one, and nothing else assigns to it. -/
def isIncrement (index : BindingId) (increment : NodeId) : Bool :=
  let name := (b.binding index).name
  [name ++ "++", "++" ++ name, name ++ "+=1"].contains
      (Text.withoutBlanks (t.text increment)) &&
    (b.binding index).writes.all fun u => t.isWithin u.node increment

/-- The iteration of a loop `for (let i = 0; i < c.length; i++)` whose body leaves `i` alone. -/
def indexLoop? (loop : NodeId) : Option ZipContext := do
  let initializer ← t.child? loop "initializer"
  let condition ← t.child? loop "condition"
  let increment ← t.child? loop "increment"
  let body ← t.child? loop "body"
  let index ← b.counter? t initializer
  let length ← b.lengthBound? t index condition
  let collection ← (t.child? length "object").bind (b.sourceOf? t)
  if b.isIncrement t index increment then
    some { node := loop, collection, index, body, indexing := .loop length }
  else none

/-! ### Callbacks -/

/-- The iteration of a method call whose callback takes the index and leaves it alone. -/
def indexedCallback? (call : NodeId) : Option ZipContext := do
  let parts ← t.call? call
  let receiver ← parts.receiver
  let function ← parts.arguments.head?.bind t.asFunction?
  let collection ← b.sourceOf? t receiver
  let parameter ← (t.functionParameters function)[1]?
  let index ← b.of? parameter
  let body ← t.child? function "body"
  if indexedMethods.contains parts.name && t.kind parameter == .identifier &&
      (b.binding index).writes.isEmpty then
    some { node := call, collection, index, body,
           indexing := .callback parts.name (t.stripped receiver) function }
  else none

/-! ### All iterations -/

/-- The iteration at a node. -/
def zipContext? (i : NodeId) : Option ZipContext :=
  match t.kind i with
  | .forStatement => b.indexLoop? t i
  | .call => b.indexedCallback? t i
  | _ => none

/-- The iterations of a program that know the index. -/
def zipContexts : List ZipContext := t.ids.filterMap (b.zipContext? t)

/-- The collection of which a node reads the element at an index. -/
def accessedAt? (index : BindingId) (i : NodeId) : Option BindingId :=
  if t.kind i == .subscript then
    match t.child? i "object", t.child? i "index" with
    | some object, some place =>
      if t.kind object == .identifier && t.kind place == .identifier && b.of? place == some index then
        b.of? object
      else none
    | _, _ => none
  else none

/-- The accesses in the body of an iteration to elements at its index, each with the collection
that is accessed. -/
def indexedAccesses (context : ZipContext) : List (NodeId × BindingId) :=
  (t.subtree context.body).filterMap fun n =>
    (b.accessedAt? t context.index n).map fun c => (n, c)

end BindingTable

end Declutter
