import Declutter.Collection.EarlyExit
import Declutter.Collection.Iteration
import Declutter.Sort

/-!
# Where collections come from

A collection may start out empty, be derived from another one element by element, or be filled by
a loop over another one.  The initial value of a variable tells which.

## Main definitions

* `Shape`, `Derivation` — what a collection is and how it was made.
* `BindingTable.construction?` — what an initial value makes.
* `BindingTable.filling?` — the loop that fills an empty collection.
* `Candidate`, `BindingTable.candidates` — the collections of a program.
-/

namespace Declutter

/-- What sort of collection a variable holds. -/
inductive Shape where
  | sequence
  | record
  | map
  deriving DecidableEq, Repr, Inhabited

/-- The name of a shape. -/
def Shape.name : Shape → String
  | sequence => "sequence"
  | record => "record"
  | map => "map"

/-- How a collection was made of another one. -/
inductive Derivation where
  /-- It was not. -/
  | root
  | map
  | copy
  /-- One element was added for each element of the other. -/
  | append
  | slice
  | filter
  | flatMap
  deriving DecidableEq, Repr, Inhabited

namespace Derivation

/-- The name of a derivation. -/
def name : Derivation → String
  | root => "root"
  | map => "map"
  | copy => "copy"
  | append => "append"
  | slice => "slice"
  | filter => "filter"
  | flatMap => "flatMap"

/-- Whether matching elements have matching indices. -/
def preservesIndex : Derivation → Bool
  | map | copy | append => true
  | _ => false

end Derivation

/-- What an initial value makes. -/
inductive Construction where
  | empty (shape : Shape)
  | derived (derivation : Derivation) (source : BindingId) (callback : Option NodeId)
  deriving DecidableEq, Repr, Inhabited

/-- A loop that fills a collection. -/
structure Filling where
  source : BindingId
  /-- The loop, or the call of a method with a callback. -/
  loop : NodeId
  /-- The statement, or the body of the callback, that adds an element. -/
  populate : NodeId
  deriving DecidableEq, Repr, Inhabited

/-- A variable that holds a collection, and how the collection was made. -/
structure Candidate where
  binding : BindingId
  shape : Shape := .sequence
  derivation : Derivation := .root
  source : Option BindingId := none
  callback : Option NodeId := none
  loop : Option NodeId := none
  populate : Option NodeId := none
  deriving DecidableEq, Repr, Inhabited

namespace BindingTable

variable (b : BindingTable) (t : Tree)

/-! ### Initial values -/

/-- What an array in brackets makes: an empty sequence, or a copy. -/
def arrayConstruction? (items : List NodeId) : Option Construction :=
  match items with
  | [] => some (.empty .sequence)
  | [item] =>
    if t.kind item == .spread then
      ((t.children item).head?.bind (b.sourceOf? t)).map fun source =>
        .derived .copy source none
    else none
  | _ => none

/-- What `Array.from` makes of its arguments. -/
def fromConstruction? (arguments : List NodeId) : Option Construction :=
  match arguments with
  | [] => none
  | first :: rest =>
    if t.kind first == .spread then none
    else
      (b.sourceOf? t first).bind fun source =>
        match rest with
        | [] => some (.derived .copy source none)
        | [callback] => some (.derived .map source (t.asFunction? callback))
        | _ => none

/-- What a method makes of a collection. -/
def methodConstruction? (source : BindingId) (method : String) (arguments : List NodeId) :
    Option Construction :=
  match method, arguments with
  | "map", [argument] =>
    if t.kind argument == .spread then none
    else some (.derived .map source (t.asFunction? argument))
  | "slice", [] => some (.derived .copy source none)
  | "slice", _ => some (.derived .slice source none)
  | "filter", _ => some (.derived .filter source none)
  | "flatMap", _ => some (.derived .flatMap source none)
  | _, _ => none

/-- What a call makes. -/
def callConstruction? (i : NodeId) : Option Construction :=
  (t.call? i).bind fun parts =>
    parts.receiver.bind fun receiver =>
      if t.kind receiver == .identifier && t.text receiver == "Array" && parts.name == "from" then
        b.fromConstruction? t parts.arguments
      else
        (b.sourceOf? t receiver).bind fun source =>
          methodConstruction? t source parts.name parts.arguments

/-- What an initial value makes, if it is a collection. -/
def construction? (initializer : NodeId) : Option Construction :=
  let i := t.stripped initializer
  match t.kind i with
  | .array => b.arrayConstruction? t (t.children i)
  | .object => if (t.children i).isEmpty then some (.empty .record) else none
  | .newExpression =>
    if (t.child? i "constructor").any (t.text · == "Map") &&
        (t.child? i "arguments").all (fun a => (t.children a).isEmpty) then
      some (.empty .map)
    else none
  | _ => b.callConstruction? t i

/-! ### Filling an empty collection -/

/-- The arguments of a call, if they are written in parentheses and none is spread. -/
def fixedArguments? (call : NodeId) : Option (List NodeId) :=
  match t.child? call "arguments" with
  | some a =>
    if t.kind a == .arguments && (t.children a).all (t.kind · != .spread) then
      some (t.children a)
    else none
  | none => none

/-- Whether a usage adds an element to a collection: `c.push(v)` for a sequence, `c.set(k, v)` for
a map, `c[k] = v` for a record. -/
def adds (shape : Shape) (i : NodeId) : Bool :=
  match t.parent? i with
  | none => false
  | some access =>
    if !t.hasField i "object" then false
    else match t.parent? access with
      | none => false
      | some outer =>
        match t.kind access, shape with
        | .member, shape =>
          t.kind outer == .call && t.hasField access "function" &&
            match t.child? access "property", fixedArguments? t outer with
            | some method, some arguments =>
              (shape == .sequence && t.text method == "push" && arguments.length == 1) ||
                (shape == .map && t.text method == "set" && arguments.length == 2)
            | _, _ => false
        | .subscript, .record => t.kind outer == .assignment && t.hasField access "left"
        | _, _ => false

/-- The call `source.forEach(f)` of which a function is the callback, with its source. -/
def callbackIteration? (function : NodeId) : Option (NodeId × BindingId) := do
  let arguments ← t.parent? function
  let call ← t.parent? arguments
  if t.kind arguments == .arguments && (t.children arguments).head? == some function then
    let parts ← t.call? call
    let receiver ← parts.receiver
    let source ← b.sourceOf? t receiver
    if parts.name == "forEach" then some (call, source) else none
  else none

/-- The loop that runs a statement exactly once for each element of a collection. -/
def enclosingIteration? (statement : NodeId) : Option (NodeId × BindingId) := do
  let body ← t.parent? statement
  let owner ← t.parent? body
  if t.kind body == .block && t.hasField body "body" && !t.hasEarlyExit body then
    match t.kind owner with
    | .forInStatement =>
      if t.operator owner == some "of" then
        let source ← (t.child? owner "right").bind (b.sourceOf? t)
        some (owner, source)
      else none
    | .forStatement =>
      let context ← b.indexLoop? t owner
      some (owner, context.collection)
    | .function => b.callbackIteration? t owner
    | _ => none
  else none

/-- The loop in which an expression adds an element, its source, and what is done there. -/
def fillingAt? (expression : NodeId) : Option Filling :=
  match t.parent? expression with
  | none => none
  | some outer =>
    if t.kind outer == .function && t.hasField expression "body" then
      (b.callbackIteration? t outer).map fun (loop, source) => ⟨source, loop, expression⟩
    else if t.kind outer == .expressionStatement then
      (b.enclosingIteration? t outer).map fun (loop, source) => ⟨source, loop, outer⟩
    else none

/-- Whether a loop runs after the declaration of a collection and in the same function. -/
def precedes (i : BindingId) (loop : NodeId) : Bool :=
  (b.binding i).declaration.any (fun d => (t.span d).stop ≤ (t.span loop).start) &&
    t.functionScope (b.binding i).scope == t.functionScope (t.scopeOf loop)

/-- The loop that fills an empty collection, adding one element each time it runs. -/
def filling? (i : BindingId) (shape : Shape) : Option Filling :=
  let binding := b.binding i
  if !binding.writes.isEmpty then none
  else match binding.usages.filter fun u => adds t shape u.node with
    | [u] =>
      let expression := (t.parent? u.node).bind t.parent?
      (expression.bind (b.fillingAt? t)).filter fun f => f.source != i && b.precedes t i f.loop
    | _ => none

/-! ### Candidates -/

/-- The collection that a variable holds, if its initial value is one. -/
def candidate? (i : BindingId) : Option Candidate :=
  let binding := b.binding i
  let kind := binding.kind
  if kind == .const || kind == .let || kind == .var then
    (binding.initializer.bind (b.construction? t)).map fun
      | .derived derivation source callback =>
        { binding := i, derivation, source := some source, callback }
      | .empty shape =>
        match b.filling? t i shape with
        | some f =>
          { binding := i, shape, derivation := .append, source := some f.source,
            loop := some f.loop, populate := some f.populate }
        | none => { binding := i, shape }
  else none

end BindingTable

namespace Candidate

/-- The candidates with one more, which takes the place of another one of the same variable. -/
def insert (new : Candidate) : List Candidate → List Candidate
  | [] => [new]
  | c :: rest => if c.binding == new.binding then new :: rest else c :: insert new rest

/-- The candidates with the source of one of them, unless it is there already. -/
def insertSource (c : Candidate) (all : List Candidate) : List Candidate :=
  match c.source with
  | none => all
  | some source =>
    if all.any (·.binding == source) then all else all ++ [{ binding := source }]

end Candidate

/-- The collections of a program: the variables whose initial value is one, and the sources of
these, in the order in which they are declared. -/
def BindingTable.candidates (b : BindingTable) (t : Tree) : List Candidate :=
  let found := (b.ids.filterMap (b.candidate? t)).foldl
    (fun all c => c.insertSource (c.insert all)) []
  let start (c : Candidate) := (t.span (b.binding c.binding).nameNode).start
  sortBy (fun c d => start c ≤ start d) found

end Declutter
