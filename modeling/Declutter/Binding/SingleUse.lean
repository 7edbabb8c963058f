import Declutter.Binding.Narrowing
import Declutter.Expression.Evaluation
import Declutter.Finding.Basic
import Declutter.Syntax.Statement

/-!
# Single-use bindings

A `const` or `let` that is read once, in the very next statement, can give way to its initial
value, provided that the value is then still evaluated exactly once and in the same order with
respect to everything else.  Each condition that fails is a reason to leave the binding alone.

## Main definitions

* `InlinePolicy` — what the conditions depend on besides the program.
* `Exclusion` — the reasons to leave a binding alone.
* `BindingTable.exclusion?` — the first reason that applies.
* `BindingTable.isSingleUse` — whether none applies.
* `BindingTable.singleUseFinding` — what is reported of such a binding.
-/

namespace Declutter

/-- What the choice of bindings depends on besides the program. -/
structure InlinePolicy where
  /-- The calls without side effects. -/
  pure : List String
  /-- The greatest depth of an initial value. -/
  maxDepth : Nat
  /-- The word that marks a comment as no explanation. -/
  marker : String
  deriving DecidableEq, Repr, Inhabited

/-- Why a binding is left alone. -/
inductive Exclusion where
  | loopHead
  | exported
  | unlisted
  | severalDeclarators
  | destructuring
  | uninitialized
  | typed
  | reassigned
  | narrowed
  | usageCount (count : Nat)
  | notPlainRead
  | notNext
  | tooComplex
  | suspended
  | repeated
  | conditional
  | effectBefore
  | mutableReadBefore
  | shadowed
  | annotated
  deriving DecidableEq, Repr, Inhabited

/-- What is said of a binding that is left alone. -/
def Exclusion.message : Exclusion → String
  | loopHead => "declared in a loop head"
  | exported => "exported"
  | unlisted => "not declared in a statement list"
  | severalDeclarators => "declaration has several declarators"
  | destructuring => "destructuring declaration"
  | uninitialized => "no initializer"
  | typed => "type-annotated declaration"
  | reassigned => "reassigned"
  | narrowed => "type-narrowing subject"
  | usageCount count => s!"{count} usages"
  | notPlainRead => "usage is not a plain read"
  | notNext => "usage is not in the next statement"
  | tooComplex => "initializer too complex"
  | suspended => "await/yield would move into a nested function"
  | repeated => "usage is inside a function or repeated loop part"
  | conditional => "usage is conditionally evaluated"
  | effectBefore => "earlier evaluation has side effects"
  | mutableReadBefore => "earlier evaluation reads mutable state"
  | shadowed => "initializer name is shadowed at the usage"
  | annotated => "annotated by a preceding comment"

namespace Tree

variable (t : Tree)

/-- The number of variables, or patterns, that a statement declares. -/
def declaratorCount (statement : NodeId) : Nat :=
  (t.children statement).countP (t.kind · == .declarator)

/-- Whether a function lies between a node and `stop`. -/
def crossesFunction (i stop : NodeId) : Bool :=
  ((t.ancestors i).takeWhile (· != stop)).any (t.kind · == .function)

/-- Whether an expression suspends the function it stands in. -/
def suspends (i : NodeId) : Bool := t.containsKind i fun kind => kind == .yield || kind == .await

/-- Whether a comment that explains something stands directly above a statement. -/
def isAnnotated (marker : String) (statement : NodeId) : Bool :=
  (t.commentEndingOn? ((t.span statement).first.line - 1)).any fun c =>
    !Text.contains c.text marker

end Tree

namespace BindingTable

variable (b : BindingTable) (t : Tree) (policy : InlinePolicy)

/-- Why the form of a declaration does not allow to inline it, if so; `declaration`, `declarator`
and `value` are the statement, the part of it that declares the binding, and the initial value. -/
def shapeExclusion? (i : BindingId) (declaration declarator : NodeId) : Option Exclusion :=
  let binding := b.binding i
  if binding.exported then some .exported
  else if !t.isListed declaration then some .unlisted
  else if t.declaratorCount declaration != 1 then some .severalDeclarators
  else if t.kind binding.nameNode != .identifier ||
      t.child? declarator "name" != some binding.nameNode then some .destructuring
  else if binding.initializer.isNone then some .uninitialized
  else if (t.child? declarator "type").isSome then some .typed
  else if !binding.writes.isEmpty then some .reassigned
  else if b.isNarrowed t i then some .narrowed
  else none

/-- Whether a name in an initial value means something else at the usage.  A name that the value
itself declares moves along with it. -/
def isShadowedAt (value usage : NodeId) : Bool :=
  (t.subtree value).any fun n =>
    (t.kind n == .identifier || t.kind n == .shorthandProperty) &&
      !((b.of? n).any fun here => t.isWithin (b.binding here).nameNode value) &&
      b.of? n != b.resolve? t (t.text n) (t.scopeOf usage)

/-- Why something evaluated before the usage forbids to move a value past it, if so. -/
def precedenceExclusion? (valueIsPure : Bool) (earlier : NodeId) : Option Exclusion :=
  if t.hasSideEffects policy.pure earlier then some .effectBefore
  else if !valueIsPure && !t.readsOnlyStable b.kindOf? earlier then some .mutableReadBefore
  else none

/-- Why the order of evaluation does not allow to move a value to a usage in the next statement,
if so. -/
def orderExclusion? (value usage next : NodeId) : Option Exclusion :=
  match t.evaluationPath? usage next with
  | none => some .repeated
  | some path =>
    let trivial := t.isTriviallyPure value
    if path.conditional && !trivial then some .conditional
    else
      let valueIsPure := trivial || !t.hasSideEffects policy.pure value
      path.preceding.findSome? (b.precedenceExclusion? t policy valueIsPure)

/-- Why the value of a declaration cannot be moved to its one usage, if so. -/
def moveExclusion? (declaration value usage : NodeId) : Option Exclusion :=
  match (t.nextStatement? declaration).filter (t.isWithin usage) with
  | none => some .notNext
  | some next =>
    if policy.maxDepth < t.expressionDepth value then some .tooComplex
    else if t.suspends value && t.crossesFunction usage next then some .suspended
    else (b.orderExclusion? t policy value usage next).or <|
      if b.isShadowedAt t value usage then some .shadowed
      else if t.isAnnotated policy.marker declaration then some .annotated
      else none

/-- Why the usages of a binding do not allow to inline it, if so. -/
def usageExclusion? (i : BindingId) (declaration value : NodeId) : Option Exclusion :=
  match (b.binding i).usages with
  | [u] =>
    if u.plainRead then b.moveExclusion? t policy declaration value u.node
    else some .notPlainRead
  | usages => some (.usageCount usages.length)

/-- The first reason to leave a binding alone, if there is any.  Only a `const` or a `let` has
reasons; what else is declared is no candidate to begin with. -/
def exclusion? (i : BindingId) : Option Exclusion :=
  let binding := b.binding i
  match binding.declaration, binding.declarator with
  | some declaration, some declarator =>
    (b.shapeExclusion? t i declaration declarator).or <|
      binding.initializer.bind (b.usageExclusion? t policy i declaration)
  | _, _ => some .loopHead

/-- Whether a binding is a candidate for inlining. -/
def isCandidate (i : BindingId) : Bool :=
  (b.binding i).kind == .const || (b.binding i).kind == .let

/-- Whether a binding can give way to its initial value. -/
def isSingleUse (i : BindingId) : Bool := b.isCandidate i && b.exclusion? t policy i == none

/-- The bindings that can give way to their initial values. -/
def singleUse : List BindingId := b.ids.filter (b.isSingleUse t policy)

/-- The place where a single-use binding is read. -/
def soleRead? (i : BindingId) : Option NodeId := (b.binding i).reads.head?.map (·.node)

/-- The finding about a single-use binding that is read at `usage`. -/
def singleUseFindingAt (i : BindingId) (usage : NodeId) : Finding :=
  let binding := b.binding i
  let read := t.span usage
  { rule := .singleUse
    primary := t.span binding.declarationNode
    rationale := s!"'{binding.name}' is read exactly once, in the next statement; " ++
      s!"its initializer can be inlined at line {read.first.line}"
    symbol := binding.name
    referenced := [read] }

/-- The finding about a single-use binding. -/
def singleUseFinding (i : BindingId) : Except Defect Finding :=
  (Defect.exhausted.fetch (b.soleRead? i)).map (b.singleUseFindingAt t i)

end BindingTable

end Declutter
