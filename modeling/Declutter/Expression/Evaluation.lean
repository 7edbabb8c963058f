import Declutter.Syntax.Tree

/-!
# Order of evaluation

What a statement evaluates before it comes to one of its parts, and whether it comes to it at all.
The answer is read off the way from the part up to the statement: at each step the siblings to the
left are evaluated first, and the construct may evaluate the part only under a condition, or more
than once, or not as part of the statement at all.

## Main definitions

* `Tree.hasOptionalChain` — whether an optional link may cut an access short.
* `Tree.isRepeatedAt`, `Tree.isConditionalAt`, `Tree.evaluatedBefore` — the three aspects of a
  step.
* `EvaluationPath`, `Tree.evaluationPath?` — the whole way.
-/

namespace Declutter

/-- What happens before a statement comes to one of its parts. -/
structure EvaluationPath where
  /-- The parts evaluated first, from the nearest ones outward. -/
  preceding : List NodeId
  /-- Whether the part is evaluated only under a condition. -/
  conditional : Bool
  deriving DecidableEq, Repr, Inhabited

namespace Kind

/-- Calls and accesses, the links of a chain. -/
def isChainLink : Kind → Bool
  | .call | .member | .subscript => true
  | _ => false

/-- The constructs whose parts may be passed over. -/
def isSkippable : Kind → Bool
  | .switchCase | .switchBody | .tryStatement | .catchClause | .finallyClause | .pattern => true
  | _ => false

end Kind

namespace Tree

variable (t : Tree)

/-- The object or callee of a call or an access. -/
def chainObject? (i : NodeId) : Option NodeId :=
  if (t.kind i).isChainLink then (t.child? i "function").or (t.child? i "object") else none

/-- Whether some link of a chain of calls and accesses is optional. -/
def hasOptionalChain (i : NodeId) : Bool :=
  (t.descent t.chainObject? i).any fun n => (t.kind n).isChainLink && t.optionalLink n

/-- Whether `parent` evaluates its child any number of times, or leaves it to a later call: the
body of a function or class, and the parts of a loop other than the ones evaluated on entry. -/
def isRepeatedAt (child parent : NodeId) : Bool :=
  let kind := t.kind parent
  (kind == .function && !t.hasField child "name") ||
    kind == .classBody ||
    (kind.isLoop && !((kind == .forInStatement && t.hasField child "right") ||
      (kind == .forStatement && t.hasField child "initializer")))

/-- Whether `parent` evaluates its child only under a condition. -/
def isConditionalAt (child parent : NodeId) : Bool :=
  let operator (words : List String) : Bool := (t.operator parent).any words.contains
  match t.kind parent with
  | .ifStatement | .ternary => t.hasEitherField child "consequence" "alternative"
  | .binary => operator ["&&", "||", "??"] && t.hasField child "right"
  | .augmentedAssignment => operator ["&&=", "||=", "??="] && t.hasField child "right"
  | .call | .subscript | .member =>
    !t.hasEitherField child "function" "object" && t.hasOptionalChain parent
  | kind => kind.isSkippable

/-- Whether a child of `parent` is evaluated, and does not merely name a property, a type or the
target of an assignment. -/
def isEvaluated (child parent : NodeId) : Bool :=
  let kind := t.kind child
  if kind == .type || kind == .propertyName then false
  else if (t.kind parent == .declarator || t.kind parent == .forInStatement) &&
      t.hasEitherField child "name" "left" then
    kind != .identifier && kind != .pattern
  else if t.kind parent == .assignment && t.hasField child "left" then kind != .identifier
  else true

/-- The children of `parent` that are evaluated before `child`. -/
def evaluatedBefore (child parent : NodeId) : List NodeId :=
  ((t.children parent).takeWhile (· != child)).filter (t.isEvaluated · parent)

/-- The steps from a node up to another one, each as a child and its parent. -/
def steps (i top : NodeId) : List (NodeId × NodeId) :=
  let path := t.pathUp i top
  path.zip path.tail

/-- What happens before `statement` comes to its part `i`; nothing if it may come to it more than
once or not as part of its own evaluation. -/
def evaluationPath? (i statement : NodeId) : Option EvaluationPath :=
  if t.isWithin i statement && (t.steps i statement).all fun (c, p) => !t.isRepeatedAt c p then
    some
      { preceding := (t.steps i statement).flatMap fun (c, p) => t.evaluatedBefore c p
        conditional := (t.steps i statement).any fun (c, p) => t.isConditionalAt c p }
  else none

end Tree

end Declutter
