import Declutter.Binding.Reference
import Declutter.Text.Capital

/-!
# Type narrowing

A chain of conditions that tests the type or shape of one variable narrows its type branch by
branch.  Such a variable earns its name: replaced by its initial value, it would narrow nothing.

## Main definitions

* `ConditionChain`, `Tree.conditionChains` — the conditionals of a program.
* `Tree.typeTestSubject?` — the expression whose type or shape a node tests.
* `BindingTable.isNarrowed` — whether conditions narrow the type of a binding.
-/

namespace Declutter

/-- The conditions of a conditional, one after the other, and the branches they choose from. -/
structure ConditionChain where
  conditions : List NodeId
  branches : List NodeId
  deriving DecidableEq, Repr, Inhabited

/-- The functions that test the type of their argument but are not named `is…`. -/
def typeGuards : List String :=
  ["Array.isArray", "Number.isInteger", "Number.isFinite", "Number.isNaN"]

/-- Whether the text of a callee names a test of its argument: a known type guard, or a name made
of `is` and a capitalised word. -/
def isTypeGuardName (callee : String) : Bool :=
  typeGuards.contains callee ||
    match (Text.afterLast '.' callee).toList with
    | 'i' :: 's' :: c :: _ => Text.isCapital c
    | _ => false

namespace Tree

variable (t : Tree)

/-! ### Conditionals -/

/-- What follows the `else` of a conditional. -/
def otherwise? (i : NodeId) : Option NodeId :=
  (t.child? i "alternative").map fun other =>
    if t.kind other == .elseClause then (t.children other).head?.getD other else other

/-- The conditional that follows the `else` of another one. -/
def elseIf? (i : NodeId) : Option NodeId :=
  (t.otherwise? i).filter (t.kind · == .ifStatement)

/-- The conditions and branches of a conditional and of those in its `else` branches. -/
def ifChain (i : NodeId) : ConditionChain :=
  let links := t.descent t.elseIf? i
  { conditions := links.filterMap (t.child? · "condition")
    branches := links.flatMap fun link =>
      (t.child? link "consequence").toList ++
        ((t.otherwise? link).filter (t.kind · != .ifStatement)).toList }

/-- The chain of conditions that begins at a node. -/
def conditionChain? (i : NodeId) : Option ConditionChain :=
  match t.kind i with
  | .ifStatement => if t.parentKind? i == some .elseClause then none else some (t.ifChain i)
  | .ternary =>
    (t.child? i "condition").map fun condition =>
      ⟨[condition], (t.child? i "consequence").toList ++ (t.child? i "alternative").toList⟩
  | .switchStatement =>
    match t.child? i "value", t.child? i "body" with
    | some value, some body => some ⟨[value], (t.children body).filter (t.kind · == .switchCase)⟩
    | _, _ => none
  | _ => none

/-- The chains of conditions of a program. -/
def conditionChains : List ConditionChain := t.ids.filterMap t.conditionChain?

/-! ### Type tests -/

/-- The argument of a call that tests its one argument. -/
def guardSubject? (i : NodeId) : Option NodeId :=
  match t.child? i "function", t.child? i "arguments" with
  | some callee, some arguments =>
    match t.children arguments with
    | [argument] =>
      if isTypeGuardName (Text.withoutBlanks (t.text callee)) then some argument else none
    | _ => none
  | _, _ => none

/-- The expression whose type or shape a node tests: the operand of `typeof`, the left side of
`instanceof`, the right side of `in`, an object one of whose properties is compared, and the
argument of a type guard. -/
def typeTestSubject? (i : NodeId) : Option NodeId :=
  match t.kind i, t.operator i with
  | .unary, some "typeof" => t.child? i "argument"
  | .binary, some "instanceof" => t.child? i "left"
  | .binary, some "in" => t.child? i "right"
  | .binary, some operator =>
    if ["===", "==", "!==", "!="].contains operator then
      match t.child? i "left" with
      | some left => if t.kind left == .member then t.child? left "object" else none
      | none => none
    else none
  | .call, _ => t.guardSubject? i
  | _, _ => none

/-- The text of the first expression whose type or shape a condition tests. -/
def testedText? (condition : NodeId) : Option String :=
  ((t.subtree condition).findSome? t.typeTestSubject?).map t.text

end Tree

namespace BindingTable

variable (b : BindingTable) (t : Tree)

/-- Whether a condition tests the type or shape of a binding. -/
def tests (condition : NodeId) (i : BindingId) : Bool :=
  (t.subtree condition).any fun n =>
    (t.typeTestSubject? n).any fun subject =>
      t.kind subject == .identifier && b.of? subject == some i

/-- Whether all conditions of a chain test one and the same expression. -/
def testsOneSubject (chain : ConditionChain) : Bool :=
  match chain.conditions.map t.testedText? with
  | some subject :: rest => rest.all (· == some subject)
  | _ => false

/-- The number of branches in which a binding is used. -/
def branchesUsing (chain : ConditionChain) (i : BindingId) : Nat :=
  chain.branches.countP fun branch =>
    (b.binding i).usages.any fun u => t.isWithin u.node branch

/-- Whether conditions narrow the type of a binding: two conditions of a chain test it, or a chain
tests one expression and the binding is used in two of its branches. -/
def isNarrowed (i : BindingId) : Bool :=
  t.conditionChains.any fun chain =>
    2 ≤ chain.conditions.countP (b.tests t · i) ||
      (testsOneSubject t chain && 2 ≤ b.branchesUsing t chain i)

end BindingTable

end Declutter
