import Declutter.Syntax.Tree
import Declutter.Text.Blank

/-!
# Effects of expressions

Three questions about an expression, each answered on the safe side: can its evaluation have an
effect, can it observe or change the state of the program at all, and does it read only values
that no other evaluation can change?  A call counts as free of effects only when its callee is
listed as pure.

## Main definitions

* `Tree.isPureCall` — whether a call is listed as pure.
* `Tree.hasSideEffects`, `Tree.isTriviallyPure`, `Tree.readsOnlyStable` — the three questions.
* `Tree.expressionDepth` — how deeply operators and calls are nested.
-/

namespace Declutter

/-- How a name was declared. -/
inductive BindingKind where
  | const
  | «let»
  | var
  | param
  | function
  | «class»
  | handler
  | «import»
  /-- A declaration with a keyword of its own. -/
  | keyword (word : String)
  deriving DecidableEq, Repr, Inhabited

namespace BindingKind

/-- The name of a kind of declaration. -/
def name : BindingKind → String
  | const => "const"
  | «let» => "let"
  | var => "var"
  | param => "param"
  | function => "function"
  | «class» => "class"
  | handler => "catch"
  | «import» => "import"
  | keyword word => word

/-- The kind of declaration that a keyword makes. -/
def ofKeyword (word : String) : BindingKind :=
  if word == "const" then const
  else if word == "let" then «let»
  else if word == "var" then var
  else keyword word

/-- Whether a name of this kind keeps its value. -/
def isStable : BindingKind → Bool
  | const | function | «class» | «import» => true
  | _ => false

end BindingKind

/-- The names of the global environment that no sensible program rebinds. -/
def stableGlobals : List String :=
  ["undefined", "NaN", "Infinity", "Math", "JSON", "Object", "Array", "String", "Number",
    "Boolean", "Symbol", "BigInt", "Date", "RegExp", "Map", "Set", "Promise", "Reflect",
    "console", "window", "document", "globalThis"]

namespace Kind

/-- The expressions whose evaluation always counts as an effect. -/
def isEffectful : Kind → Bool
  | .assignment | .augmentedAssignment | .update | .await | .yield | .jsx => true
  | _ => false

/-- The parts of an expression that neither observe nor change the state of the program. -/
def isTrivial : Kind → Bool
  | .literal | .identifier | .this | .unary | .binary | .ternary | .parenthesized | .template
  | .templateSubstitution | .array | .object | .pair | .shorthandProperty | .propertyName
  | .typeExpression | .type | .spread => true
  | _ => false

/-- The expressions whose value may depend on the state of the program. -/
def readsState : Kind → Bool
  | .call | .newExpression | .subscript | .this | .function | .await | .yield | .jsx => true
  | _ => false

/-- The constructs that do not add to the depth of an expression. -/
def isPassthrough : Kind → Bool
  | .parenthesized | .member | .subscript | .arguments | .templateSubstitution | .pair
  | .typeExpression => true
  | _ => false

end Kind

namespace Tree

variable (t : Tree)

/-! ### Calls -/

/-- What a call or a `new` expression applies. -/
def callee? (i : NodeId) : Option NodeId :=
  if t.kind i == .call then t.child? i "function" else t.child? i "constructor"

/-- The callee as text without blanks; nothing if there is no callee. -/
def calleeName (i : NodeId) : String :=
  match t.callee? i with
  | some callee => Text.withoutBlanks (t.text callee)
  | none => ""

/-- Whether a call is listed as pure: by the text of its callee, or by `.` and the name of the
method when the callee is a member. -/
def isPureCall (pure : List String) (i : NodeId) : Bool :=
  let name := t.calleeName i
  if name == "" then false
  else if pure.contains name then true
  else if (t.callee? i).any (t.kind · == .member) then
    let method := (Text.afterLast '.' name).toList.dropWhile (· == '?')
    pure.contains (String.ofList ('.' :: method))
  else false

/-- Whether a node deletes a property. -/
def isDeletion (i : NodeId) : Bool := t.kind i == .unary && t.operator i == some "delete"

/-! ### Side effects -/

/-- Whether a node, apart from those below it, may have an effect. -/
def isEffectfulAt (pure : List String) (i : NodeId) : Bool :=
  (t.kind i).isEffectful || t.isDeletion i ||
    ((t.kind i == .call || t.kind i == .newExpression) && !t.isPureCall pure i)

/-- Whether an evaluation may have side effects.  The bodies of functions count too, since a
function passed to a pure method is still called. -/
def hasSideEffects (pure : List String) (i : NodeId) : Bool :=
  (t.subtree i).any (t.isEffectfulAt pure)

/-! ### Trivial purity -/

/-- Whether a node, apart from those below it, is trivially pure: a function, which is not
entered, or a trivial part that neither deletes a property nor is the template of a tag. -/
def isTrivialAt (i : NodeId) : Bool :=
  t.kind i == .function ||
    (!t.isDeletion i && !(t.kind i == .template && t.parentKind? i == some .call) &&
      (t.kind i).isTrivial)

/-- Whether an expression consists of literals, names and operators only, so that its evaluation
neither observes nor changes the state of the program. -/
def isTriviallyPure (i : NodeId) : Bool :=
  (t.visited (t.kind · == .function) i).all t.isTrivialAt

/-! ### Stable reads -/

/-- Whether a name keeps its value: declared by a stable declaration, or a stable global. -/
def isStableName (lookup : NodeId → Option BindingKind) (i : NodeId) : Bool :=
  match lookup i with
  | some kind => kind.isStable
  | none => stableGlobals.contains (t.text i)

/-- The object of a member expression without an optional link. -/
def plainObject? (i : NodeId) : Option NodeId :=
  if t.kind i == .member && !t.optionalLink i then t.child? i "object" else none

/-- Whether a chain of properties starts at a stable global or an imported name. -/
def isGlobalChain (lookup : NodeId → Option BindingKind) (i : NodeId) : Bool :=
  let root := t.bottom t.plainObject? i
  t.kind root == .identifier &&
    match lookup root with
    | some kind => kind == .import
    | none => stableGlobals.contains (t.text root)

/-- The nodes at which reading ends: names and member expressions. -/
def endsRead (i : NodeId) : Bool :=
  t.kind i == .identifier || t.kind i == .shorthandProperty || t.kind i == .member

/-- Whether the value of a node, apart from those below it, cannot be changed by another
evaluation. -/
def isStableAt (lookup : NodeId → Option BindingKind) (i : NodeId) : Bool :=
  if t.kind i == .identifier || t.kind i == .shorthandProperty then t.isStableName lookup i
  else if t.kind i == .member then t.isGlobalChain lookup i
  else !(t.kind i).readsState

/-- Whether an expression reads only values that no other evaluation can change. -/
def readsOnlyStable (lookup : NodeId → Option BindingKind) (i : NodeId) : Bool :=
  (t.visited t.endsRead i).all (t.isStableAt lookup)

/-! ### Depth -/

/-- How many operators, calls and operands lie on the way from `i` up to `top`. -/
def depthBetween (i top : NodeId) : Nat :=
  (t.pathUp i top).countP fun n => !(t.kind n).isPassthrough

/-- The nesting depth of operators and calls; chains of properties and parentheses add nothing,
and functions are not entered. -/
def expressionDepth (i : NodeId) : Nat :=
  ((t.visited (t.kind · == .function) i).map (t.depthBetween · i)).foldl max 0

end Tree

end Declutter
