import Declutter.Syntax.Tree
import Declutter.Text.Alphanumeric
import Declutter.Text.Blank

/-!
# Precedence

An expression that takes the place of another one needs parentheses when it binds less tightly
than its new place demands.  The levels follow the grammar of expressions; a higher one binds more
tightly.

## Main definitions

* `binaryPrecedence`, `Tree.precedence` — the levels of operators and expressions.
* `Tree.needsParentheses` — whether an expression has to be wrapped at a place.
* `startsStatementAmbiguously` — whether a text cannot open a statement as an expression.
-/

namespace Declutter

namespace Precedence

def sequence : Nat := 1
def assignment : Nat := 2
def conditional : Nat := 3
def coalesce : Nat := 4
def logicalAnd : Nat := 5
def relational : Nat := 10
def unary : Nat := 15
def update : Nat := 16
/-- A `new` expression without arguments. -/
def bareNew : Nat := 17
def call : Nat := 18
def primary : Nat := 20

end Precedence

/-- The levels of the binary operators. -/
def binaryPrecedenceTable : List (String × Nat) := [
    ("??", Precedence.coalesce), ("||", Precedence.coalesce), ("&&", Precedence.logicalAnd),
    ("|", 6), ("^", 7), ("&", 8),
    ("==", 9), ("!=", 9), ("===", 9), ("!==", 9),
    ("<", 10), (">", 10), ("<=", 10), (">=", 10), ("instanceof", 10), ("in", 10),
    ("<<", 11), (">>", 11), (">>>", 11), ("+", 12), ("-", 12),
    ("*", 13), ("/", 13), ("%", 13), ("**", 14)]

/-- The level of a binary operator; an unknown one binds as loosely as any. -/
def binaryPrecedence (operator : String) : Nat :=
  (binaryPrecedenceTable.lookup operator).getD Precedence.coalesce

/-- Whether one operator is `??` and the other `||` or `&&`, which no expression may mix. -/
def mixesCoalesce (outer inner : String) : Bool :=
  let logical (s : String) := s == "||" || s == "&&"
  (outer == "??" && logical inner) || (inner == "??" && logical outer)

/-- Whether a text consists of digits only. -/
def isDigits (s : String) : Bool := s != "" && s.toList.all Char.isDigit

/-- Whether a text begins with a keyword that is not merely the start of a longer word. -/
def opensWith (text keyword : String) : Bool :=
  Text.beginsWith text keyword &&
    match text.toList.drop keyword.length with
    | [] => true
    | c :: _ => !Text.isAlphanumeric c

/-- Whether a text, read as a statement, is a block or a declaration and no expression. -/
def startsStatementAmbiguously (text : String) : Bool :=
  let text := Text.stripStart text
  Text.beginsWith text "\x7b" ||
    ["function", "class", "async function", "let ["].any (opensWith text)

namespace Kind

/-- The places that take any expression but a sequence. -/
def isAssignmentSlot : Kind → Bool
  | .arguments | .array | .pair | .spread | .declarator | .pattern | .switchCase
  | .forInStatement => true
  | _ => false

/-- The places that take every expression. -/
def isExpressionSlot : Kind → Bool
  | .parenthesized | .returnStatement | .throwStatement | .expressionStatement
  | .templateSubstitution | .switchStatement | .subscript => true
  | _ => false

end Kind

namespace Tree

variable (t : Tree)

/-- The operator of a node, or the empty text. -/
def operatorText (i : NodeId) : String := (t.operator i).getD ""

/-- The level of an expression. -/
def precedence (i : NodeId) : Nat :=
  match t.kind i with
  | .sequence => Precedence.sequence
  | .assignment | .augmentedAssignment | .yield => Precedence.assignment
  | .function =>
    if t.type i == "arrow_function" then Precedence.assignment else Precedence.primary
  | .ternary => Precedence.conditional
  | .binary => binaryPrecedence (t.operatorText i)
  | .typeExpression =>
    if t.type i == "non_null_expression" then Precedence.bareNew else Precedence.relational
  | .unary | .await => Precedence.unary
  | .update => Precedence.update
  | .newExpression =>
    if (t.child? i "arguments").isSome then Precedence.call else Precedence.bareNew
  | .call | .member | .subscript => Precedence.call
  | _ => Precedence.primary

/-- Whether an expression is an integer literal, after which a dot would be read as its decimal
point. -/
def isBareInteger (expr : NodeId) (text : String) : Bool :=
  t.type expr == "number" && isDigits text

/-- Whether `expr` needs parentheses as an operand of the binary expression `parent`.  A left
operand may bind as loosely as the operator, a right one may not; with `**` it is the reverse, and
there a unary expression is never a left operand. -/
def needsParenthesesInBinary (expr parent : NodeId) (onLeft : Bool) : Bool :=
  let operator := t.operatorText parent
  let required := binaryPrecedence operator
  let level := t.precedence expr
  if t.kind expr == .binary && mixesCoalesce operator (t.operatorText expr) then true
  else if operator == "**" then
    if onLeft then level ≤ required || t.kind expr == .unary || t.kind expr == .await
    else level < required
  else if onLeft then level < required
  else level ≤ required

/-- Whether `expr`, written as `text`, needs parentheses to take the place of `site`. -/
def needsParentheses (expr : NodeId) (text : String) (site : NodeId) : Bool :=
  match t.parent? site with
  | none => false
  | some parent =>
    let level := t.precedence expr
    let kind := t.kind parent
    let slot (field : String) := t.hasField site field
    if kind == .binary then t.needsParenthesesInBinary expr parent (slot "left")
    else if kind == .unary || kind == .await then
      level < Precedence.unary ||
        ((t.operatorText parent == "+" || t.operatorText parent == "-") &&
          Text.beginsWith text (t.operatorText parent))
    else if (kind == .member || kind == .subscript) && slot "object" then
      level < Precedence.call || t.isBareInteger expr text
    else if kind == .call && slot "function" then level < Precedence.call
    else if kind == .newExpression && slot "constructor" then
      level < Precedence.primary && t.kind expr != .member
    else if kind == .typeExpression then level < Precedence.call
    else if kind == .ternary then
      if slot "condition" then level ≤ Precedence.conditional else level < Precedence.assignment
    else if kind == .assignment || kind == .augmentedAssignment then
      level < Precedence.assignment
    else if kind == .function && slot "body" then
      level < Precedence.assignment || Text.beginsWith (Text.stripStart text) "\x7b"
    else if kind.isAssignmentSlot then level < Precedence.assignment
    else if kind.isExpressionSlot then false
    else level < Precedence.call

end Tree

end Declutter
