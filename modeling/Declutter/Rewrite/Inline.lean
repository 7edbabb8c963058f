import Declutter.Binding.SingleUse
import Declutter.Expression.Precedence
import Declutter.Rewrite.Removal

/-!
# Inlining a single-use binding

The initial value takes the place of the one usage, wrapped in parentheses where the grammar
demands it, and the declaration is removed.  Where the value would come to begin a statement, care
is taken that it still reads as an expression, and that it does not continue the statement before.

## Main definitions

* `Tree.statementBegunBy?` — the statement, or function body, that an expression begins.
* `Tree.needsTerminator` — whether the statement before a declaration would go on.
* `BindingTable.inlineText` — what takes the place of the usage.
* `BindingTable.inline` — the rewrite.
-/

namespace Declutter

/-- The characters that continue a statement which lacks its terminator. -/
def continuesStatement (text : String) : Bool :=
  match text.toList with
  | c :: _ => ['(', '[', '\x60', '+', '-', '/'].contains c
  | [] => false

/-- The statements that end with their closing brace. -/
def Kind.endsWithBrace : Kind → Bool
  | .function | .classDefinition | .ifStatement | .forStatement | .forInStatement
  | .whileStatement | .block | .tryStatement | .switchStatement | .type => true
  | _ => false

/-- A text in parentheses if need be. -/
def parenthesize (wrap : Bool) (text : String) : String := if wrap then "(" ++ text ++ ")" else text

namespace Tree

variable (t : Tree)

/-- The expression statement, or the function of which it is the body, that `i` begins; `outer`
are the nodes around `i` from the inside out. -/
def statementBegunBy (i : NodeId) : (outer : List NodeId) → Option NodeId
  | [] => none
  | parent :: outer =>
    let kind := t.kind parent
    if kind == .function && t.hasField i "body" then some parent
    else if (t.span parent).start != (t.span i).start then none
    else if kind == .expressionStatement then some parent
    else if kind == .parenthesized || kind == .block || kind == .program then none
    else statementBegunBy parent outer

/-- The expression statement, or the function of which it is the body, that an expression
begins. -/
def statementBegunBy? (i : NodeId) : Option NodeId := t.statementBegunBy i (t.ancestors i)

/-- The statement before another one. -/
def previousStatement? (i : NodeId) : Option NodeId :=
  ((t.siblings i).takeWhile (· != i)).getLast?

/-- Whether the statement before a declaration lacks a terminator, so that it would go on with
what follows once the declaration is gone. -/
def needsTerminator (declaration : NodeId) : Bool :=
  match t.previousStatement? declaration with
  | none => false
  | some previous =>
    let text := Text.stripEnd (t.text previous)
    !Text.endsWith text ";" &&
      !(Text.endsWith text "\x7d" && (t.kind previous).endsWithBrace)

/-- What takes the place of a shorthand property: the property with the value written out. -/
def expandedProperty (name : String) (value : NodeId) : String :=
  name ++ ": " ++ parenthesize (t.precedence value < Precedence.assignment) (t.text value)

/-- What takes the place of a name: the value, in parentheses where its place demands them, or
where it would begin a statement and not read as an expression.  A terminator comes first where
the statement before the declaration would otherwise go on. -/
def substitutedText (declaration value usage : NodeId) : String :=
  let text := t.text value
  let begun := t.statementBegunBy? usage
  let wrapped := parenthesize
    (t.needsParentheses value text usage || (begun.isSome && startsStatementAmbiguously text)) text
  if begun.any (t.kind · == .expressionStatement) && continuesStatement wrapped &&
      t.needsTerminator declaration then ";" ++ wrapped
  else wrapped

end Tree

namespace BindingTable

variable (b : BindingTable) (t : Tree) (marker : String)

/-- What takes the place of the usage of a binding. -/
def inlineText (i : BindingId) (declaration value usage : NodeId) : String :=
  if t.kind usage == .shorthandProperty then t.expandedProperty (b.binding i).name value
  else t.substitutedText declaration value usage

/-- The rewrite that puts the initial value of a binding in the place of its one usage and removes
the declaration. -/
def inline (i : BindingId) : Attempt Rewrite :=
  match (b.binding i).declaration, (b.binding i).initializer with
  | some declaration, some value => do
    let usage ← Attempt.fetch .exhausted (b.soleRead? i)
    let substitution : Edit := ⟨t.span usage, b.inlineText t i declaration value usage⟩
    match Rewrite.ofEdits [substitution, t.removal marker declaration] with
    | .ok rewrite => return rewrite
    | .error (first, second) => Attempt.withhold (.overlap first second)
  | _, _ => Attempt.withhold .noCandidate

end BindingTable

end Declutter
