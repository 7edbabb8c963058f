import Declutter.Span
import Declutter.Syntax.Language
import Declutter.Syntax.Outline
import Declutter.Text.Utf8

/-!
# Syntax trees

The tree that the analyses work on.  Its nodes are numbered from the root down, a node before its
children and a child before the next one, so the nodes below a node are the numbers from its own up
to its `stop`.  All of them lie in one table, and a node is named by its number; a number outside
the table names a node without kind, text or relatives.

## Main definitions

* `Node`, `Scope`, `Comment`, `Tree` — the tree and its parts.
* `Tree.child?`, `Tree.ancestors`, `Tree.subtree` — the relatives of a node.
* `Tree.isWithin` — whether a node is another one or lies below it.
* `Tree.visited` — the nodes that a walk meets which does not enter certain nodes.
* `Tree.descent` — the nodes that lead down from a node, one child at a time.
-/

namespace Declutter

/-- The number of a node in its tree. -/
abbrev NodeId := Nat

/-- The number of a scope in its tree. -/
abbrev ScopeId := Nat

/-- A construct of the source. -/
structure Node where
  kind : Kind
  type : String
  span : Span
  field : Option String
  marks : Marks
  parent : Option NodeId
  children : List NodeId
  /-- The number after the last node below this one. -/
  stop : NodeId
  /-- The scope in which the node lies. -/
  scope : ScopeId
  deriving Repr, Inhabited

/-- What opens a scope. -/
inductive ScopeKind where
  | program
  | function
  | block
  | loop
  | handler
  deriving DecidableEq, Repr, Inhabited

/-- The name of a kind of scope. -/
def ScopeKind.name : ScopeKind → String
  | .program => "program"
  | .function => "function"
  | .block => "block"
  | .loop => "for"
  | .handler => "catch"

/-- A region of the source with declarations of its own. -/
structure Scope where
  kind : ScopeKind
  /-- The node that opens the scope. -/
  node : NodeId
  /-- The scope around it. -/
  parent : Option ScopeId
  /-- The innermost function or program scope, where a `var` is declared. -/
  functionScope : ScopeId
  deriving DecidableEq, Repr, Inhabited

/-- A comment of the source. -/
structure Comment where
  span : Span
  text : String
  /-- Whether only blanks precede the comment on its line. -/
  ownLine : Bool
  deriving DecidableEq, Repr, Inhabited

/-- The syntax tree of a source. -/
structure Tree where
  source : Bytes
  language : Language
  nodes : Array Node
  scopes : Array Scope
  /-- The comments, in the order of the source. -/
  comments : List Comment
  deriving Repr, Inhabited

namespace Tree

variable (t : Tree)

/-- The node of a number. -/
def node (i : NodeId) : Node := t.nodes.getD i default

/-- The numbers of all nodes, the root first. -/
def ids : List NodeId := List.range t.nodes.size

def kind (i : NodeId) : Kind := (t.node i).kind

/-- The grammar type of a node. -/
def type (i : NodeId) : String := (t.node i).type

def span (i : NodeId) : Span := (t.node i).span

/-- The role of a node in its parent. -/
def field (i : NodeId) : Option String := (t.node i).field

/-- The operator of an expression, or the `in` or `of` of a loop head. -/
def operator (i : NodeId) : Option String := (t.node i).marks.operator

/-- The keyword of a declaration. -/
def keyword (i : NodeId) : Option String := (t.node i).marks.keyword

/-- Whether a `?.` links the node to its object. -/
def optionalLink (i : NodeId) : Bool := (t.node i).marks.optionalLink

def parent? (i : NodeId) : Option NodeId := (t.node i).parent

def children (i : NodeId) : List NodeId := (t.node i).children

/-- The scope in which a node lies. -/
def scopeOf (i : NodeId) : ScopeId := (t.node i).scope

/-- The kind of the parent of a node. -/
def parentKind? (i : NodeId) : Option Kind := (t.parent? i).map t.kind

/-- The first child with a certain role. -/
def child? (i : NodeId) (field : String) : Option NodeId :=
  (t.children i).find? fun c => t.field c == some field

/-- Whether a node has a certain role in its parent. -/
def hasField (i : NodeId) (field : String) : Bool := t.field i == some field

/-- Whether a node has one of two roles in its parent. -/
def hasEitherField (i : NodeId) (a b : String) : Bool := t.hasField i a || t.hasField i b

/-- The text of a node. -/
def text (i : NodeId) : String :=
  Utf8.decode (Bytes.slice t.source (t.span i).start (t.span i).stop)

/-- The nodes around a node, from its parent up to the root. -/
def ancestors (i : NodeId) : List NodeId :=
  match t.parent? i with
  | none => []
  | some p => if p < i then p :: ancestors p else []
termination_by i

/-- A node and the nodes around it, from the inside out. -/
def chain (i : NodeId) : List NodeId := i :: t.ancestors i

/-- Whether `i` is `outer` or lies below it. -/
def isWithin (i outer : NodeId) : Bool := (t.chain i).contains outer

/-- Whether a node lies below a node of one of some kinds. -/
def isBelow (i : NodeId) (p : Kind → Bool) : Bool := (t.ancestors i).any fun a => p (t.kind a)

/-- The nodes on the way from `i` up to `top`, both included, where `i` lies within `top`. -/
def pathUp (i top : NodeId) : List NodeId := (t.chain i).filter (top ≤ ·)

/-- A node and all nodes below it, parents before children. -/
def subtree (i : NodeId) : List NodeId := List.range' i ((t.node i).stop - i)

/-- The nodes from `i` up to `stop` without those below a node that satisfies `closed`. -/
def visitedFrom (closed : NodeId → Bool) (i stop : NodeId) : List NodeId :=
  if i < stop then
    i :: visitedFrom closed (max (i + 1) (if closed i then (t.node i).stop else i + 1)) stop
  else []
termination_by stop - i
decreasing_by exact Nat.sub_lt_sub_left ‹_› (Nat.lt_of_lt_of_le (Nat.lt_succ_self i) (Nat.le_max_left ..))

/-- The nodes that a walk from `i` down meets which does not enter the nodes that satisfy
`closed`. -/
def visited (closed : NodeId → Bool) (i : NodeId) : List NodeId :=
  t.visitedFrom closed i (t.node i).stop

/-- Whether some node from `i` down has one of some kinds. -/
def containsKind (i : NodeId) (p : Kind → Bool) : Bool := (t.subtree i).any fun n => p (t.kind n)

/-- The scope of a number. -/
def scope (s : ScopeId) : Scope := t.scopes.getD s default

/-- The scope in which a `var` written in a scope is declared. -/
def functionScope (s : ScopeId) : ScopeId := (t.scope s).functionScope

/-- A scope and the scopes around it, from the inside out. -/
def scopeChain (s : ScopeId) : List ScopeId :=
  match (t.scope s).parent with
  | none => [s]
  | some p => if p < s then s :: scopeChain p else [s]
termination_by s

/-- The nodes that lead down from `i`, each one the `next?` of the one before. -/
def descent (next? : NodeId → Option NodeId) (i : NodeId) : List NodeId :=
  match next? i with
  | none => [i]
  | some c => if i < c ∧ c < t.nodes.size then i :: descent next? c else [i]
termination_by t.nodes.size - i
decreasing_by exact Nat.sub_lt_sub_left (Nat.lt_trans ‹_ ∧ _›.1 ‹_ ∧ _›.2) ‹_ ∧ _›.1

/-- The node at which the descent from `i` ends. -/
def bottom (next? : NodeId → Option NodeId) (i : NodeId) : NodeId :=
  (t.descent next? i).getLastD i

/-- The one node within a pair of parentheses. -/
def inParentheses? (i : NodeId) : Option NodeId :=
  match t.kind i, t.children i with
  | .parenthesized, [c] => some c
  | _, _ => none

/-- What stands within parentheses: the node itself unless it is a parenthesised expression. -/
def unparenthesized (i : NodeId) : NodeId := t.bottom t.inParentheses? i

end Tree

end Declutter
