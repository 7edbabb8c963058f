import Declutter.Syntax.Tree

/-!
# Statements, calls and nearby comments

Queries that several analyses share: the statement a node belongs to and the statement after it,
the parts of a call, and the comments beside a node.

## Main definitions

* `Tree.enclosingStatement?`, `Tree.siblings`, `Tree.nextStatement?`.
* `Call`, `Tree.call?` — the parts of a call.
* `Tree.commentEndingOn?`, `Tree.trailingComment?`.
-/

namespace Declutter

/-- The parts of a call: what the method is called on, the name of the method or the text of the
callee, and the arguments. -/
structure Call where
  receiver : Option NodeId
  name : String
  arguments : List NodeId
  deriving DecidableEq, Repr, Inhabited

namespace Tree

variable (t : Tree)

/-- Whether a node stands directly in a list of statements. -/
def isListed (i : NodeId) : Bool := (t.parentKind? i).any Kind.isStatementList

/-- The statement of a list to which a node belongs. -/
def enclosingStatement? (i : NodeId) : Option NodeId := (t.chain i).find? t.isListed

/-- The statements in the list of a statement; the value of a case is none of them. -/
def siblings (i : NodeId) : List NodeId :=
  match t.parent? i with
  | none => [i]
  | some p =>
    if t.kind p == .switchCase then (t.children p).filter (t.hasField · "body")
    else t.children p

/-- What follows the first occurrence of `x` in a list. -/
def following? (x : NodeId) : List NodeId → Option NodeId
  | [] => none
  | y :: rest => if y == x then rest.head? else following? x rest

/-- The statement after a statement. -/
def nextStatement? (i : NodeId) : Option NodeId := following? i (t.siblings i)

/-- The arguments of a call, as far as they are written in parentheses. -/
def arguments (i : NodeId) : List NodeId :=
  match t.child? i "arguments" with
  | some a => if t.kind a == .arguments then t.children a else []
  | none => []

/-- The parts of a call.  A callee that is no complete member expression is taken as a whole. -/
def call? (i : NodeId) : Option Call :=
  if t.kind i != .call then none
  else (t.child? i "function").map fun callee =>
    let whole : Call := ⟨none, t.text callee, t.arguments i⟩
    if t.kind callee == .member then
      match t.child? callee "object", t.child? callee "property" with
      | some object, some property => ⟨some object, t.text property, t.arguments i⟩
      | _, _ => whole
    else whole

/-- The first comment that stands on lines of its own and ends on `line`. -/
def commentEndingOn? (line : Nat) : Option Comment :=
  t.comments.find? fun c => c.span.last.line == line && c.ownLine

/-- The first comment that follows a node on its last line, with at most a semicolon between. -/
def trailingComment? (i : NodeId) : Option Comment :=
  let s := t.span i
  t.comments.find? fun c =>
    c.span.first.line == s.last.line && s.stop ≤ c.span.start &&
      Bytes.isTerminator (Bytes.slice t.source s.stop c.span.start)

/-- The indentation of the line of an offset. -/
def indentationAt (offset : Nat) : String := Utf8.decode (Bytes.indentation t.source offset)

end Tree

end Declutter
