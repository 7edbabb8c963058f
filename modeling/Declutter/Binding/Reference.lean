import Declutter.Binding.Declared

/-!
# References

Every identifier that does not declare a name is looked up from the scope it stands in, and the
ones that are found are usages of their bindings.  The identifiers are taken in the order of the
source, and the head of a loop declares its names when their turn comes.

## Main definitions

* `Tree.isWrite`, `Tree.isPlainRead` — what a usage does.
* `BindingTable.visit` — one identifier.
* `BindingTable.ofTree` — the table of a program.
-/

namespace Declutter

namespace Kind

/-- The constructs that make up a target of destructuring, whether or not they were read as
patterns. -/
def isDestructuring : Kind → Bool
  | .pattern | .object | .array | .pair | .spread => true
  | _ => false

/-- The accesses to a part of an object. -/
def isAccess : Kind → Bool
  | .member | .subscript => true
  | _ => false

/-- The two sorts of assignments. -/
def isAssignment : Kind → Bool
  | .assignment | .augmentedAssignment => true
  | _ => false

end Kind

namespace Tree

variable (t : Tree)

/-! ### What a usage does -/

/-- Whether a part of a destructuring is not itself a target: a default value or a key. -/
def isBesideTarget (child parent : NodeId) : Bool :=
  ((t.type parent == "assignment_pattern" || t.type parent == "object_assignment_pattern") &&
      t.hasField child "right") ||
    ((t.kind parent == .pair || t.kind parent == .pattern) && t.hasField child "key")

/-- Whether a value assigned to the destructuring parts around `child` reaches it; `outer` are the
nodes around `child` from the inside out, and `direct` says that none has been passed yet. -/
def isTargetWithin (child : NodeId) (direct : Bool) : (outer : List NodeId) → Bool
  | [] => false
  | parent :: outer =>
    if (t.kind parent).isDestructuring then
      !t.isBesideTarget child parent && isTargetWithin parent false outer
    else if (t.kind parent).isAssignment then t.hasField child "left"
    else if t.kind parent == .update then direct
    else if t.kind parent == .forInStatement && (t.keyword parent).isNone then
      t.hasField child "left"
    else false

/-- Whether an identifier is assigned to: by an assignment, an increment, or the head of a loop,
directly or as part of a destructuring. -/
def isWrite (i : NodeId) : Bool := t.isTargetWithin i true (t.ancestors i)

/-- The outermost access of which `outer` is the object, climbing along `around`. -/
def outermostAccess (outer : NodeId) : (around : List NodeId) → NodeId
  | [] => outer
  | parent :: rest =>
    if (t.kind parent).isAccess && t.hasField outer "object" then outermostAccess parent rest
    else outer

/-- Whether an access is assigned to, or is counted up or down, by the construct around it. -/
def isAccessTarget (i : NodeId) : Bool :=
  match t.parent? i with
  | none => false
  | some p =>
    ((t.kind p).isAssignment && t.hasField i "left") || t.kind p == .update

/-- Whether the value of an identifier is read and nothing but its value matters, so that an
expression could stand in its place: it is not exported, no name of a markup element, not
deleted, and no object whose parts are assigned to. -/
def isPlainRead (i : NodeId) : Bool :=
  match t.parent? i with
  | none => false
  | some p =>
    let kind := t.kind p
    if kind == .exportSpecifier || kind == .exportStatement then false
    else if kind == .jsx && t.type p != "jsx_expression" then false
    else if t.isDeletion p then false
    else if t.kind i == .identifier && kind.isAccess && t.hasField i "object" then
      !t.isAccessTarget (t.outermostAccess p (t.ancestors p))
    else true

/-- The usage at an identifier. -/
def usageAt (i : NodeId) : Usage where
  node := i
  isWrite := t.isWrite i
  plainRead := !t.isWrite i && t.isPlainRead i

/-- Whether an identifier is looked up: it does not stand in an import or a type. -/
def isLookedUp (i : NodeId) : Bool :=
  t.isReferenceNode i && !t.isBelow i fun kind => kind == .importStatement || kind == .type

end Tree

namespace BindingTable

/-- The table after an identifier: unchanged if the identifier belongs to a binding already or is
not looked up, with one more binding if the head of a loop declares it, and else with one more
reference, provided that the name is visible. -/
def visit (t : Tree) (heads : List (NodeId × String)) (b : BindingTable) (i : NodeId) :
    BindingTable :=
  if (b.of? i).isSome || !t.isLookedUp i then b
  else match heads.reverse.lookup i with
    | some keyword => b.declare (t.keywordBinding (.ofKeyword keyword) i)
    | none =>
      match b.resolve? t (t.text i) (t.scopeOf i) with
      | some target => b.refer target (t.usageAt i)
      | none => b

/-- The table with the declared names of a program but without references. -/
def ofDeclared (t : Tree) : BindingTable :=
  t.declared.foldl declare ⟨#[], Array.replicate t.nodes.size none⟩

/-- The table of a program. -/
def ofTree (t : Tree) : BindingTable :=
  t.ids.foldl (visit t t.allLoopHeadNames) (ofDeclared t)

end BindingTable

end Declutter
