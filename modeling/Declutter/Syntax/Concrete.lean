/-!
# Concrete syntax trees

The trees that a grammar makes of a source: every token is a node, named nodes stand for the
constructs of the language, and a node that the grammar had to invent or could not place marks a
syntax error.

## Main definitions

* `Concrete` — a concrete syntax tree.
* `Concrete.firstFault?` — the first node that marks a syntax error.
* `Parsed` — what a grammar makes of a source.
-/

namespace Declutter

/-- What a concrete node says of itself. -/
structure Concrete.Head where
  /-- The grammar type: for an anonymous token, its text. -/
  type : String
  /-- Whether the node is a construct of the language and not a mere token. -/
  named : Bool
  /-- Whether the grammar inserted the node where the source lacks it. -/
  missing : Bool
  start : Nat
  stop : Nat
  /-- The role of the node in its parent. -/
  field : Option String
  deriving DecidableEq, Repr, Inhabited

/-- A concrete syntax tree. -/
inductive Concrete where
  | node (head : Concrete.Head) (children : List Concrete)
  deriving Repr, Inhabited

namespace Concrete

/-- The root of a tree. -/
def head : Concrete → Head
  | node head _ => head

/-- The trees below the root. -/
def children : Concrete → List Concrete
  | node _ children => children

/-- Whether a node marks a syntax error. -/
def Head.isFault (h : Head) : Bool := h.type == "ERROR" || h.missing

/-- Whether a node is a comment. -/
def Head.isComment (h : Head) : Bool := h.type == "comment"

mutual

/-- The first node of the tree, parents before children, that marks a syntax error. -/
def firstFault? : Concrete → Option Head
  | node head children => if head.isFault then some head else firstFaultIn? children

/-- The first node of a list of trees that marks a syntax error. -/
def firstFaultIn? : List Concrete → Option Head
  | [] => none
  | tree :: rest => (firstFault? tree).or (firstFaultIn? rest)

end

end Concrete

/-- What a grammar makes of a source: a tree, and whether it found any fault. -/
structure Parsed where
  root : Concrete
  faulty : Bool
  deriving Repr, Inhabited

end Declutter
