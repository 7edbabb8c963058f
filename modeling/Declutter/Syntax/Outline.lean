import Declutter.Syntax.Concrete
import Declutter.Syntax.Kind

/-!
# Outlines

An outline is what the analyses keep of a concrete tree: the constructs, without the tokens and
without the comments.  A token leaves a mark on the construct it belongs to: its operator, its
declaration keyword, or an optional link.  Whatever lies below a token or a comment is dropped
with it.

## Main definitions

* `Marks`, `Marks.record` — what the tokens of a construct say.
* `Outline`, `Concrete.outline` — the constructs of a concrete tree.
* `Concrete.comments` — the comments among them.
-/

namespace Declutter

/-- What the tokens of a construct say. -/
structure Marks where
  operator : Option String := none
  /-- The keyword of a declaration. -/
  keyword : Option String := none
  /-- Whether a `?.` links the construct to its object. -/
  optionalLink : Bool := false
  deriving DecidableEq, Repr, Inhabited

namespace Concrete.Head

/-- Whether a node is the `?.` of an optional link. -/
def isOptionalLink (h : Head) : Bool := h.type == "optional_chain"

/-- Whether a node is a construct: named, and neither a comment nor an optional link. -/
def isConstruct (h : Head) : Bool := !h.isComment && !h.isOptionalLink && h.named

/-- Whether a node is a token. -/
def isToken (h : Head) : Bool := !h.isComment && !h.isOptionalLink && !h.named

end Concrete.Head

/-- The keywords that open a declaration of variables. -/
def isDeclarationKeyword (s : String) : Bool := s == "var" || s == "let" || s == "const"

namespace Marks

/-- What one more child of a construct of grammar type `parent` adds: the first rule that applies
of an optional link, a keyword, an operator, and the `in` or `of` of a loop head. -/
def record (parent : String) (marks : Marks) (h : Concrete.Head) : Marks :=
  if h.isOptionalLink then { marks with optionalLink := true }
  else if !h.isToken then marks
  else if h.type == "?." || h.field == some "optional_chain" then
    { marks with optionalLink := true }
  else if h.field == some "kind" || (isDeclarationKeyword h.type && marks.keyword.isNone) then
    { marks with keyword := some h.type }
  else if h.field == some "operator" then { marks with operator := some h.type }
  else if (h.type == "in" || h.type == "of") && parent == "for_in_statement" then
    { marks with operator := some h.type }
  else marks

end Marks

/-- What an outline keeps of a construct. -/
structure Label where
  type : String
  start : Nat
  stop : Nat
  field : Option String
  marks : Marks
  deriving DecidableEq, Repr, Inhabited

/-- The kind of a construct. -/
def Label.kind (l : Label) : Kind := .ofType l.type

/-- The constructs of a source. -/
inductive Outline where
  | node (label : Label) (children : List Outline)
  deriving Repr, Inhabited

namespace Outline

/-- The construct at the root. -/
def label : Outline → Label
  | node label _ => label

mutual

/-- The number of constructs. -/
def size : Outline → Nat
  | node _ children => sizeAll children + 1

/-- The number of constructs in a list of outlines. -/
def sizeAll : List Outline → Nat
  | [] => 0
  | o :: rest => o.size + sizeAll rest

end

end Outline

namespace Concrete

/-- The label of a concrete node: its own data and the marks of its children. -/
def label (h : Head) (children : List Concrete) : Label where
  type := h.type
  start := h.start
  stop := h.stop
  field := h.field
  marks := (children.map head).foldl (Marks.record h.type) {}

mutual

/-- The outline of a concrete tree.  The root is kept whatever it is. -/
def outline : Concrete → Outline
  | node head children => .node (label head children) (outlines children)

/-- The outlines of the constructs in a list of trees. -/
def outlines : List Concrete → List Outline
  | [] => []
  | tree :: rest =>
    if tree.head.isConstruct then outline tree :: outlines rest else outlines rest

end

mutual

/-- The comments that stand directly in a construct of the tree, in the order of the source. -/
def comments : Concrete → List Head
  | node _ children => commentsIn children

/-- The comments in a list of trees, and those in their constructs. -/
def commentsIn : List Concrete → List Head
  | [] => []
  | tree :: rest =>
    if tree.head.isComment then tree.head :: commentsIn rest
    else if tree.head.isConstruct then comments tree ++ commentsIn rest
    else commentsIn rest

end

end Concrete

end Declutter
