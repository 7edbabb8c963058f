import Declutter.Syntax.Concrete

/-!
# Listings of concrete trees

A plain text for concrete trees, by which a grammar can hand them over.  A tree begins with a line
that says whether the grammar found a fault; then every node has a line, parents before children,
with its depth, its nature, the offsets of its text, its role, and its type, which may contain
blanks:

    tree ok
    0 named 0 7 - program
    1 named 0 7 - expression_statement
    2 named 0 6 - call_expression
    2 token 6 7 - ;

## Main definitions

* `ListedNode`, `ListedNode.ofLine?` — a line.
* `Concrete.ofListed` — the trees whose nodes are listed.
* `Parsed.ofListing?` — the trees of a listing.
-/

namespace Declutter

/-- A node with its depth in the tree. -/
structure ListedNode where
  depth : Nat
  head : Concrete.Head
  deriving DecidableEq, Repr, Inhabited

/-- What a line says of the nature of a node: whether it is named, and whether it is missing from
the source. -/
def natureOf? (s : String) : Option (Bool × Bool) :=
  [("named", (true, false)), ("token", (false, false)), ("missing-named", (true, true)),
    ("missing-token", (false, true))].lookup s

/-- The node of a line. -/
def ListedNode.ofLine? (line : String) : Option ListedNode :=
  match line.splitOn " " with
  | depth :: nature :: start :: stop :: field :: type => do
    let (named, missing) ← natureOf? nature
    return {
      depth := ← depth.toNat?
      head := {
        type := " ".intercalate type, named, missing
        start := ← start.toNat?
        stop := ← stop.toNat?
        field := if field == "-" then none else some field } }
  | _ => none

/-- The trees whose nodes are listed, each with the depth of its root.  The nodes after a node that
lie deeper are below it. -/
def Concrete.ofListed : List ListedNode → List (Nat × Concrete)
  | [] => []
  | n :: rest =>
    let trees := ofListed rest
    (n.depth, .node n.head ((trees.takeWhile (n.depth < ·.1)).map (·.2))) ::
      trees.dropWhile (n.depth < ·.1)

/-- The tree of the lines that follow the first one. -/
def Parsed.ofLines? (faulty : Bool) (lines : List String) : Option Parsed := do
  match Concrete.ofListed (← lines.mapM ListedNode.ofLine?) with
  | [(_, root)] => some { root, faulty }
  | _ => none

/-- The lines of a listing, divided into those of each tree; the lines before the first tree come
first. -/
def listingSections : List String → List String × List (Bool × List String)
  | [] => ([], [])
  | line :: rest =>
    let (lines, trees) := listingSections rest
    if line == "tree ok" then ([], (false, lines) :: trees)
    else if line == "tree faulty" then ([], (true, lines) :: trees)
    else (line :: lines, trees)

/-- The trees of a listing. -/
def Parsed.ofListing? (s : String) : Option (List Parsed) :=
  match listingSections ((s.splitOn "\n").filter (· != "")) with
  | ([], trees) => trees.mapM fun (faulty, lines) => ofLines? faulty lines
  | _ => none

end Declutter
