import Declutter.Syntax.Tree

/-!
# Early exits

Whether the body of a loop or callback always runs to its end.  A jump inside a nested loop or
switch that is addressed to it does no harm, and a nested function is another matter altogether.

## Main definitions

* `Kind.absorbsBreak`, `Kind.absorbsContinue` — the constructs to which a jump may be addressed.
* `Tree.isExitFrom` — whether a node leaves a body.
* `Tree.hasEarlyExit` — whether some node in a body does.
-/

namespace Declutter

/-- The constructs that a `continue` without a label may continue. -/
def Kind.absorbsContinue (k : Kind) : Bool := k.isLoop

/-- The constructs that a `break` without a label may leave. -/
def Kind.absorbsBreak (k : Kind) : Bool := k.isLoop || k == .switchBody

namespace Tree

variable (t : Tree)

/-- Whether one of the constructs between a node and `body` has one of some kinds. -/
def isEnclosedWithin (i body : NodeId) (p : Kind → Bool) : Bool :=
  ((t.ancestors i).takeWhile (· != body)).any fun a => p (t.kind a)

/-- Whether a node leaves `body` early: a return, a jump to a label, or a jump that no construct
within the body absorbs. -/
def isExitFrom (body i : NodeId) : Bool :=
  match t.kind i with
  | .returnStatement => true
  | .breakStatement =>
    !(t.children i).isEmpty || !t.isEnclosedWithin i body Kind.absorbsBreak
  | .continueStatement =>
    !(t.children i).isEmpty || !t.isEnclosedWithin i body Kind.absorbsContinue
  | _ => false

/-- Whether something below a body leaves it early, other than in a function. -/
def hasEarlyExit (body : NodeId) : Bool :=
  (t.children body).any fun s => (t.visited (t.kind · == .function) s).any (t.isExitFrom body)

end Tree

end Declutter
