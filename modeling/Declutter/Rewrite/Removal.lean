import Declutter.Edit
import Declutter.Syntax.Comment
import Declutter.Syntax.Statement

/-!
# Removing a statement

A statement that stands alone on its lines goes with these lines; one that shares a line goes with
the blanks behind it.  A comment that trails the statement goes too, unless it explains something:
then it stays, on a line of its own if need be.

## Main definitions

* `Tree.keptComment` — the trailing comment that outlives a statement.
* `Tree.standsAlone` — whether a statement has its lines to itself.
* `Tree.removal` — the edit that removes a statement.
-/

namespace Declutter.Tree

variable (t : Tree) (marker : String)

/-- The text of the trailing comment that outlives a statement; empty if there is none. -/
def keptComment (i : NodeId) : String :=
  match t.trailingComment? i with
  | some c => if Comment.explains marker c.text then c.text else ""
  | none => ""

/-- The offset after a statement and the comment that trails it. -/
def tailStop (i : NodeId) : Nat :=
  match t.trailingComment? i with
  | some c => c.span.stop
  | none => (t.span i).stop

/-- Whether nothing but a trailing comment and a terminator shares the lines of a statement. -/
def standsAlone (i : NodeId) : Bool :=
  Bytes.startsLine t.source (t.span i).start &&
    Bytes.isTerminator
      (Bytes.slice t.source (t.tailStop i) (Bytes.lineEnd t.source (t.tailStop i)))

/-- The edit that removes the lines of a statement and leaves the kept comment behind. -/
def lineRemoval (i : NodeId) : Edit :=
  let start := (t.span i).start
  let stop := min (Bytes.lineEnd t.source (t.tailStop i) + 1) t.source.length
  let kept := t.keptComment marker i
  { span := .ofOffsets t.source (Bytes.lineStart t.source start) stop
    replacement := if kept == "" then "" else t.indentationAt start ++ kept ++ "\n" }

/-- The edit that removes a statement and the blanks behind it, with the trailing comment unless
that is kept. -/
def inlineRemoval (i : NodeId) : Edit :=
  let stop := (t.span i).stop
  let blanks := ((t.source.drop stop).takeWhile Bytes.isIndent).length
  let kept := t.keptComment marker i
  { span := .ofOffsets t.source (t.span i).start
      (if kept == "" then max (stop + blanks) (t.tailStop i) else stop + blanks)
    replacement := "" }

/-- The edit that removes a statement. -/
def removal (i : NodeId) : Edit :=
  if t.standsAlone i then t.lineRemoval marker i else t.inlineRemoval marker i

end Declutter.Tree
