import Declutter.Syntax.Tree
import Declutter.Text.Quoted

/-!
# Defects

The analysis takes some parts of a program for granted: that an access stands within something,
that a counted argument can be read, that a statement stands in the list of its block.  Where such
a part is missing after all, nothing can be said of the program.

## Main definitions

* `Defect` — what is missing.
* `Defect.name`, `Defect.message` — how it is reported.
-/

namespace Declutter

/-- A part that was taken for granted and is not there. -/
inductive Defect where
  /-- There is nothing of which a property could be asked. -/
  | absent (property : String)
  /-- A list ends before the place that is asked for. -/
  | exhausted
  /-- A node does not stand in the list in which its place is asked for. -/
  | unlisted (node : String)
  deriving DecidableEq, Repr, Inhabited

namespace Defect

/-- The name of a defect. -/
def name : Defect → String
  | absent _ => "AttributeError"
  | exhausted => "IndexError"
  | unlisted _ => "ValueError"

/-- What is said of a defect. -/
def message : Defect → String
  | absent property => s!"'NoneType' object has no attribute '{property}'"
  | exhausted => "list index out of range"
  | unlisted node => node ++ " is not in list"

/-- What is there, or else the defect. -/
def fetch (d : Defect) : Option α → Except Defect α
  | some a => .ok a
  | none => .error d

end Defect

/-- An optional text as a defect shows it. -/
def quotedOption : Option String → String
  | some s => Text.quoted s
  | none => "None"

/-- A node as a defect shows it. -/
def Tree.describe (t : Tree) (i : NodeId) : String :=
  let s := t.span i
  let kind := (t.kind i).name
  let capitals := String.ofList (kind.toList.map Char.toUpper)
  let place := s!"Span(start_byte={s.start}, end_byte={s.stop}, start_line={s.first.line}, " ++
    s!"start_column={s.first.column}, end_line={s.last.line}, end_column={s.last.column})"
  let truth := if t.optionalLink i then "True" else "False"
  s!"SyntaxNode(kind=<NodeKind.{capitals}: '{kind}'>, type=" ++ Text.quoted (t.type i) ++
    s!", span={place}, field=" ++ quotedOption (t.field i) ++
    ", operator=" ++ quotedOption (t.operator i) ++ ", keyword=" ++ quotedOption (t.keyword i) ++
    s!", optional_chain={truth}, scope_id={t.scopeOf i}, index={i})"

end Declutter
