import Declutter.Syntax.Tree

/-!
# Scopes

Which constructs open a scope, and in which scope each construct lies.  A construct lies in the
scope that the nearest construct around it opens, except that the name of a declared function or
class lies outside the scope it opens.

Scopes are numbered as they are opened, the program's first; among the children of a construct the
later ones come first.

## Main definitions

* `Outline.scopeKind?` — the scope a construct opens.
* `Outline.place` — the scopes below a construct, and the scope of each construct.
* `Outline.scopes` — the same for a whole program.
-/

namespace Declutter

/-- The scope a construct opens, given the kind of its parent: functions, loop heads, handlers,
the bodies of switches and the blocks that are not themselves the body of a function or handler. -/
def Label.scopeKind? (l : Label) (parent : Option Kind) : Option ScopeKind :=
  match l.kind with
  | .function => some .function
  | .forStatement | .forInStatement => some .loop
  | .catchClause => some .handler
  | .switchBody => some .block
  | .block =>
    if parent == some .function || parent == some .catchClause then none else some .block
  | _ => none

/-- Whether the name of a construct belongs to the scope around it. -/
def Label.namesOutside (l : Label) : Bool :=
  l.type == "function_declaration" || l.type == "generator_function_declaration" ||
    l.type == "class_declaration" || l.type == "abstract_class_declaration"

namespace Outline

/-- A scope together with the function or program scope that it lies in. -/
structure Place where
  scope : ScopeId
  functionScope : ScopeId
  deriving DecidableEq, Repr, Inhabited

/-- The place inside a construct that stands at `outer`, and the scopes opened so far. -/
def enter (parent : Option Kind) (outer : Place) (i : NodeId) (opened : List Scope)
    (l : Label) : Place × List Scope :=
  match l.scopeKind? parent with
  | none => (outer, opened)
  | some kind =>
    let id := opened.length
    let function := if kind == .function then id else outer.functionScope
    (⟨id, function⟩, opened ++ [⟨kind, i, some outer.scope, function⟩])

mutual

/-- Opens the scopes of the construct numbered `i`, which stands at `outer`, and of those below
it.  The result holds all scopes opened so far and the scope of each construct in turn. -/
def place (parent : Option Kind) (outer : Place) (i : NodeId) (opened : List Scope) :
    Outline → List Scope × List ScopeId
  | node l children =>
    let (inner, opened) := enter parent outer i opened l
    let (opened, scopes) := placeAll l outer inner (i + 1) opened children
    (opened, outer.scope :: scopes)

/-- Opens the scopes of the children of a construct, the last child first; `i` is the number of
the first one. -/
def placeAll (parent : Label) (outer inner : Place) (i : NodeId) (opened : List Scope) :
    List Outline → List Scope × List ScopeId
  | [] => (opened, [])
  | o :: rest =>
    let (opened, later) := placeAll parent outer inner (i + o.size) opened rest
    let here := if o.label.field == some "name" && parent.namesOutside then outer else inner
    let (opened, scopes) := place (some parent.kind) here i opened o
    (opened, scopes ++ later)

end

/-- The scopes of a program, and the scope in which each of its constructs lies. -/
def scopes (o : Outline) : List Scope × List ScopeId :=
  place none ⟨0, 0⟩ 0 [⟨.program, 0, none, 0⟩] o

end Outline

end Declutter
