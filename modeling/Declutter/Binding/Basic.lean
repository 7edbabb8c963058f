import Declutter.Expression.Effect

/-!
# Bindings

A binding is a declared name together with every place that refers to it.

## Main definitions

* `Usage`, `Binding` — a reference and a declared name.
* `BindingTable` — the bindings of a program, and which one each identifier belongs to.
* `BindingTable.resolve?` — the binding of a name as seen from a scope.
* `Tree.isReferenceNode` — the identifiers that can declare or refer.
-/

namespace Declutter

/-- The number of a binding in its table. -/
abbrev BindingId := Nat

/-- A place that refers to a binding. -/
structure Usage where
  node : NodeId
  /-- Whether the place is assigned to. -/
  isWrite : Bool
  /-- Whether the value is read and nothing but its value matters. -/
  plainRead : Bool
  deriving DecidableEq, Repr, Inhabited

/-- A declared name. -/
structure Binding where
  name : String
  kind : BindingKind
  /-- The identifier that declares the name. -/
  nameNode : NodeId
  /-- The scope in which the name is declared. -/
  scope : ScopeId
  /-- The statement of a declaration of variables. -/
  declaration : Option NodeId := none
  /-- The part of that statement that declares this name. -/
  declarator : Option NodeId := none
  /-- The initial value, where the name is declared without a pattern. -/
  initializer : Option NodeId := none
  exported : Bool := false
  /-- The references, in the order of the source. -/
  usages : List Usage := []
  deriving DecidableEq, Repr, Inhabited

namespace Binding

/-- The usages that do not assign. -/
def reads (b : Binding) : List Usage := b.usages.filter (!·.isWrite)

/-- The usages that assign. -/
def writes (b : Binding) : List Usage := b.usages.filter (·.isWrite)

/-- The statement that declares the name, or the name itself. -/
def declarationNode (b : Binding) : NodeId := b.declaration.getD b.nameNode

end Binding

/-- Whether an identifier can declare a name or refer to one. -/
def Tree.isReferenceNode (t : Tree) (i : NodeId) : Bool :=
  t.kind i == .identifier || t.kind i == .shorthandProperty ||
    t.type i == "shorthand_property_identifier_pattern"

/-- The bindings of a program. -/
structure BindingTable where
  bindings : Array Binding
  /-- The binding that each node declares or refers to. -/
  owner : Array (Option BindingId)
  deriving Repr, Inhabited

namespace BindingTable

variable (b : BindingTable)

/-- The numbers of all bindings. -/
def ids : List BindingId := List.range b.bindings.size

/-- The binding of a number. -/
def binding (i : BindingId) : Binding := b.bindings.getD i default

/-- The binding that a node declares or refers to. -/
def of? (n : NodeId) : Option BindingId := b.owner.getD n none

/-- How the name at a node was declared. -/
def kindOf? (n : NodeId) : Option BindingKind := (b.of? n).map fun i => (b.binding i).kind

/-- The bindings of a name. -/
def named (name : String) : List BindingId := b.ids.filter fun i => (b.binding i).name == name

/-- The binding of a name in a scope: of several, the one declared last. -/
def inScope? (name : String) (s : ScopeId) : Option BindingId :=
  b.ids.reverse.find? fun i => (b.binding i).scope == s && (b.binding i).name == name

/-- The binding of a name as seen from a scope: the one of the innermost scope that has any. -/
def resolve? (t : Tree) (name : String) (s : ScopeId) : Option BindingId :=
  (t.scopeChain s).findSome? (b.inScope? name)

/-- A table with one more binding, to which its name node belongs. -/
def declare (new : Binding) : BindingTable where
  bindings := b.bindings.push new
  owner := b.owner.setIfInBounds new.nameNode (some b.bindings.size)

/-- A table with one more reference to a binding. -/
def refer (i : BindingId) (u : Usage) : BindingTable where
  bindings := b.bindings.modify i fun old => { old with usages := old.usages ++ [u] }
  owner := b.owner.setIfInBounds u.node (some i)

end BindingTable

end Declutter
