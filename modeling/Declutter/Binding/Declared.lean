import Declutter.Binding.Basic

/-!
# Declared names

Which identifiers declare names, and in which scopes.  A pattern declares the names at its leaves:
not the keys, the default values or the types in it.

## Main definitions

* `Tree.patternNames` — the names that a pattern declares.
* `Tree.declaredAt` — the bindings that a construct declares.
* `Tree.declared` — the bindings of a program, heads of loops apart.
* `Tree.loopHeadNames` — the names declared in the head of a loop.
-/

namespace Declutter.Tree

variable (t : Tree)

/-! ### Patterns -/

/-- Whether an identifier stands for a name in a pattern. -/
def isNameLeaf (i : NodeId) : Bool :=
  t.kind i == .identifier || t.type i == "shorthand_property_identifier_pattern"

/-- Whether the child `i` of a pattern belongs to what the pattern declares: the value of a pair,
the left side of a default, the pattern of a parameter, and every element of a list. -/
def isPatternPart (i : NodeId) : Bool :=
  match t.parent? i with
  | none => false
  | some p =>
    let part (field : String) := t.child? p field == some i
    match t.type p with
    | "pair_pattern" => part "value"
    | "assignment_pattern" | "object_assignment_pattern" => part "left"
    | "required_parameter" | "optional_parameter" => part "pattern"
    | "object_pattern" | "array_pattern" | "rest_pattern" => true
    | _ => false

/-- The names that a pattern declares, in the order of the source. -/
def patternNames (i : NodeId) : List NodeId :=
  (t.subtree i).filter fun n =>
    t.isNameLeaf n && (t.pathUp n i).all fun m => m == i || t.isPatternPart m

/-! ### Declarations -/

/-- A name declared in the scope where it is written. -/
def bindingAt (kind : BindingKind) (i : NodeId) : Binding where
  name := t.text i
  kind
  nameNode := i
  scope := t.scopeOf i

/-- The scope of a name declared by a keyword: a `var` belongs to the function around it. -/
def declarationScope (kind : BindingKind) (i : NodeId) : ScopeId :=
  if kind == .var then t.functionScope (t.scopeOf i) else t.scopeOf i

/-- A name declared by a keyword. -/
def keywordBinding (kind : BindingKind) (i : NodeId) : Binding :=
  { t.bindingAt kind i with scope := t.declarationScope kind i }

/-- The name of a function or class. -/
def declaredName (kind : BindingKind) (i : NodeId) : List Binding :=
  match t.child? i "name" with
  | some name => if t.kind name == .identifier then [t.bindingAt kind name] else []
  | none => []

/-- The names in a declaration of variables.  Only a name without a pattern has an initial
value. -/
def declaredVariables (i : NodeId) : List Binding :=
  let kind := BindingKind.ofKeyword ((t.keyword i).getD "var")
  let exported := t.parentKind? i == some .exportStatement
  let statement := if exported then t.parent? i else some i
  ((t.children i).filter (t.kind · == .declarator)).flatMap fun declarator =>
    match t.child? declarator "name" with
    | none => []
    | some name =>
      (t.patternNames name).map fun n =>
        { t.keywordBinding kind n with
          declaration := statement
          declarator := some declarator
          initializer := if n == name then t.child? declarator "value" else none
          exported }

/-- The parameters of a function. -/
def declaredParameters (i : NodeId) : List Binding :=
  let single := (t.child? i "parameter").toList
  let listed := match t.child? i "parameters" with
    | some list => t.children list
    | none => []
  ((single ++ listed).flatMap t.patternNames).map (t.bindingAt .param)

/-- Whether an identifier in an import names a binding: not the exported name that an alias
replaces. -/
def isImportedName (i : NodeId) : Bool :=
  t.kind i == .identifier &&
    match t.parent? i with
    | none => true
    | some p =>
      !(t.kind p == .importSpecifier && (t.child? p "alias").any (· != i))

/-- The names of an import, which belong to the program. -/
def declaredImports (i : NodeId) : List Binding :=
  ((t.subtree i).filter t.isImportedName).map fun n => { t.bindingAt .import n with scope := 0 }

/-- The bindings that a construct declares. -/
def declaredAt (i : NodeId) : List Binding :=
  match t.kind i with
  | .variableDeclaration => t.declaredVariables i
  | .function => t.declaredName .function i ++ t.declaredParameters i
  | .classDefinition => t.declaredName .class i
  | .catchClause =>
    ((t.child? i "parameter").toList.flatMap t.patternNames).map (t.bindingAt .handler)
  | .importStatement => t.declaredImports i
  | _ => []

/-- The bindings of a program in the order of the source, except those in the heads of loops. -/
def declared : List Binding := t.ids.flatMap t.declaredAt

/-! ### Heads of loops -/

/-- The names that the head of a loop over elements declares, each with its keyword. -/
def loopHeadNames (i : NodeId) : List (NodeId × String) :=
  match t.kind i, t.keyword i, t.child? i "left" with
  | .forInStatement, some keyword, some left => (t.patternNames left).map fun n => (n, keyword)
  | _, _, _ => []

/-- The names that the heads of loops declare. -/
def allLoopHeadNames : List (NodeId × String) := t.ids.flatMap t.loopHeadNames

end Declutter.Tree
