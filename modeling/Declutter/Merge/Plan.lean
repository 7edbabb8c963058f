import Declutter.Collection.Group
import Declutter.Naming
import Declutter.Rewrite.Inline

/-!
# Plans of merges

What the parts of a merge have in common: the names of the merged collection and of the fields of
its records, which members are removed, and the checks on the declarations that the merged
collection replaces.

## Main definitions

* `MergePlan`, `MergePlan.ofGroup` — the plan of a merge.
* `Draft` — some edits, and the nodes that need no further edit.
* `MergePlan.adjacentDeclarations` — the declarations that the merge replaces.
* `recordText` — a record as text.
-/

namespace Declutter

/-- Some edits of a merge, and the nodes that they take care of. -/
structure Draft where
  edits : List Edit := []
  covered : List NodeId := []
  deriving Repr, Inhabited

namespace Draft

/-- One draft after another. -/
def append (a b : Draft) : Draft := ⟨a.edits ++ b.edits, a.covered ++ b.covered⟩

/-- Several drafts one after another. -/
def concat (drafts : List Draft) : Draft := drafts.foldl append {}

end Draft

/-- The names that identifiers of a program spell. -/
def Tree.spelledNames (t : Tree) : List String :=
  ((t.ids.filter t.isReferenceNode).map t.text).eraseDups

/-- A field of a record, or of a pattern; the value is left out where it has the name of the
field. -/
def entryText (field value : String) : String :=
  if field == value then field else field ++ ": " ++ value

/-- Fields in braces. -/
def recordText (entries : List String) : String :=
  "\x7b " ++ ", ".intercalate entries ++ " \x7d"

/-- The plan of a merge. -/
structure MergePlan where
  tree : Tree
  table : BindingTable
  arena : Arena
  group : Group
  /-- The calls without side effects. -/
  pure : List String
  /-- The word by which a comment exempts the next line. -/
  marker : String
  /-- The names in use. -/
  names : List String
  /-- The name of the merged collection. -/
  recordName : String
  /-- The field of each member. -/
  fields : List (BindingId × String)
  /-- The offset from which on all members are complete. -/
  ready : Nat
  deriving Inhabited

namespace MergePlan

open Attempt

/-- The fields of some collections, each different from those before it. -/
def chooseFields (nameOf : BindingId → String) :
    (taken : List String) → List BindingId → List (BindingId × String)
  | _, [] => []
  | taken, i :: rest =>
    let field := fieldName (nameOf i) taken
    (i, field) :: chooseFields nameOf (taken ++ [field]) rest

/-- The plan of the merge of a group. -/
def ofGroup (t : Tree) (b : BindingTable) (a : Arena) (pure : List String) (marker : String)
    (names : List String) (g : Group) : MergePlan where
  tree := t
  table := b
  arena := a
  group := g
  pure
  marker
  names
  recordName := groupName (a.bindingOf b g.anchor).name names
  fields := chooseFields (fun i => (b.binding i).name) []
    (g.members.map fun m => (a.collection m).binding)
  ready := a.groupReadyOffset b t g

variable (p : MergePlan)

/-- The members that the merge removes. -/
def removed : List CollectionId :=
  match p.group.pattern with
  | .coBuilt => p.group.members
  | .derivedViews => p.group.derived

/-- A collection of the program. -/
def collection (i : CollectionId) : Collection := p.arena.collection i

/-- The number of the binding of a collection. -/
def bindingId (i : CollectionId) : BindingId := (p.collection i).binding

/-- The binding of a collection. -/
def binding (i : CollectionId) : Binding := p.table.binding (p.bindingId i)

/-- The name of a collection. -/
def nameOf (i : CollectionId) : String := (p.binding i).name

/-- Whether a binding is a member that the merge removes. -/
def removes (i : BindingId) : Bool := (p.removed.map p.bindingId).contains i

/-- Whether a binding is a member. -/
def hasMember (i : BindingId) : Bool := (p.group.members.map p.bindingId).contains i

/-- The field of a member. -/
def fieldOf (i : BindingId) : String := (p.fields.lookup i).getD ""

/-- The accesses that mark an element of a removed member. -/
def markerNodes : List NodeId :=
  p.removed.flatMap fun m => (p.collection m).markers.map (·.1)

/-- The terminator of a statement, if it has one. -/
def terminatorOf (i : NodeId) : String :=
  if Text.endsWith (Text.stripEnd (p.tree.text i)) ";" then ";" else ""

/-! ### Checks -/

/-- Whether a list of positions is a run of consecutive numbers. -/
def isConsecutive : List Nat → Bool
  | a :: b :: rest => b == a + 1 && isConsecutive (b :: rest)
  | _ => true

/-- The positions of some nodes in a list, if all of them are there. -/
def positions? (nodes siblings : List NodeId) : Option (List Nat) :=
  nodes.mapM fun n => siblings.findIdx? (· == n)

/-- The declarations of some members in the order of the source, provided that they are adjacent
statements of one list. -/
def adjacentDeclarations (members : List CollectionId) : Attempt (List NodeId) := do
  let start (i : NodeId) : Nat := (p.tree.span i).start
  let declared ← members.mapM fun m => fetch (.absent "span") (p.binding m).declaration
  let declarations := sortBy (fun d e => start d ≤ start e) declared
  match declarations with
  | [] => .error (.defect .exhausted)
  | first :: rest =>
    require (rest.all (p.tree.parent? · == p.tree.parent? first)) .differentBlocks
    match positions? declarations (p.tree.siblings first) with
    | none => withhold .notStatements
    | some positions =>
      require (isConsecutive positions) .notAdjacent
      return declarations

/-- Succeeds if no removed member is used within some regions, where the records are built. -/
def checkUnread (regions : List NodeId) : Attempt Unit :=
  checkAll (fun m =>
    require (!(p.binding m).usages.any fun u => regions.any (p.tree.isWithin u.node))
      (.readWhileBuilt (p.nameOf m))) p.removed

/-! ### Edits -/

/-- The edits that declare the merged collection in the place of the first of some declarations
and remove the others. -/
def declarationEdits (value : String) : List NodeId → List Edit
  | [] => []
  | first :: rest =>
    ⟨p.tree.span first, s!"const {p.recordName} = {value}" ++ p.terminatorOf first⟩ ::
      rest.map (p.tree.removal p.marker)

/-- All nodes below some nodes, these included. -/
def subtrees (nodes : List NodeId) : List NodeId := nodes.flatMap p.tree.subtree

end MergePlan

end Declutter
