import Declutter.Collection.Arena
import Declutter.Finding.Basic

/-!
# Groups of parallel collections

Collections that hold matching elements at the same indices: views of one collection, or
collections filled side by side in one loop.

## Main definitions

* `Group` — collections that belong together.
* `Arena.coBuiltGroups`, `Arena.viewGroups` — the two ways in which they do.
* `Arena.groups` — the groups of a program, none within another.
* `Group.finding` — what is reported of a group.
-/

namespace Declutter

/-- Why collections belong together. -/
inductive Pattern where
  /-- They are views of one collection. -/
  | derivedViews
  /-- They are filled in one loop. -/
  | coBuilt
  deriving DecidableEq, Repr, Inhabited

/-- The name of a pattern. -/
def Pattern.name : Pattern → String
  | derivedViews => "derived-views"
  | coBuilt => "co-built"

/-- Collections that hold matching elements at the same indices. -/
structure Group where
  members : List CollectionId
  /-- The collection with which they are aligned. -/
  anchor : CollectionId
  pattern : Pattern
  /-- The loop that fills them. -/
  loop : Option NodeId := none
  /-- Whether the anchor is a member itself. -/
  anchorJoined : Bool := false
  deriving DecidableEq, Repr, Inhabited

/-- A list split by a key, in the order in which the keys appear. -/
def groupBy [BEq κ] (key : α → κ) (l : List α) : List (κ × List α) :=
  (l.map key).eraseDups.map fun k => (k, l.filter (key · == k))

namespace Group

/-- The members other than a joined anchor. -/
def derived (g : Group) : List CollectionId := g.members.filter (· != g.anchor)

/-- Whether every member of `g` is one of `h`. -/
def isWithin (g h : Group) : Bool := g.members.all h.members.contains

/-- Whether `h` has all members of `g` and more. -/
def isStrictlyWithin (g h : Group) : Bool := g.isWithin h && !h.isWithin g

end Group

namespace Arena

variable (a : Arena) (b : BindingTable) (t : Tree)

/-- The greatest of some offsets. -/
def latest (offsets : List Nat) : Nat := offsets.foldl max 0

/-- The offset from which on all members of a group and its anchor are complete. -/
def groupReadyOffset (g : Group) : Nat :=
  latest ((g.members ++ [g.anchor]).map (a.readyOffset b t))

/-! ### Collections filled in one loop -/

/-- The loop that fills a collection, if it stays as it was filled. -/
def fillingLoop? (i : CollectionId) : Option NodeId :=
  let c := a.collection i
  if c.derivation == .append && !c.mutated then c.loop else none

/-- The groups of collections filled in one loop. -/
def coBuiltGroups : List Group :=
  let filled := a.ids.filter fun i => (a.fillingLoop? i).isSome
  (groupBy a.fillingLoop? filled).filterMap fun (loop, members) =>
    match members with
    | first :: _ :: _ =>
      some { members, anchor := ((a.collection first).origin).getD 0, pattern := .coBuilt, loop }
    | _ => none

/-! ### Views of one collection -/

/-- Whether the marked elements of a collection have indices of its anchor. -/
def markersAligned (i anchor : CollectionId) : Bool :=
  (a.collection i).markers.all fun (_, context) =>
    (a.ofBinding? context.collection).any fun owner => a.anchor? owner == some anchor

/-- The collection of which another one is a view. -/
def viewedAnchor? (i : CollectionId) : Option CollectionId :=
  if a.isView i then (a.anchor? i).filter fun anchor => anchor != i && a.markersAligned i anchor
  else none

/-- Whether an iteration zips an anchor with one of its views, in either direction, once all of
them are complete. -/
def zipsWithAnchor (anchor : CollectionId) (views : List CollectionId) : Bool :=
  let ready := latest ((views ++ [anchor]).map (a.readyOffset b t))
  let binding (i : CollectionId) : BindingId := (a.collection i).binding
  let isView (i : BindingId) : Bool := (views.map binding).contains i
  a.contexts.any fun context =>
    ready ≤ (t.span context.node).start &&
      (b.indexedAccesses t context).any fun (_, target) =>
        (context.collection == binding anchor && isView target) ||
          (isView context.collection && target == binding anchor)

/-- The group of an anchor and its views; none if there is only one collection to it. -/
def viewGroup? (anchor : CollectionId) (views : List CollectionId) : Option Group :=
  let anchorJoined := a.zipsWithAnchor b t anchor views
  let members := if anchorJoined then anchor :: views else views
  if members.length < 2 then none
  else
    some { members := sortBy (· ≤ ·) members, anchor, pattern := .derivedViews, anchorJoined }

/-- The groups of views of one collection. -/
def viewGroups : List Group :=
  let views := a.ids.filter fun i => (a.viewedAnchor? i).isSome
  (groupBy a.viewedAnchor? views).filterMap fun (anchor, members) =>
    anchor.bind fun anchor => a.viewGroup? b t anchor members

/-! ### All groups -/

/-- The groups of a program: of groups one within the other only the larger, and the groups in the
order of their first members. -/
def groups : List Group :=
  let all := a.coBuiltGroups ++ a.viewGroups b t
  let maximal := all.filter fun g => !all.any g.isStrictlyWithin
  let first (g : Group) : Nat := g.members.head?.getD 0
  let distinct := distinctBy (fun g h => g.isWithin h && h.isWithin g) [] maximal
  sortBy (fun g h => first g ≤ first h) distinct

end Arena

/-! ### Findings -/

namespace Group

/-- The members that a merge removes: all but a joined anchor, or all if there are no others. -/
def removed (g : Group) : List CollectionId := if g.derived.isEmpty then g.members else g.derived

variable (g : Group) (a : Arena) (b : BindingTable) (t : Tree)

/-- The names of the members. -/
def names : String := ", ".intercalate (g.members.map fun i => (a.bindingOf b i).name)

/-- Why the members should be merged. -/
def rationale : String :=
  let names := g.names a b
  match g.pattern with
  | .coBuilt =>
    s!"{names} are appended once per iteration of the same loop; " ++
      "consolidate them into one sequence of composite records"
  | .derivedViews =>
    s!"{names} are index-aligned views of '{(a.bindingOf b g.anchor).name}'; derived 1-to-1 " ++
      "views of the same source should be produced inside one derivation"

/-- The finding about a group of which `first` is the first member to be removed. -/
def findingAt (first : CollectionId) : Finding :=
  let span (i : CollectionId) : Span := t.span (a.bindingOf b i).declarationNode
  { rule := .parallelCollections
    primary := span first
    rationale := g.rationale a b
    symbol := g.names a b
    referenced := (g.members.filter (· != first)).map span }

/-- The finding about a group. -/
def finding : Except Defect Finding :=
  (Defect.exhausted.fetch g.removed.head?).map (g.findingAt a b t)

end Group

end Declutter
