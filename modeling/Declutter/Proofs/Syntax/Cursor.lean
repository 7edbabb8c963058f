import Declutter.Proofs.Syntax.Numbering
import Mathlib.Data.List.Basic

/-!
# Converting a concrete tree in one loop

A concrete tree may be deeper than what a recursion can bear.  It is converted in one loop, with a
cursor that moves from node to node and a stack of the constructs around it.  A turn of the loop
looks at the node under the cursor, and then goes down, on to the next sibling, or up as far as it
takes until there is one.  What the loop makes is the tree that the recursion makes.

## Main definitions

* `Cursor` — a place in a concrete tree, and the three moves.
* `Conversion` — what has been made so far: constructs that point to one another, and comments.
* `Visit`, `Visit.next?` — where the loop stands, and where it goes from there.
* `Concrete.convert` — the loop.
* `Conversion.extend` — what a list of siblings adds, in one piece.

## Main results

* `Visit.run_eq` — the loop does what is left to do around the cursor.
* `Concrete.convert_eq` — it makes the nodes and the comments of the syntax tree.
-/

namespace Declutter

/-! ### Cursors -/

/-- A cursor in a concrete tree. -/
structure Cursor where
  node : Concrete
  /-- The siblings behind the node. -/
  later : List Concrete
  /-- The nodes around it, from the inside out, with the siblings behind them. -/
  around : List (Concrete × List Concrete)

namespace Cursor

/-- A cursor at the root of a tree. -/
def ofRoot (root : Concrete) : Cursor := ⟨root, [], []⟩

variable (c : Cursor)

/-- The first child of the node. -/
def firstChild? : Option Cursor :=
  match c.node.children with
  | [] => none
  | child :: rest => some ⟨child, rest, (c.node, c.later) :: c.around⟩

/-- The sibling behind the node. -/
def nextSibling? : Option Cursor :=
  match c.later with
  | [] => none
  | sibling :: rest => some ⟨sibling, rest, c.around⟩

/-- The node around the node. -/
def parent? : Option Cursor :=
  match c.around with
  | [] => none
  | (parent, later) :: rest => some ⟨parent, later, rest⟩

end Cursor

/-! ### What is made -/

/-- What a node says of itself. -/
structure Tag where
  kind : Kind
  type : String
  span : Span
  field : Option String
  marks : Marks
  deriving DecidableEq, Repr, Inhabited

/-- A construct while the tree is made: what it says of itself, and the numbers of the constructs
around it and in it. -/
structure Construct extends Tag where
  parent : Option NodeId
  children : List NodeId
  deriving DecidableEq, Repr, Inhabited

/-- What a node says of itself. -/
def Node.tag (n : Node) : Tag := ⟨n.kind, n.type, n.span, n.field, n.marks⟩

/-- A node without what is found out about it later. -/
def Node.construct (n : Node) : Construct :=
  { n.tag with parent := n.parent, children := n.children }

/-- A construct at a concrete node, before any of its children has been looked at. -/
def Construct.ofHead (source : Bytes) (parent : Option NodeId) (h : Concrete.Head) : Construct where
  kind := .ofType h.type
  type := h.type
  span := .ofOffsets source h.start h.stop
  field := h.field
  marks := {}
  parent
  children := []

/-- What has been made of a concrete tree: the constructs in the order in which they were met, and
the comments. -/
structure Conversion where
  constructs : List Construct
  comments : List Comment
  deriving DecidableEq, Repr, Inhabited

namespace Conversion

variable (source : Bytes) (top : NodeId) (h : Concrete.Head) (o : Conversion)

/-- The number of the next construct. -/
def next : NodeId := o.constructs.length

/-- With one more comment. -/
def addComment : Conversion := { o with comments := o.comments ++ [.ofHead source h] }

/-- With one more construct within the construct `top`. -/
def addConstruct : Conversion :=
  let grown := o.constructs.modify top fun c => { c with children := c.children ++ [o.next] }
  { o with constructs := grown ++ [.ofHead source (some top) h] }

/-- With the mark of a token on the construct `top`. -/
def addMark : Conversion :=
  { o with constructs := o.constructs.modify top fun c =>
      { c with marks := .record c.type c.marks h } }

/-- What a node in the construct `top` adds by itself. -/
def look : Conversion :=
  if h.isComment then o.addComment source h
  else if h.isConstruct then o.addConstruct source top h
  else o.addMark top h

end Conversion

/-! ### The loop -/

/-- Where the loop stands: a cursor, and the numbers of the constructs around it, the innermost
one first. -/
structure Visit where
  cursor : Cursor
  top : NodeId
  below : List NodeId

namespace Visit

/-- The next sibling of a node or, where there is none, of the nearest node around it that has
one. -/
def climb? (c : Cursor) (top : NodeId) (below : List NodeId) : Option Visit :=
  match c.nextSibling? with
  | some sibling => some ⟨sibling, top, below⟩
  | none =>
    match below with
    | [] => none
    | outer :: below => climb? (c.parent?.getD c) outer below

/-- Where the loop goes, when a construct that is met has the number `next`: down into a
construct with children, else on. -/
def next? (v : Visit) (next : NodeId) : Option Visit :=
  match if v.cursor.node.head.isConstruct then v.cursor.firstChild? else none with
  | some child => some ⟨child, next, v.top :: v.below⟩
  | none => climb? v.cursor v.top v.below

end Visit

namespace Concrete

mutual

/-- The number of nodes of a tree. -/
def count : Concrete → Nat
  | node _ children => countIn children + 1

/-- The number of nodes of a list of trees. -/
def countIn : List Concrete → Nat
  | [] => 0
  | tree :: rest => count tree + countIn rest

end

theorem count_pos (c : Concrete) : 0 < c.count := by
  cases c
  rw [count]
  exact Nat.succ_pos _

end Concrete

/-- The number of nodes behind a cursor. -/
def Cursor.ahead (c : Cursor) : Nat :=
  Concrete.countIn c.later + (c.around.map fun frame => Concrete.countIn frame.2).sum

namespace Visit

/-- The number of nodes from a cursor on. -/
def todo (v : Visit) : Nat := v.cursor.node.count + v.cursor.ahead

theorem todo_le_of_climb? {c : Cursor} {top : NodeId} {below : List NodeId} {v : Visit}
    (h : climb? c top below = some v) : v.todo ≤ c.ahead := by
  induction below generalizing c top with
  | nil =>
    rw [climb?, Cursor.nextSibling?] at h
    cases hlater : c.later with
    | nil => simp [hlater] at h
    | cons d rest =>
      obtain rfl : (⟨⟨d, rest, c.around⟩, top, []⟩ : Visit) = v := by simpa [hlater] using h
      simp only [todo, Cursor.ahead, hlater, Concrete.countIn]
      omega
  | cons outer below ih =>
    rw [climb?, Cursor.nextSibling?] at h
    cases hlater : c.later with
    | nil =>
      simp only [hlater] at h
      refine Nat.le_trans (ih h) ?_
      cases haround : c.around with
      | nil => simp [Cursor.parent?, haround]
      | cons frame around =>
        simp only [Cursor.parent?, haround, Option.getD_some, Cursor.ahead, List.map_cons,
          List.sum_cons]
        omega
    | cons d rest =>
      obtain rfl : (⟨⟨d, rest, c.around⟩, top, outer :: below⟩ : Visit) = v := by
        simpa [hlater] using h
      simp only [todo, Cursor.ahead, hlater, Concrete.countIn]
      omega

/-- Each turn leaves less to do. -/
theorem todo_lt_of_next? {v w : Visit} {next : NodeId} (h : v.next? next = some w) :
    w.todo < v.todo := by
  rw [next?] at h
  split at h
  · rename_i child hchild
    obtain rfl := Option.some.inj h
    split at hchild
    · cases hnode : v.cursor.node with
      | node head children =>
        cases children with
        | nil => simp [Cursor.firstChild?, hnode, Concrete.children] at hchild
        | cons d rest =>
          obtain rfl : (⟨d, rest, (.node head (d :: rest), v.cursor.later) :: v.cursor.around⟩ :
              Cursor) = child := by
            simpa [Cursor.firstChild?, hnode, Concrete.children] using hchild
          simp only [todo, Cursor.ahead, hnode, Concrete.count, Concrete.countIn, List.map_cons,
            List.sum_cons]
          omega
    · cases hchild
  · have hle := todo_le_of_climb? h
    have hpos := v.cursor.node.count_pos
    exact Nat.lt_of_le_of_lt hle (Nat.lt_add_of_pos_left hpos)

/-- The loop: a turn looks at the node under the cursor. -/
def run (source : Bytes) (v : Visit) (o : Conversion) : Conversion :=
  let made := o.look source v.top v.cursor.node.head
  match _h : v.next? o.next with
  | none => made
  | some w => run source w made
termination_by v.todo
decreasing_by exact todo_lt_of_next? _h

end Visit

/-- The conversion of a concrete tree: the root has no role, and the comments are put in order. -/
def Concrete.convert (source : Bytes) (root : Concrete) : Conversion :=
  let start : Conversion := ⟨[.ofHead source none { root.head with field := none }], []⟩
  let made :=
    match (Cursor.ofRoot root).firstChild? with
    | none => start
    | some child => Visit.run source ⟨child, 0, []⟩ start
  { made with comments := sortBy (fun a b => a.span.start ≤ b.span.start) made.comments }

/-! ### What the loop does -/

namespace Conversion

variable {source : Bytes}

mutual

/-- What a tree adds, with all that is in it. -/
def build (source : Bytes) (top : NodeId) (o : Conversion) : Concrete → Conversion
  | .node h children =>
    let made := o.look source top h
    if h.isConstruct then buildAll source o.next made children else made

/-- What a list of trees adds. -/
def buildAll (source : Bytes) (top : NodeId) (o : Conversion) : List Concrete → Conversion
  | [] => o
  | tree :: rest => buildAll source top (build source top o tree) rest

end

/-- What is added when all constructs around a cursor are finished, one by one. -/
def resume (source : Bytes) (o : Conversion) :
    List NodeId → List (Concrete × List Concrete) → Conversion
  | outer :: below, (_, later) :: around =>
    resume source (buildAll source outer o later) below around
  | _, _ => o

@[simp] theorem resume_nil (o : Conversion) (around : List (Concrete × List Concrete)) :
    resume source o [] around = o := by
  cases around <;> rfl

@[simp] theorem resume_nil_right (o : Conversion) (below : List NodeId) :
    resume source o below [] = o := by
  cases below <;> rfl

end Conversion

namespace Visit

open Conversion

variable {source : Bytes}

/-- What is left to do from a cursor on. -/
def rest (source : Bytes) (v : Visit) (o : Conversion) : Conversion :=
  resume source (buildAll source v.top o (v.cursor.node :: v.cursor.later)) v.below v.cursor.around

/-- Behind a node there is left what is left at the place to which the climb leads. -/
theorem resume_eq_climb (c : Cursor) (top : NodeId) (below : List NodeId) (o : Conversion) :
    resume source (buildAll source top o c.later) below c.around =
      (climb? c top below).elim o fun v => v.rest source o := by
  induction below generalizing c top with
  | nil =>
    rw [climb?, Cursor.nextSibling?]
    cases hlater : c.later with
    | nil => rw [resume_nil, buildAll]; rfl
    | cons d later => rw [resume_nil, Option.elim, rest, resume_nil]
  | cons outer below ih =>
    rw [climb?, Cursor.nextSibling?]
    cases hlater : c.later with
    | nil =>
      -- Nothing is behind the node: one frame is left, and the construct that it belongs to.
      dsimp only
      rw [← ih, buildAll, Cursor.parent?]
      cases haround : c.around with
      | nil => rw [Option.getD_none, haround, hlater, buildAll, resume_nil_right, resume_nil_right]
      | cons frame around => rfl
    | cons d later => rfl

/-- A turn does the part of what is left to do that is done at the cursor. -/
theorem rest_eq_next (source : Bytes) (v : Visit) (o : Conversion) :
    let made := o.look source v.top v.cursor.node.head
    v.rest source o = (v.next? o.next).elim made fun w => w.rest source made := by
  intro made
  obtain ⟨⟨⟨h, children⟩, later, around⟩, top, below⟩ := v
  -- Where nothing is below the node, the climb follows.
  have hclimb : build source top o (.node h children) = made →
      rest source ⟨⟨.node h children, later, around⟩, top, below⟩ o =
        (climb? ⟨.node h children, later, around⟩ top below).elim made
          fun w => w.rest source made := fun hbuild => by
    rw [← resume_eq_climb, rest, buildAll, hbuild]
  unfold next?
  cases hconstruct : h.isConstruct with
  | false =>
    rw [show (Concrete.node h children).head = h from rfl, hconstruct, if_neg Bool.false_ne_true]
    exact hclimb (by rw [build, hconstruct]; exact if_neg Bool.false_ne_true)
  | true =>
    rw [show (Concrete.node h children).head = h from rfl, hconstruct, if_pos rfl]
    cases children with
    | nil => exact hclimb (by rw [build, hconstruct]; exact if_pos rfl)
    | cons d rest =>
      -- The children are built first, and the later siblings wait in the frame that is pushed.
      have hbuild : build source top o (.node h (d :: rest)) =
          buildAll source o.next made (d :: rest) := by
        rw [build, hconstruct]
        exact if_pos rfl
      rw [Visit.rest, buildAll, hbuild]
      rfl

/-- **The loop does what is left to do**, around the cursor and behind it. -/
theorem run_eq (v : Visit) (o : Conversion) : v.run source o = v.rest source o := by
  induction hn : v.todo using Nat.strongRecOn generalizing v o with
  | ind n ih =>
    -- One turn, and then what is left at the next place.
    have hrest := rest_eq_next source v o
    dsimp only at hrest
    rw [hrest, run]
    split
    · rename_i hnext
      rw [hnext, Option.elim]
    · rename_i w hnext
      rw [hnext, Option.elim]
      exact ih w.todo (hn ▸ todo_lt_of_next? hnext) w _ rfl

end Visit

/-! ### What a list of siblings adds -/

section

variable {α : Type _} (f : α → α)

/-- What a modification within the first part of a list does. -/
theorem modify_append_of_lt {i : Nat} {l : List α} (l' : List α)
    (h : i < l.length) : (l ++ l').modify i f = l.modify i f ++ l' := by
  rw [List.modify_eq_take_drop, List.modify_eq_take_drop, List.take_append_of_le_length h.le,
    List.drop_append_of_le_length h.le, List.append_assoc]
  congr 1
  rw [List.drop_eq_getElem_cons h]
  rfl

theorem modify_concat {i : Nat} {l : List α} (h : l.length = i) (a : α) :
    (l ++ [a]).modify i f = l ++ [f a] := by
  subst h
  rw [List.modify_eq_take_drop, List.take_left, List.drop_left]
  rfl

end

namespace Outline

/-- The numbers of siblings in two lists. -/
theorem siblingIds_append (i : NodeId) (os os' : List Outline) :
    siblingIds i (os ++ os') = siblingIds i os ++ siblingIds (i + sizeAll os) os' := by
  induction os generalizing i with
  | nil => rfl
  | cons o os ih => rw [List.cons_append, siblingIds, siblingIds, ih, sizeAll, ← Nat.add_assoc]; rfl

theorem nodesAll_append (source : Bytes) (parent i : NodeId) (os os' : List Outline) :
    nodesAll source parent i (os ++ os') =
      nodesAll source parent i os ++ nodesAll source parent (i + sizeAll os) os' := by
  induction os generalizing i with
  | nil => rfl
  | cons o os ih =>
    rw [List.cons_append, nodesAll, nodesAll, ih, sizeAll, ← Nat.add_assoc, List.append_assoc]

end Outline

namespace Concrete

theorem outlines_append (l l' : List Concrete) :
    outlines (l ++ l') = outlines l ++ outlines l' := by
  induction l with
  | nil => rfl
  | cons c l ih =>
    rw [List.cons_append, outlines, outlines, ih]
    split <;> rfl

theorem commentsIn_append (l l' : List Concrete) :
    commentsIn (l ++ l') = commentsIn l ++ commentsIn l' := by
  induction l with
  | nil => rfl
  | cons c l ih =>
    rw [List.cons_append, commentsIn, commentsIn, ih]
    split
    · rfl
    · split
      · rw [List.append_assoc]
      · rfl

end Concrete

/-- Only tokens and optional links leave a mark. -/
theorem Marks.record_of_isComment {parent : String} {marks : Marks} {h : Concrete.Head}
    (hcomment : h.isComment = true) : marks.record parent h = marks := by
  have htype : h.type = "comment" := beq_iff_eq.mp hcomment
  have hlink : h.isOptionalLink = false := by rw [Concrete.Head.isOptionalLink, htype]; decide
  have htoken : h.isToken = false := by rw [Concrete.Head.isToken, hcomment]; rfl
  rw [record, hlink, htoken]
  rfl

theorem Marks.record_of_isConstruct {parent : String} {marks : Marks} {h : Concrete.Head}
    (hconstruct : h.isConstruct = true) : marks.record parent h = marks := by
  simp only [Concrete.Head.isConstruct, Bool.and_eq_true, Bool.not_eq_true'] at hconstruct
  have htoken : h.isToken = false := by rw [Concrete.Head.isToken, hconstruct.2]; simp
  rw [record, hconstruct.1.2, htoken]
  rfl

theorem Concrete.Head.isConstruct_of_isComment {h : Concrete.Head} (hcomment : h.isComment = true) :
    h.isConstruct = false := by
  rw [isConstruct, hcomment]
  rfl

namespace Conversion

open Concrete Outline

/-- A construct with what a list of its children adds to it, when the first construct among them
has the number `next`. -/
def adopt (next : NodeId) (trees : List Concrete) (c : Construct) : Construct :=
  { c with
    marks := (trees.map head).foldl (.record c.type) c.marks
    children := c.children ++ siblingIds next (outlines trees) }

/-- What a list of siblings in the construct `top` adds, in one piece: what it adds to `top`, all
constructs in it, and the comments. -/
def extend (source : Bytes) (top : NodeId) (o : Conversion) (trees : List Concrete) :
    Conversion where
  constructs := o.constructs.modify top (adopt o.next trees) ++
    (nodesAll source top o.next (outlines trees)).map Node.construct
  comments := o.comments ++ (commentsIn trees).map (.ofHead source)

variable {source : Bytes} {top : NodeId} {o : Conversion}

theorem adopt_nil (next : NodeId) : adopt next [] = id := by
  funext c
  rw [adopt, outlines, siblingIds, List.append_nil]
  rfl

theorem adopt_append (next : NodeId) (l l' : List Concrete) :
    adopt (next + sizeAll (outlines l)) l' ∘ adopt next l = adopt next (l ++ l') := by
  funext c
  rw [Function.comp_apply, adopt, adopt, adopt, List.map_append, List.foldl_append,
    outlines_append, siblingIds_append, List.append_assoc]

theorem extend_nil : o.extend source top [] = o := by
  rw [extend, adopt_nil, List.modify_id, outlines, nodesAll, commentsIn, List.map_nil,
    List.map_nil, List.append_nil, List.append_nil]

theorem next_extend (l : List Concrete) :
    (o.extend source top l).next = o.next + sizeAll (outlines l) := by
  rw [next, extend, List.length_append, List.length_modify, List.length_map, length_nodesAll]
  rfl

theorem extend_append (htop : top < o.next) (l l' : List Concrete) :
    (o.extend source top l).extend source top l' = o.extend source top (l ++ l') := by
  rw [extend, next_extend, extend, extend]
  dsimp only
  rw [modify_append_of_lt _ _ (by rwa [List.length_modify]), List.modify_modify_eq, adopt_append,
    outlines_append, nodesAll_append, commentsIn_append, List.map_append, List.map_append,
    List.append_assoc, List.append_assoc]

variable {h : Head} {children : List Concrete}

/-- A comment adds itself. -/
theorem extend_comment (hcomment : h.isComment = true) :
    o.extend source top [.node h children] = o.addComment source h := by
  have hconstruct := Head.isConstruct_of_isComment hcomment
  have hadopt : adopt o.next [.node h children] = id := by
    funext c
    simp [adopt, outlines, head, hconstruct, siblingIds, Marks.record_of_isComment hcomment]
  rw [extend, hadopt, List.modify_id]
  simp [addComment, outlines, commentsIn, head, hcomment, hconstruct, nodesAll]

/-- A token or an optional link adds its mark, and what is below it is lost. -/
theorem extend_mark (hcomment : h.isComment = false) (hconstruct : h.isConstruct = false) :
    o.extend source top [.node h children] = o.addMark top h := by
  have hadopt : adopt o.next [.node h children] =
      fun c => { c with marks := .record c.type c.marks h } := by
    funext c
    simp [adopt, outlines, head, hconstruct, siblingIds]
  rw [extend, hadopt]
  simp [addMark, outlines, commentsIn, head, hcomment, hconstruct, nodesAll]

theorem next_addConstruct : (o.addConstruct source top h).next = o.next + 1 := by
  rw [next, addConstruct, List.length_append, List.length_modify]
  rfl

/-- A construct adds itself and what its children add to it. -/
theorem extend_construct (hcomment : h.isComment = false) (hconstruct : h.isConstruct = true) :
    o.extend source top [.node h children] =
      (o.addConstruct source top h).extend source o.next children := by
  have hadopt : adopt o.next [.node h children] =
      fun c => { c with children := c.children ++ [o.next] } := by
    funext c
    simp [adopt, outlines, outline, head, hconstruct, siblingIds,
      Marks.record_of_isConstruct hconstruct]
  -- The new construct is the last one so far, and adopts its children.
  have hgrown : (o.addConstruct source top h).constructs.modify o.next
      (adopt (o.next + 1) children) =
      (o.constructs.modify top fun c => { c with children := c.children ++ [o.next] }) ++
        [adopt (o.next + 1) children (.ofHead source (some top) h)] := by
    rw [addConstruct]
    exact modify_concat _ (List.length_modify ..) _
  rw [extend, extend, next_addConstruct, hadopt, hgrown]
  simp only [outlines, outline, commentsIn, head, hcomment, hconstruct, nodesAll, nodes,
    if_true, Bool.false_eq_true, if_false, List.append_assoc, List.append_nil, List.map_cons]
  rfl

mutual

/-- **The recursion adds what is added in one piece**, for a tree and for a list of trees. -/
theorem build_eq (source : Bytes) (top : NodeId) (o : Conversion) (c : Concrete) :
    o.build source top c = o.extend source top [c] := by
  cases c with
  | node h children =>
    rw [build, look]
    cases hcomment : h.isComment with
    | true =>
      rw [Head.isConstruct_of_isComment hcomment, extend_comment hcomment]
      rfl
    | false =>
      cases hconstruct : h.isConstruct with
      | true =>
        have hlt : o.next < (o.addConstruct source top h).next :=
          Nat.lt_of_lt_of_eq (Nat.lt_succ_self _) next_addConstruct.symm
        rw [extend_construct hcomment hconstruct]
        exact buildAll_eq source hlt children
      | false =>
        rw [extend_mark hcomment hconstruct]
        rfl

theorem buildAll_eq (source : Bytes) {top : NodeId} {o : Conversion} (htop : top < o.next)
    (l : List Concrete) : o.buildAll source top l = o.extend source top l := by
  cases l with
  | nil => rw [buildAll, extend_nil]
  | cons c rest =>
    have hrest : top < (o.extend source top [c]).next := by
      rw [next_extend]
      exact Nat.lt_add_right _ htop
    rw [buildAll, build_eq source top o c, buildAll_eq source hrest rest, extend_append htop]
    rfl

end

end Conversion

/-! ### The tree that is made -/

/-- The root of a tree has no role. -/
def Concrete.detached : Concrete → Concrete
  | node h children => node { h with field := none } children

/-- The nodes of a tree are those of its outline; where they stand is found out later. -/
theorem Tree.map_construct_nodes (l : Language) (source : Bytes) (root : Concrete) :
    (ofConcrete l source root).nodes.toList.map Node.construct =
      (root.outline.nodes source none 0).map Node.construct := by
  have hlength : (root.outline.nodes source none 0).length = root.outline.scopes.2.length := by
    rw [Outline.length_nodes, Outline.scopes, Outline.length_place]
  change (((root.outline.nodes source none 0).zipWith
    (fun (n : Node) scope => { n with scope }) root.outline.scopes.2).toArray.toList).map _ = _
  rw [List.toList_toArray, List.map_zipWith]
  generalize root.outline.nodes source none 0 = nodes at hlength
  generalize root.outline.scopes.2 = scopes at hlength
  induction nodes generalizing scopes with
  | nil => rfl
  | cons n nodes ih =>
    cases scopes with
    | nil => cases hlength
    | cons scope scopes =>
      rw [List.zipWith_cons_cons, ih scopes (Nat.succ.inj hlength), List.map_cons]
      rfl

/-- The loop makes what the recursion makes. -/
theorem Concrete.convert_eq_extend (source : Bytes) (root : Concrete) :
    let start : Conversion := ⟨[.ofHead source none { root.head with field := none }], []⟩
    let made := start.extend source 0 root.children
    root.convert source =
      { made with comments := sortBy (fun a b => a.span.start ≤ b.span.start) made.comments } := by
  intro start made
  have hmade : start.buildAll source 0 root.children = made :=
    Conversion.buildAll_eq source Nat.one_pos _
  unfold convert Cursor.firstChild? Cursor.ofRoot
  dsimp only
  rw [← hmade]
  cases root.children with
  | nil => rfl
  | cons child rest =>
    dsimp only
    rw [Visit.run_eq, Visit.rest, Conversion.resume_nil]

/-- **The loop makes the syntax tree**: its nodes and its comments. -/
theorem Concrete.convert_eq (l : Language) (source : Bytes) (root : Concrete) :
    let t := Tree.ofConcrete l source root.detached
    root.convert source = ⟨t.nodes.toList.map Node.construct, t.comments⟩ := by
  intro t
  have hconvert := convert_eq_extend source root
  dsimp only at hconvert
  rw [hconvert, Tree.map_construct_nodes]
  cases root with
  | node h children =>
    have hcomments : t.comments = sortBy (fun a b => a.span.start ≤ b.span.start)
        ((commentsIn children).map (.ofHead source)) := by
      change sortBy _ ((Concrete.node _ children).comments.map _) = _
      rw [comments]
    rw [hcomments, detached, outline, Outline.nodes, List.map_cons]
    rfl

end Declutter
