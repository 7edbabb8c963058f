import Declutter.Syntax.Parse
import Mathlib.Tactic.Common
import Mathlib.Tactic.Linarith

/-!
# How the nodes of a tree are numbered

The table of a syntax tree is written in one walk, a node before its children.  So the numbers
below a node form an interval, which the intervals of its children tile.  Everything that is true
of parents, children and subtrees follows from this.

## Main definitions

* `Tree.stop` — the number after the last node below a node.
* `Tree.Tiles` — whether some nodes tile an interval.
* `Tree.InPreorder` — what the numbering of a tree satisfies.

## Main results

* `Tree.inPreorder_ofConcrete` — the tree of a concrete tree is numbered so.
-/

namespace Declutter

namespace Tree

/-- The number after the last node below a node. -/
def stop (t : Tree) (i : NodeId) : Nat := (t.node i).stop

/-- Whether some nodes, with what is below them, tile the numbers from `start` up to `stop`. -/
def Tiles (t : Tree) (start stop : Nat) : List NodeId → Prop
  | [] => start = stop
  | c :: rest => start = c ∧ start < t.stop c ∧ t.Tiles (t.stop c) stop rest

/-- What the numbering of a tree satisfies. -/
structure InPreorder (t : Tree) : Prop where
  tiles : ∀ i < t.nodes.size, t.Tiles (i + 1) (t.stop i) (t.children i)
  parent_of_mem : ∀ i, ∀ c ∈ t.children i, t.parent? c = some i
  kind_eq : ∀ i < t.nodes.size, t.kind i = .ofType (t.type i)
  stop_le : ∀ i < t.nodes.size, t.stop i ≤ t.nodes.size
  parent_root : t.parent? 0 = none
  stop_root : t.stop 0 = t.nodes.size
  size_pos : 0 < t.nodes.size

end Tree

/-! ### The table of an outline -/

namespace Outline

mutual

theorem length_nodes (source : Bytes) (parent : Option NodeId) (i : NodeId) (o : Outline) :
    (nodes source parent i o).length = o.size := by
  cases o with
  | node l children =>
    rw [nodes, List.length_cons, length_nodesAll, size]

theorem length_nodesAll (source : Bytes) (parent : NodeId) (i : NodeId) (os : List Outline) :
    (nodesAll source parent i os).length = sizeAll os := by
  cases os with
  | nil => rfl
  | cons o rest => rw [nodesAll, List.length_append, length_nodes, length_nodesAll, sizeAll]

end

mutual

theorem length_place (parent : Option Kind) (outer : Place) (i : NodeId) (opened : List Scope)
    (o : Outline) : (place parent outer i opened o).2.length = o.size := by
  cases o with
  | node l children =>
    rw [place, size, List.length_cons, length_placeAll]

theorem length_placeAll (parent : Label) (outer inner : Place) (i : NodeId) (opened : List Scope)
    (os : List Outline) : (placeAll parent outer inner i opened os).2.length = sizeAll os := by
  cases os with
  | nil => rfl
  | cons o rest =>
    rw [placeAll, sizeAll, List.length_append, length_place, length_placeAll]

end

/-- Whether the table of a tree holds a construct at a number, with all that is below it. -/
def HeldAt (t : Tree) (source : Bytes) (parent : Option NodeId) (i : Nat) (o : Outline) :
    Prop :=
  ∀ (k : Nat) (h : k < o.size), i + k < t.nodes.size ∧
    t.node (i + k) = { (nodes source parent i o).get ⟨k, by rwa [length_nodes]⟩ with
      scope := t.scopeOf (i + k) }

/-- Whether the table of a tree holds siblings, the first one at a number. -/
def AllHeldAt (t : Tree) (source : Bytes) (parent : NodeId) (i : Nat) (os : List Outline) :
    Prop :=
  ∀ (k : Nat) (h : k < sizeAll os), i + k < t.nodes.size ∧
    t.node (i + k) = { (nodesAll source parent i os).get ⟨k, by rwa [length_nodesAll]⟩ with
      scope := t.scopeOf (i + k) }

variable {t : Tree} {source : Bytes}

theorem HeldAt.children {parent : Option NodeId} {i : Nat} {l : Label} {children : List Outline}
    (h : HeldAt t source parent i (.node l children)) :
    AllHeldAt t source i (i + 1) children := by
  intro k hk
  have hk' := h (k + 1) (by rw [size]; omega)
  rw [show i + (k + 1) = i + 1 + k by omega] at hk'
  exact hk'

theorem AllHeldAt.head {parent : NodeId} {i : Nat} {o : Outline} {rest : List Outline}
    (h : AllHeldAt t source parent i (o :: rest)) : HeldAt t source (some parent) i o := by
  intro k hk
  have hk' := h k (by rw [sizeAll]; omega)
  simp only [nodesAll, List.get_eq_getElem] at hk'
  rwa [List.getElem_append_left (by rwa [length_nodes])] at hk'

theorem AllHeldAt.tail {parent : NodeId} {i : Nat} {o : Outline} {rest : List Outline}
    (h : AllHeldAt t source parent i (o :: rest)) :
    AllHeldAt t source parent (i + o.size) rest := by
  intro k hk
  have hk' := h (o.size + k) (by rw [sizeAll]; omega)
  simp only [nodesAll, List.get_eq_getElem] at hk'
  rw [List.getElem_append_right (by rw [length_nodes]; omega)] at hk'
  simp only [length_nodes, Nat.add_sub_cancel_left] at hk'
  rwa [Nat.add_assoc]

theorem HeldAt.lt_size {parent : Option NodeId} {i : Nat} {o : Outline}
    (h : HeldAt t source parent i o) : i < t.nodes.size := by
  cases o with
  | node l children => simpa using (h 0 (by rw [size]; omega)).1

theorem HeldAt.node_eq {parent : Option NodeId} {i : Nat} {l : Label} {children : List Outline}
    (h : HeldAt t source parent i (.node l children)) :
    t.node i =
      { kind := l.kind
        type := l.type
        span := .ofOffsets source l.start l.stop
        field := l.field
        marks := l.marks
        parent
        children := siblingIds (i + 1) children
        stop := i + 1 + sizeAll children
        scope := t.scopeOf i } := by
  have := (h 0 (by rw [size]; omega)).2
  simpa [nodes] using this

theorem HeldAt.stop_eq {parent : Option NodeId} {i : Nat} {o : Outline}
    (h : HeldAt t source parent i o) : t.stop i = i + o.size := by
  cases o with
  | node l children =>
    rw [Tree.stop, h.node_eq, size]
    change i + 1 + sizeAll children = i + (sizeAll children + 1)
    omega

/-- The numbers of siblings tile the numbers of all that is below them. -/
theorem AllHeldAt.tiles {parent i : Nat} {os : List Outline}
    (h : AllHeldAt t source parent i os) : t.Tiles i (i + sizeAll os) (siblingIds i os) := by
  induction os generalizing i with
  | nil => rfl
  | cons o rest ih =>
    have hstop := h.head.stop_eq
    have hpos : 0 < o.size := by
      cases o
      rw [size]
      omega
    refine ⟨rfl, by omega, ?_⟩
    have := ih h.tail
    rw [sizeAll, ← Nat.add_assoc, hstop]
    exact this

/-- The siblings have the parent that was handed down to them. -/
theorem AllHeldAt.parent_eq {parent i c : Nat} {os : List Outline}
    (h : AllHeldAt t source parent i os) (hc : c ∈ siblingIds i os) :
    t.parent? c = some parent := by
  induction os generalizing i with
  | nil => cases hc
  | cons o rest ih =>
    rcases List.mem_cons.mp hc with rfl | hc
    · cases o with
      | node l children => rw [Tree.parent?, h.head.node_eq]
    · exact ih h.tail hc

/-- What holds of each node that is numbered between two numbers. -/
def LinkedBetween (t : Tree) (start stop : Nat) : Prop :=
  ∀ j : Nat, start ≤ j → j < stop →
    t.Tiles (j + 1) (t.stop j) (t.children j) ∧ (∀ c ∈ t.children j, t.parent? c = some j) ∧
      t.kind j = .ofType (t.type j) ∧ t.stop j ≤ stop

mutual

theorem HeldAt.linked {parent : Option NodeId} {i : Nat} {o : Outline}
    (h : HeldAt t source parent i o) : LinkedBetween t i (i + o.size) := by
  cases o with
  | node l children =>
    intro j hij hj
    -- Either the construct itself or something below it.
    rcases Nat.eq_or_lt_of_le hij with rfl | hij
    · have hchildren : t.children i = siblingIds (i + 1) children := by
        rw [Tree.children, h.node_eq]
      have hstop : t.stop i = i + 1 + sizeAll children := by rw [Tree.stop, h.node_eq]
      rw [hchildren, hstop]
      refine ⟨h.children.tiles, fun c hc => h.children.parent_eq hc, ?_, ?_⟩
      · rw [Tree.kind, Tree.type, h.node_eq]
        rfl
      · rw [size]
        omega
    · rw [size] at hj ⊢
      obtain ⟨htiles, hparent, hkind, hle⟩ := h.children.linked j hij (by omega)
      exact ⟨htiles, hparent, hkind, by omega⟩

theorem AllHeldAt.linked {parent i : Nat} {os : List Outline}
    (h : AllHeldAt t source parent i os) : LinkedBetween t i (i + sizeAll os) := by
  cases os with
  | nil =>
    intro j hij hj
    rw [sizeAll] at hj
    omega
  | cons o rest =>
    intro j hij hj
    rw [sizeAll, ← Nat.add_assoc] at hj ⊢
    rcases Nat.lt_or_ge j (i + o.size) with hlt | hge
    · obtain ⟨htiles, hparent, hkind, hle⟩ := h.head.linked j hij hlt
      exact ⟨htiles, hparent, hkind, by omega⟩
    · exact h.tail.linked j hge hj

end

end Outline

namespace Tree

/-- A number outside the table names a node without relatives. -/
theorem node_of_size_le {t : Tree} {i : Nat} (h : t.nodes.size ≤ i) : t.node i = default := by
  rw [node, Array.getD_eq_getD_getElem?, Array.getElem?_eq_none h]
  rfl

/-- The table of a tree is zipped together from two lists, of what is below each node and of where
it stands. -/
theorem node_ofConcrete (l : Language) (s : Bytes) (root : Concrete) :
    (ofConcrete l s root).nodes.size = root.outline.size ∧
      ∀ k (h : k < root.outline.size), (ofConcrete l s root).node k =
        { (root.outline.nodes s none 0).get ⟨k, by rwa [Outline.length_nodes]⟩ with
          scope := root.outline.scopes.2.get ⟨k, by
            rwa [Outline.scopes, Outline.length_place]⟩ } := by
  have hnodes := Outline.length_nodes s none 0 root.outline
  have hplaces : root.outline.scopes.2.length = root.outline.size :=
    Outline.length_place ..
  have hsize : (ofConcrete l s root).nodes.size = root.outline.size := by
    change (List.zipWith (fun (n : Node) scope => { n with scope })
      (root.outline.nodes s none 0) root.outline.scopes.2).toArray.size = _
    rw [List.size_toArray, List.length_zipWith, hnodes, hplaces, Nat.min_self]
  refine ⟨hsize, fun k hk => ?_⟩
  change (List.zipWith (fun (n : Node) scope => { n with scope })
    (root.outline.nodes s none 0) root.outline.scopes.2).toArray.getD k default = _
  rw [Array.getD_eq_getD_getElem?, List.getElem?_toArray, List.getElem?_eq_getElem (by
    rw [List.length_zipWith, hnodes, hplaces, Nat.min_self]; exact hk), Option.getD_some,
    List.getElem_zipWith]
  rfl

theorem heldAt_ofConcrete (l : Language) (s : Bytes) (root : Concrete) :
    Outline.HeldAt (.ofConcrete l s root) s none 0 root.outline ∧
      (ofConcrete l s root).nodes.size = root.outline.size := by
  obtain ⟨hsize, hnode⟩ := node_ofConcrete l s root
  refine ⟨fun k hk => ?_, hsize⟩
  rw [Nat.zero_add]
  refine ⟨hsize ▸ hk, ?_⟩
  rw [scopeOf, hnode k hk]

/-- **The tree of a concrete tree is numbered in one walk.** -/
theorem inPreorder_ofConcrete (l : Language) (s : Bytes) (root : Concrete) :
    (ofConcrete l s root).InPreorder := by
  obtain ⟨hheld, hsize⟩ := heldAt_ofConcrete l s root
  generalize ofConcrete l s root = t at hheld hsize
  have hlinked := hheld.linked
  rw [Nat.zero_add, ← hsize] at hlinked
  refine ⟨fun i hi => (hlinked i (Nat.zero_le i) hi).1, fun i c hc => ?_,
    fun i hi => (hlinked i (Nat.zero_le i) hi).2.2.1,
    fun i hi => (hlinked i (Nat.zero_le i) hi).2.2.2, ?_, ?_, hheld.lt_size⟩
  · rcases Nat.lt_or_ge i t.nodes.size with hi | hi
    · exact (hlinked i (Nat.zero_le i) hi).2.1 c hc
    · rw [children, node_of_size_le hi] at hc
      cases hc
  · cases ho : root.outline with
    | node label children =>
      rw [ho] at hheld
      rw [parent?, hheld.node_eq]
  · rw [hheld.stop_eq, hsize, Nat.zero_add]

/-! ### What follows from the tiling -/

section

variable {t : Tree} {start stop c d j : Nat} {l : List NodeId}

theorem Tiles.le (h : t.Tiles start stop l) : start ≤ stop := by
  induction l generalizing start with
  | nil => exact Nat.le_of_eq h
  | cons c rest ih =>
    obtain ⟨rfl, hlt, hrest⟩ := h
    exact Nat.le_trans (Nat.le_of_lt hlt) (ih hrest)

theorem Tiles.bounds (h : t.Tiles start stop l) (hc : c ∈ l) :
    start ≤ c ∧ c < t.stop c ∧ t.stop c ≤ stop := by
  induction l generalizing start with
  | nil => cases hc
  | cons d rest ih =>
    obtain ⟨rfl, hlt, hrest⟩ := h
    rcases List.mem_cons.mp hc with rfl | hc
    · exact ⟨Nat.le_refl _, hlt, hrest.le⟩
    · have := ih hrest hc
      omega

/-- Each number of a tiled interval lies in one of the tiles. -/
theorem Tiles.exists_mem (h : t.Tiles start stop l) (hj : start ≤ j) (hj' : j < stop) :
    ∃ c ∈ l, c ≤ j ∧ j < t.stop c := by
  induction l generalizing start with
  | nil =>
    have : start = stop := h
    omega
  | cons d rest ih =>
    obtain ⟨rfl, hlt, hrest⟩ := h
    rcases Nat.lt_or_ge j (t.stop start) with hjd | hjd
    · exact ⟨start, .head _, hj, hjd⟩
    · obtain ⟨c, hc, hcj⟩ := ih hrest hjd
      exact ⟨c, .tail _ hc, hcj⟩

/-- Of two tiles, one ends before the other begins. -/
theorem Tiles.pairwise (h : t.Tiles start stop l) :
    l.Pairwise fun c d => t.stop c ≤ d ∧ c < d := by
  induction l generalizing start with
  | nil => exact .nil
  | cons c rest ih =>
    obtain ⟨rfl, hlt, hrest⟩ := h
    refine .cons (fun d hd => ?_) (ih hrest)
    have := (hrest.bounds hd).1
    exact ⟨this, Nat.lt_of_lt_of_le hlt this⟩

end

theorem lt_size_of_mem_children {t : Tree} {i c : Nat} (hc : c ∈ t.children i) :
    i < t.nodes.size := by
  by_contra hi
  rw [children, node_of_size_le (Nat.le_of_not_lt hi)] at hc
  cases hc

/-- A child with a role is a child, and has the role. -/
theorem mem_of_child? {t : Tree} {i c : NodeId} {field : String} (h : t.child? i field = some c) :
    c ∈ t.children i ∧ t.hasField c field = true := by
  have hfield : (t.field c == some field) = true :=
    List.find?_some (p := fun c => t.field c == some field) h
  exact ⟨List.mem_of_find?_eq_some h, hfield⟩

theorem lt_size_of_parent {t : Tree} {i p : Nat} (hp : t.parent? i = some p) :
    i < t.nodes.size := by
  by_contra hi
  rw [parent?, node_of_size_le (Nat.le_of_not_lt hi)] at hp
  cases hp

namespace InPreorder

variable {t : Tree} (h : t.InPreorder) {i c d j p : Nat}
include h

/-- A child lies within its parent. -/
theorem child_bounds (hc : c ∈ t.children i) : i < c ∧ c < t.stop c ∧ t.stop c ≤ t.stop i :=
  (h.tiles i (lt_size_of_mem_children hc)).bounds hc

theorem lt_size_of_mem (hc : c ∈ t.children i) : c < t.nodes.size := by
  have hb := h.child_bounds hc
  have := h.stop_le i (lt_size_of_mem_children hc)
  omega

theorem lt_stop (hi : i < t.nodes.size) : i < t.stop i := (h.tiles i hi).le

/-- A node that is numbered within another one has its parent there. -/
theorem exists_parent_within (n : Nat) (hn : t.stop i - i ≤ n) (hi : i < t.nodes.size)
    (hij : i < j) (hj : j < t.stop i) : ∃ p, j ∈ t.children p ∧ i ≤ p := by
  induction n generalizing i with
  | zero => omega
  | succ n ih =>
    obtain ⟨c, hc, hcj, hjc⟩ := (h.tiles i hi).exists_mem hij hj
    have hb := h.child_bounds hc
    -- It is the child itself, or lies further down in it.
    rcases Nat.eq_or_lt_of_le hcj with rfl | hcj
    · exact ⟨i, hc, Nat.le_refl i⟩
    · obtain ⟨p, hp, hcp⟩ := ih (by omega) (h.lt_size_of_mem hc) hcj hjc
      exact ⟨p, hp, by omega⟩

/-- Every node but the root is a child of its parent. -/
theorem exists_parent (hj : j < t.nodes.size) (h0 : j ≠ 0) :
    ∃ p, t.parent? j = some p ∧ j ∈ t.children p := by
  obtain ⟨p, hp, -⟩ := h.exists_parent_within (t.stop 0) (Nat.sub_le _ _) h.size_pos
    (Nat.pos_of_ne_zero h0) (h.stop_root ▸ hj)
  exact ⟨p, h.parent_of_mem p j hp, hp⟩

theorem mem_children_iff : c ∈ t.children i ↔ t.parent? c = some i := by
  refine ⟨h.parent_of_mem i c, fun hp => ?_⟩
  have h0 : c ≠ 0 := by
    rintro rfl
    rw [h.parent_root] at hp
    cases hp
  obtain ⟨q, hq, hc⟩ := h.exists_parent (lt_size_of_parent hp) h0
  rwa [Option.some.inj (hp.symm.trans hq)]

/-- The parent of a node has the lower number. -/
theorem parent_lt (hp : t.parent? i = some p) : p < i :=
  (h.child_bounds (h.mem_children_iff.mpr hp)).1

end InPreorder

end Tree

end Declutter
