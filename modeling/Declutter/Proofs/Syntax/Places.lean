import Declutter.Proofs.Syntax.Cursor
import Declutter.Proofs.Syntax.Walk
import Mathlib.Data.List.Lex
import Mathlib.Order.Lattice

/-!
# Which nodes of a concrete tree are kept

A place in a concrete tree is the way that leads there from the root, one number of a child after
the other.  A construct is kept if all constructs around it are; a comment is, if it stands in a
construct that is kept; of a token only the mark on the construct around it remains.  Constructs are
numbered in the order of their places, a place before those that it leads to.

## Main definitions

* `Concrete.at?` — the tree at a place.
* `Concrete.Keeps` — whether a place is one of a construct that is kept.
* `Concrete.met` — the nodes that the conversion looks at, with their places.
* `Tree.Mirrors` — what a syntax tree has of a concrete tree.
* `Walks` — the walk with a stack.
* `Concrete.withoutTokens` — a concrete tree without its tokens.

## Main results

* `Tree.mirrors_ofConcrete` — the syntax tree has the constructs that are kept, linked and numbered
  by their places.
* `Tree.InPreorder.walks_iff` — a walk from a node enumerates the numbers up to its `stop`.
* `Concrete.convert_mirrors` — the loop terminates with such a tree.
-/

namespace Declutter

namespace Concrete

/-! ### Places -/

/-- The tree at a place. -/
def at? : Concrete → List Nat → Option Concrete
  | c, [] => some c
  | c, k :: p => c.children[k]?.bind fun d => d.at? p

/-- Whether a place is one of a construct that is kept: the root, or a construct in one that is
kept. -/
inductive Keeps (root : Concrete) : List Nat → Prop
  | root : Keeps root []
  | child {p : List Nat} {k : Nat} {c : Concrete} (hp : Keeps root p)
      (hc : root.at? (p ++ [k]) = some c) (hconstruct : c.head.isConstruct = true) :
      Keeps root (p ++ [k])

variable {root c d : Concrete} {p q : List Nat} {k : Nat}

theorem at?_cons_eq_some_iff :
    c.at? (k :: p) = some d ↔ ∃ e, c.children[k]? = some e ∧ e.at? p = some d := by
  rw [at?, Option.bind_eq_some_iff]

theorem at?_singleton : c.at? [k] = c.children[k]? := by
  rw [at?]
  cases c.children[k]? <;> rfl

/-- A construct further down is kept if it is kept in the child on the way, which is a construct. -/
theorem keeps_cons_iff : c.Keeps (k :: p) ↔
    ∃ e, c.children[k]? = some e ∧ e.head.isConstruct = true ∧ e.Keeps p := by
  constructor
  · -- Along the way that `Keeps` grows, its first step stays the same.
    intro h
    generalize hq : k :: p = q at h
    induction h generalizing p with
    | root => cases hq
    | @child q j d _ hd hconstruct ih =>
      cases q with
      | nil =>
        obtain ⟨rfl, rfl⟩ := List.cons.inj hq
        exact ⟨d, by rwa [List.nil_append, at?_singleton] at hd, hconstruct, .root⟩
      | cons k' q =>
        obtain ⟨rfl, rfl⟩ := List.cons.inj hq
        obtain ⟨e, he, he', hkeeps⟩ := ih rfl
        obtain ⟨e', hchild, hd⟩ := at?_cons_eq_some_iff.mp hd
        obtain rfl := Option.some.inj (he.symm.trans hchild)
        exact ⟨e, he, he', .child hkeeps hd hconstruct⟩
  · rintro ⟨e, he, hconstruct, hkeeps⟩
    induction hkeeps with
    | root => exact .child (p := []) .root (at?_singleton.trans he) hconstruct
    | child _ hd hconstruct ih =>
      exact .child (p := k :: _) ih (at?_cons_eq_some_iff.mpr ⟨e, he, hd⟩) hconstruct

/-! ### What the conversion looks at -/

/-- A place in a child of a number, with the tree there. -/
def inChild (k : Nat) (x : List Nat × Concrete) : List Nat × Concrete := (k :: x.1, x.2)

mutual

/-- The nodes below the root of a tree that the conversion looks at, with their places. -/
def met : Concrete → List (List Nat × Concrete)
  | node _ children => metIn 0 children

/-- Those among siblings, the first of which has the number `k`, and below them. -/
def metIn (k : Nat) : List Concrete → List (List Nat × Concrete)
  | [] => []
  | c :: rest =>
    (([], c) :: if c.head.isConstruct then c.met else []).map (inChild k) ++ metIn (k + 1) rest

end

theorem mem_metIn_iff {l : List Concrete} : (p, d) ∈ metIn k l ↔ ∃ j e, l[j]? = some e ∧
    ∃ q, p = (k + j) :: q ∧ ((q = [] ∧ d = e) ∨ (e.head.isConstruct = true ∧ (q, d) ∈ e.met)) := by
  induction l generalizing k with
  | nil => simp [metIn]
  | cons c rest ih =>
    have hfirst : (p, d) ∈ (([], c) :: if c.head.isConstruct then c.met else []).map (inChild k) ↔
        ∃ q, p = k :: q ∧
          ((q = [] ∧ d = c) ∨ (c.head.isConstruct = true ∧ (q, d) ∈ c.met)) := by
      rw [List.mem_map]
      constructor
      · rintro ⟨⟨q, e⟩, hmem, heq⟩
        obtain ⟨rfl, rfl⟩ := Prod.mk.inj heq
        refine ⟨q, rfl, ?_⟩
        rcases List.mem_cons.mp hmem with heq | hmem
        · exact .inl (Prod.mk.inj heq)
        · split at hmem
          · exact .inr ⟨‹_›, hmem⟩
          · cases hmem
      · rintro ⟨q, rfl, ⟨rfl, rfl⟩ | ⟨hconstruct, hmem⟩⟩
        · exact ⟨([], d), .head _, rfl⟩
        · exact ⟨(q, d), .tail _ (by rwa [if_pos hconstruct]), rfl⟩
    rw [metIn, List.mem_append, hfirst, ih]
    constructor
    · rintro (h | ⟨j, e, hj, q, rfl, h⟩)
      · exact ⟨0, c, rfl, h⟩
      · exact ⟨j + 1, e, hj, q, by rw [Nat.add_assoc, Nat.add_comm 1 j], h⟩
    · rintro ⟨_ | j, e, hj, q, rfl, h⟩
      · obtain rfl := Option.some.inj hj
        exact .inl ⟨q, rfl, h⟩
      · exact .inr ⟨j, e, hj, q, by rw [Nat.add_assoc, Nat.add_comm 1 j], h⟩

/-- **The conversion looks at what stands in a construct that is kept.** -/
theorem mem_met_iff : (p, d) ∈ c.met ↔
    ∃ q k, p = q ++ [k] ∧ c.Keeps q ∧ c.at? p = some d := by
  induction p generalizing c with
  | nil =>
    cases c
    simp [met, mem_metIn_iff]
  | cons k p ih =>
    have hmet : (k :: p, d) ∈ c.met ↔ ∃ e, c.children[k]? = some e ∧
        ((p = [] ∧ d = e) ∨ (e.head.isConstruct = true ∧ (p, d) ∈ e.met)) := by
      cases c
      rw [met, mem_metIn_iff]
      simp [children]
    rw [hmet]
    constructor
    · rintro ⟨e, he, ⟨rfl, rfl⟩ | ⟨hconstruct, hd⟩⟩
      · exact ⟨[], k, rfl, .root, at?_singleton.trans he⟩
      · obtain ⟨q, j, rfl, hkeeps, hd⟩ := ih.mp hd
        exact ⟨k :: q, j, rfl, keeps_cons_iff.mpr ⟨e, he, hconstruct, hkeeps⟩,
          at?_cons_eq_some_iff.mpr ⟨e, he, hd⟩⟩
    · rintro ⟨q, j, heq, hkeeps, hd⟩
      obtain ⟨e, he, hd⟩ := at?_cons_eq_some_iff.mp hd
      refine ⟨e, he, ?_⟩
      cases q with
      | nil =>
        obtain ⟨rfl, rfl⟩ := List.cons.inj heq
        exact .inl ⟨rfl, (Option.some.inj hd).symm⟩
      | cons k' q =>
        obtain ⟨rfl, rfl⟩ := List.cons.inj heq
        obtain ⟨e', he', hconstruct, hkeeps⟩ := keeps_cons_iff.mp hkeeps
        obtain rfl := Option.some.inj (he.symm.trans he')
        exact .inr ⟨hconstruct, ih.mpr ⟨q, j, rfl, hkeeps, hd⟩⟩

theorem nil_lt_of_mem_met {x : List Nat × Concrete} (h : x ∈ c.met) : [] < x.1 := by
  obtain ⟨q, j, hplace, -⟩ := mem_met_iff.mp h
  rw [hplace]
  cases q <;> exact List.nil_lt_cons _ _

mutual

/-- **Places come in order**, each before those that it leads to. -/
theorem pairwise_met (c : Concrete) : (c.met.map (·.1)).Pairwise (· < ·) := by
  cases c with
  | node h children => exact pairwise_metIn 0 children

theorem pairwise_metIn (k : Nat) (l : List Concrete) :
    ((metIn k l).map (·.1)).Pairwise (· < ·) := by
  cases l with
  | nil => exact .nil
  | cons c rest =>
    have hinner : ((([], c) :: if c.head.isConstruct then c.met else []).map
        (·.1)).Pairwise (· < ·) := by
      rw [List.map_cons, List.pairwise_cons]
      constructor
      · intro p hp
        obtain ⟨x, hmem, rfl⟩ := List.mem_map.mp hp
        split at hmem
        · exact nil_lt_of_mem_met hmem
        · cases hmem
      · split
        · exact pairwise_met c
        · exact .nil
    rw [metIn, List.map_append, List.pairwise_append]
    refine ⟨?_, pairwise_metIn (k + 1) rest, ?_⟩
    · rw [List.map_map, List.pairwise_map]
      rw [List.pairwise_map] at hinner
      exact hinner.imp fun hlt => List.cons_lt_cons_iff.mpr (.inr ⟨rfl, hlt⟩)
    · -- The places among the later siblings begin with a greater number.
      intro p hp q hq
      obtain ⟨x, hx, rfl⟩ := List.mem_map.mp hp
      obtain ⟨y, -, rfl⟩ := List.mem_map.mp hx
      obtain ⟨⟨q, d⟩, hmem, rfl⟩ := List.mem_map.mp hq
      obtain ⟨j, e, -, q, rfl, -⟩ := mem_metIn_iff.mp hmem
      exact List.cons_lt_cons_iff.mpr (.inl (by omega))

end

/-- The constructs that are kept, with their places. -/
def kept (c : Concrete) : List (List Nat × Concrete) :=
  ([], c) :: c.met.filter (·.2.head.isConstruct)

/-- The comments in them, with their places. -/
def remarks (c : Concrete) : List (List Nat × Concrete) := c.met.filter (·.2.head.isComment)

theorem pairwise_kept (c : Concrete) : (c.kept.map (·.1)).Pairwise (· < ·) := by
  rw [kept, List.map_cons, List.pairwise_cons]
  constructor
  · intro p hp
    obtain ⟨x, hmem, rfl⟩ := List.mem_map.mp hp
    exact nil_lt_of_mem_met (List.mem_filter.mp hmem).1
  · exact (pairwise_met c).sublist (List.filter_sublist.map _)

theorem pairwise_remarks (c : Concrete) : (c.remarks.map (·.1)).Pairwise (· < ·) :=
  (pairwise_met c).sublist (List.filter_sublist.map _)

theorem mem_remarks_iff : (p, d) ∈ c.remarks ↔
    ∃ q k, p = q ++ [k] ∧ c.Keeps q ∧ c.at? p = some d ∧ d.head.isComment = true := by
  rw [remarks, List.mem_filter, mem_met_iff]
  constructor
  · rintro ⟨⟨q, k, hp, hkeeps, hd⟩, hcomment⟩
    exact ⟨q, k, hp, hkeeps, hd, hcomment⟩
  · rintro ⟨q, k, hp, hkeeps, hd, hcomment⟩
    exact ⟨⟨q, k, hp, hkeeps, hd⟩, hcomment⟩

theorem at?_of_mem_kept (h : (p, d) ∈ c.kept) : c.at? p = some d := by
  rcases List.mem_cons.mp h with heq | h
  · obtain ⟨rfl, rfl⟩ := Prod.mk.inj heq
    rw [at?]
  · obtain ⟨q, k, -, -, hd⟩ := mem_met_iff.mp (List.mem_filter.mp h).1
    exact hd

/-- The places of the constructs that are kept. -/
theorem mem_places_iff : p ∈ c.kept.map (·.1) ↔ c.Keeps p := by
  rw [List.mem_map]
  constructor
  · rintro ⟨⟨p, d⟩, h, rfl⟩
    rcases List.mem_cons.mp h with heq | h
    · obtain ⟨rfl, -⟩ := Prod.mk.inj heq
      exact .root
    · obtain ⟨hmem, hconstruct⟩ := List.mem_filter.mp h
      obtain ⟨q, k, rfl, hkeeps, hd⟩ := mem_met_iff.mp hmem
      exact .child hkeeps hd hconstruct
  · rintro (_ | ⟨hkeeps, hd, hconstruct⟩)
    · exact ⟨([], c), .head _, rfl⟩
    · exact ⟨(_, _), .tail _ (List.mem_filter.mpr
        ⟨mem_met_iff.mpr ⟨_, _, rfl, hkeeps, hd⟩, hconstruct⟩), rfl⟩

/-- A comment stands before a construct with two names, an optional link between them and a token
behind. -/
example :
    let leaf (type : String) (named : Bool) : Concrete :=
      .node ⟨type, named, false, 0, 0, none⟩ []
    let c : Concrete := .node ⟨"program", true, false, 0, 0, none⟩ [leaf "comment" true,
      .node ⟨"member_expression", true, false, 0, 0, none⟩
        [leaf "identifier" true, leaf "optional_chain" true, leaf "property_identifier" true],
      leaf ";" false]
    c.kept.map (·.1) = [[], [1], [1, 0], [1, 2]] ∧ c.remarks.map (·.1) = [[0]] := by
  decide +kernel

/-! ### The table of the outline -/

/-- What the node of a construct says of itself. -/
def tag (source : Bytes) : Concrete → Tag
  | node h children => {
      kind := .ofType h.type
      type := h.type
      span := .ofOffsets source h.start h.stop
      field := h.field
      marks := (children.map head).foldl (Marks.record h.type) {} }

/-- The constructs among siblings and in them, with their places. -/
def keptIn (k : Nat) (l : List Concrete) : List (List Nat × Concrete) :=
  (metIn k l).filter (·.2.head.isConstruct)

theorem kept_node (h : Head) (children : List Concrete) :
    (node h children).kept = ([], .node h children) :: keptIn 0 children := by
  rw [kept, met, keptIn]

theorem keptIn_cons_of_isConstruct {l : List Concrete} (h : c.head.isConstruct = true) :
    keptIn k (c :: l) = c.kept.map (inChild k) ++ keptIn (k + 1) l := by
  rw [keptIn, metIn, List.filter_append, List.filter_map, if_pos h, kept]
  congr 2
  exact List.filter_cons_of_pos h

theorem keptIn_cons_of_not_isConstruct {l : List Concrete} (h : c.head.isConstruct = false) :
    keptIn k (c :: l) = keptIn (k + 1) l := by
  rw [keptIn, metIn, List.filter_append, List.filter_map, if_neg (by simp [h])]
  rw [List.filter_cons_of_neg (by simp [inChild, h])]
  rfl

mutual

/-- **The nodes stand for the constructs that are kept**, in the order of their places. -/
theorem map_tag_nodes (source : Bytes) (parent : Option NodeId) (i : NodeId) (c : Concrete) :
    (c.outline.nodes source parent i).map Node.tag = c.kept.map fun x => x.2.tag source := by
  cases c with
  | node h children =>
    rw [outline, Outline.nodes, List.map_cons, kept_node, List.map_cons,
      map_tag_nodesAll source i (i + 1) 0 children]
    rfl

theorem map_tag_nodesAll (source : Bytes) (parent i : NodeId) (k : Nat) (l : List Concrete) :
    ((Outline.nodesAll source parent i (outlines l)).map Node.tag) =
      (keptIn k l).map fun x => x.2.tag source := by
  cases l with
  | nil => rfl
  | cons c rest =>
    rw [outlines]
    cases hconstruct : c.head.isConstruct with
    | true =>
      rw [if_pos rfl, Outline.nodesAll, keptIn_cons_of_isConstruct hconstruct, List.map_append,
        List.map_append, List.map_map, map_tag_nodes source (some parent) i c,
        map_tag_nodesAll source parent _ (k + 1) rest]
      rfl
    | false =>
      rw [if_neg Bool.false_ne_true, keptIn_cons_of_not_isConstruct hconstruct]
      exact map_tag_nodesAll source parent i (k + 1) rest

end

theorem length_kept (c : Concrete) : c.kept.length = c.outline.size := by
  have h := congrArg List.length (map_tag_nodes [] none 0 c)
  rw [List.length_map, List.length_map, Outline.length_nodes] at h
  exact h.symm

mutual

/-- **The parent of a construct is the one that its place leads through last.** -/
theorem parent_nodes {source : Bytes} {parent : Option NodeId} {i m : NodeId} {c : Concrete}
    {n : Node} {x : List Nat × Concrete}
    (hn : (c.outline.nodes source parent i)[m]? = some n) (hx : c.kept[m]? = some x) :
    (n.parent = parent ∧ x.1 = []) ∨
      ∃ j y k, n.parent = some (i + j) ∧ c.kept[j]? = some y ∧ x.1 = y.1 ++ [k] := by
  cases c with
  | node h children =>
    rw [outline, Outline.nodes] at hn
    rw [kept_node] at hx ⊢
    cases m with
    | zero =>
      obtain rfl := Option.some.inj hn
      obtain rfl := Option.some.inj hx
      exact .inl ⟨rfl, rfl⟩
    | succ m =>
      -- A child of the construct, or something that lies further down.
      obtain ⟨hparent, k, hplace⟩ | ⟨j, y, k, hparent, hy, hplace⟩ := parent_nodesAll hn hx
      · exact .inr ⟨0, _, k, hparent, rfl, hplace⟩
      · exact .inr ⟨j + 1, y, k, by rw [hparent, Nat.add_right_comm]; rfl, hy, hplace⟩

theorem parent_nodesAll {source : Bytes} {parent i m : NodeId} {k : Nat} {l : List Concrete}
    {n : Node} {x : List Nat × Concrete}
    (hn : (Outline.nodesAll source parent i (outlines l))[m]? = some n)
    (hx : (keptIn k l)[m]? = some x) :
    (n.parent = some parent ∧ ∃ k', x.1 = [k']) ∨
      ∃ j y k', n.parent = some (i + j) ∧ (keptIn k l)[j]? = some y ∧ x.1 = y.1 ++ [k'] := by
  cases l with
  | nil => cases hn
  | cons c rest =>
    rw [outlines] at hn
    cases hconstruct : c.head.isConstruct with
    | false =>
      rw [hconstruct, if_neg Bool.false_ne_true] at hn
      rw [keptIn_cons_of_not_isConstruct hconstruct] at hx ⊢
      exact parent_nodesAll hn hx
    | true =>
      rw [hconstruct, if_pos rfl, Outline.nodesAll] at hn
      rw [keptIn_cons_of_isConstruct hconstruct] at hx ⊢
      have hnodes : (c.outline.nodes source (some parent) i).length = c.outline.size :=
        Outline.length_nodes ..
      have hkept : (c.kept.map (inChild k)).length = c.outline.size := by
        rw [List.length_map, length_kept]
      rcases Nat.lt_or_ge m c.outline.size with hlt | hge
      · -- Within the first construct.
        rw [List.getElem?_append_left (hnodes ▸ hlt)] at hn
        rw [List.getElem?_append_left (hkept ▸ hlt), List.getElem?_map] at hx
        obtain ⟨x', hx', rfl⟩ := Option.map_eq_some_iff.mp hx
        obtain ⟨hparent, hplace⟩ | ⟨j, y, k', hparent, hy, hplace⟩ := parent_nodes hn hx'
        · exact .inl ⟨hparent, k, congrArg (k :: ·) hplace⟩
        · refine .inr ⟨j, inChild k y, k', hparent, ?_, congrArg (k :: ·) hplace⟩
          have hj := (List.getElem?_eq_some_iff.mp hy).1
          rw [List.getElem?_append_left (by rwa [List.length_map]), List.getElem?_map, hy]
          rfl
      · -- Behind it, where all numbers are greater by its size.
        rw [List.getElem?_append_right (hnodes ▸ hge), hnodes] at hn
        rw [List.getElem?_append_right (hkept ▸ hge), hkept] at hx
        obtain hfirst | ⟨j, y, k', hparent, hy, hplace⟩ := parent_nodesAll hn hx
        · exact .inl hfirst
        · refine .inr ⟨c.outline.size + j, y, k', ?_, ?_, hplace⟩
          · rw [hparent, Nat.add_assoc]
          · rw [List.getElem?_append_right (hkept ▸ Nat.le_add_right ..), hkept,
              Nat.add_sub_cancel_left, hy]

end

mutual

theorem map_head_remarks (c : Concrete) : c.remarks.map (·.2.head) = c.comments := by
  cases c with
  | node h children => rw [remarks, met, comments, map_head_remarksIn 0 children]

theorem map_head_remarksIn (k : Nat) (l : List Concrete) :
    ((metIn k l).filter (·.2.head.isComment)).map (·.2.head) = commentsIn l := by
  cases l with
  | nil => rfl
  | cons c rest =>
    rw [metIn, commentsIn, List.filter_append, List.map_append,
      map_head_remarksIn (k + 1) rest, List.filter_map, List.map_map]
    cases hcomment : c.head.isComment with
    | true =>
      rw [Head.isConstruct_of_isComment hcomment, if_neg Bool.false_ne_true, if_pos rfl]
      simp [hcomment, inChild]
    | false =>
      rw [if_neg Bool.false_ne_true]
      cases c.head.isConstruct with
      | true =>
        rw [if_pos rfl, if_pos rfl, ← map_head_remarks c, remarks]
        simp [hcomment, inChild, Function.comp_def]
      | false => simp [hcomment, inChild]

end

end Concrete

/-! ### The tree -/

/-- What a syntax tree has of a concrete tree: the constructs at some places, numbered as the places
come, and the comments that are found at some others. -/
structure Tree.Mirrors (t : Tree) (source : Bytes) (root : Concrete) (places : List (List Nat))
    (found : List (List Nat × Concrete)) : Prop where
  /-- The constructs that are kept, each before those in it. -/
  pairwise : places.Pairwise (· < ·)
  mem_places : ∀ p, p ∈ places ↔ root.Keeps p
  size_eq : t.nodes.size = places.length
  /-- What a node says of itself is what the concrete node says, with the marks of its tokens. -/
  tag_eq : ∀ (k : NodeId) (p : List Nat), places[k]? = some p →
    ∃ c, root.at? p = some c ∧ (t.node k).tag = c.tag source
  parent_root : ∀ (k : NodeId) (p : List Nat), places[k]? = some p →
    (t.parent? k = none ↔ p = [])
  parent_iff : ∀ (k : NodeId) (p : List Nat), places[k]? = some p →
    ∀ j, t.parent? k = some j ↔ ∃ q a, places[j]? = some q ∧ p = q ++ [a]
  /-- The children come in the order of the source. -/
  pairwise_children : ∀ k, (t.children k).Pairwise (· < ·)
  children_iff : ∀ (k : NodeId) (p : List Nat), places[k]? = some p →
    ∀ j, j ∈ t.children k ↔ ∃ a, places[j]? = some (p ++ [a])
  /-- What lies below a construct are the numbers behind its own, up to its `stop`. -/
  stop_bounds : ∀ k < t.nodes.size, k < t.stop k ∧ t.stop k ≤ t.nodes.size
  below_iff : ∀ (k m : NodeId) (p q : List Nat), places[k]? = some p → places[m]? = some q →
    (p <+: q ↔ k ≤ m ∧ m < t.stop k)
  ancestors_iff : ∀ k, ∀ m < t.nodes.size, k ∈ t.ancestors m ↔ k < m ∧ m < t.stop k
  /-- The comments that stand in a construct that is kept. -/
  pairwise_found : (found.map (·.1)).Pairwise (· < ·)
  mem_found : ∀ p c, (p, c) ∈ found ↔
    ∃ q a, p = q ++ [a] ∧ root.Keeps q ∧ root.at? p = some c ∧ c.head.isComment = true
  comments_eq : t.comments = sortBy (fun a b => a.span.start ≤ b.span.start)
    (found.map fun x => .ofHead source x.2.head)

namespace Tree

variable (l : Language) (s : Bytes) (root : Concrete) {k m j : Nat} {p q : List Nat}

theorem size_eq_length_kept : (ofConcrete l s root).nodes.size = root.kept.length := by
  rw [(heldAt_ofConcrete l s root).2, Concrete.length_kept]

theorem node_of_kept {x : List Nat × Concrete} (hx : root.kept[k]? = some x) :
    ((ofConcrete l s root).node k).tag = x.2.tag s ∧
      (((ofConcrete l s root).parent? k = none ∧ x.1 = []) ∨
        ∃ j y a, (ofConcrete l s root).parent? k = some j ∧ root.kept[j]? = some y ∧
          x.1 = y.1 ++ [a]) := by
  have hk : k < root.outline.size := by
    rw [← Concrete.length_kept]
    exact (List.getElem?_eq_some_iff.mp hx).1
  have hlength := Outline.length_nodes s none 0 root.outline
  have hn : (root.outline.nodes s none 0)[k]? =
      some ((root.outline.nodes s none 0).get ⟨k, hlength ▸ hk⟩) :=
    List.getElem?_eq_getElem _
  have hnode := (node_ofConcrete l s root).2 k hk
  constructor
  · have htags := congrArg (·[k]?) (Concrete.map_tag_nodes s none 0 root)
    rw [List.getElem?_map, List.getElem?_map, hn, hx] at htags
    rw [hnode]
    exact Option.some.inj htags
  · rw [parent?, hnode]
    obtain h | ⟨j, y, a, hparent, hy, hplace⟩ := Concrete.parent_nodes hn hx
    · exact .inl h
    · exact .inr ⟨j, y, a, by rw [← Nat.zero_add j]; exact hparent, hy, hplace⟩

variable {root} in
theorem exists_kept (hp : (root.kept.map (·.1))[k]? = some p) :
    ∃ c, root.kept[k]? = some (p, c) := by
  rw [List.getElem?_map] at hp
  obtain ⟨⟨q, c⟩, hx, rfl⟩ := Option.map_eq_some_iff.mp hp
  exact ⟨c, hx⟩

variable {root} in
/-- A place has one number. -/
theorem number_unique (hp : (root.kept.map (·.1))[k]? = some p)
    (hq : (root.kept.map (·.1))[j]? = some p) : k = j := by
  have hnodup : (root.kept.map (·.1)).Nodup := root.pairwise_kept.imp fun hlt => ne_of_lt hlt
  exact List.getElem?_inj (List.getElem?_eq_some_iff.mp hp).1 hnodup |>.mp (hp.trans hq.symm)

/-- **The parent of a node stands at the place that its own place leads through last.** -/
theorem parent_iff_of_kept (hp : (root.kept.map (·.1))[k]? = some p) :
    (ofConcrete l s root).parent? k = some j ↔
      ∃ q a, (root.kept.map (·.1))[j]? = some q ∧ p = q ++ [a] := by
  obtain ⟨c, hx⟩ := exists_kept hp
  obtain ⟨-, ⟨hnone, rfl⟩ | ⟨j', y, a, hparent, hy, rfl⟩⟩ := node_of_kept l s root hx
  · rw [hnone]
    constructor
    · intro h
      cases h
    · rintro ⟨q, a, -, hnil⟩
      exact absurd hnil.symm (List.append_ne_nil_of_right_ne_nil _ (List.cons_ne_nil _ _))
  · have hy' : (root.kept.map (·.1))[j']? = some y.1 := by rw [List.getElem?_map, hy]; rfl
    rw [hparent]
    constructor
    · rintro heq
      obtain rfl := Option.some.inj heq
      exact ⟨y.1, a, hy', rfl⟩
    · rintro ⟨q, b, hq, hplace⟩
      obtain ⟨rfl, -⟩ := List.append_inj' hplace rfl
      rw [number_unique hy' hq]

/-- **What lies below a construct** has its place as the beginning of its own. -/
theorem prefix_iff_mem_chain (hp : (root.kept.map (·.1))[k]? = some p)
    (hq : (root.kept.map (·.1))[m]? = some q) :
    p <+: q ↔ k ∈ (ofConcrete l s root).chain m := by
  have ht := inPreorder_ofConcrete l s root
  induction m using Nat.strongRecOn generalizing q with
  | ind m ih =>
    obtain ⟨c, hx⟩ := exists_kept hq
    obtain ⟨-, ⟨hnone, rfl⟩ | ⟨j, y, a, hparent, hy, rfl⟩⟩ := node_of_kept l s root hx
    · rw [chain_of_root hnone, List.mem_singleton, List.prefix_nil]
      constructor
      · rintro rfl
        exact number_unique hp hq
      · rintro rfl
        exact Option.some.inj (hp.symm.trans hq)
    · have hy' : (root.kept.map (·.1))[j]? = some y.1 := by rw [List.getElem?_map, hy]; rfl
      have houter : p <+: y.1 ↔ k ∈ (ofConcrete l s root).chain j :=
        ih j (ht.parent_lt hparent) hy'
      rw [ht.chain_of_parent hparent, List.mem_cons, ← houter, List.prefix_concat_iff]
      refine or_congr_left ⟨?_, ?_⟩
      · rintro rfl
        exact number_unique hp hq
      · rintro rfl
        exact Option.some.inj (hp.symm.trans hq)

/-- **The syntax tree has the constructs that are kept**, linked and numbered by their places, and
the comments in them. -/
theorem mirrors_ofConcrete :
    (ofConcrete l s root).Mirrors s root (root.kept.map (·.1)) root.remarks := by
  have ht := inPreorder_ofConcrete l s root
  have hsize : (ofConcrete l s root).nodes.size = (root.kept.map (·.1)).length := by
    rw [List.length_map, size_eq_length_kept]
  refine
    { pairwise := root.pairwise_kept
      mem_places := fun p => Concrete.mem_places_iff
      size_eq := hsize
      tag_eq := fun k p hp => ?_
      parent_root := fun k p hp => ?_
      parent_iff := fun k p hp j => parent_iff_of_kept l s root hp
      pairwise_children := fun k => ?_
      children_iff := fun k p hp j => ?_
      stop_bounds := fun k hk => ⟨ht.lt_stop hk, ht.stop_le k hk⟩
      below_iff := fun k m p q hp hq => ?_
      ancestors_iff := fun k m hm => ?_
      pairwise_found := root.pairwise_remarks
      mem_found := fun p c => Concrete.mem_remarks_iff
      comments_eq := ?_ }
  · obtain ⟨c, hx⟩ := exists_kept hp
    exact ⟨c, Concrete.at?_of_mem_kept (List.mem_of_getElem? hx), (node_of_kept l s root hx).1⟩
  · obtain ⟨c, hx⟩ := exists_kept hp
    obtain ⟨-, ⟨hnone, rfl⟩ | ⟨j, y, a, hparent, -, rfl⟩⟩ := node_of_kept l s root hx
    · exact iff_of_true hnone rfl
    · rw [hparent]
      exact iff_of_false nofun (List.append_ne_nil_of_right_ne_nil _ (List.cons_ne_nil _ _))
  · rcases Nat.lt_or_ge k (ofConcrete l s root).nodes.size with hk | hk
    · exact (ht.tiles k hk).pairwise.imp fun h => h.2
    · rw [children, node_of_size_le hk]
      exact .nil
  · rw [ht.mem_children_iff]
    constructor
    · intro hparent
      have hj := lt_size_of_parent hparent
      rw [hsize] at hj
      have hq := List.getElem?_eq_getElem hj
      obtain ⟨q, a, hq', heq⟩ := (parent_iff_of_kept l s root hq).mp hparent
      obtain rfl := Option.some.inj (hp.symm.trans hq')
      exact ⟨a, heq ▸ hq⟩
    · rintro ⟨a, hq⟩
      exact (parent_iff_of_kept l s root hq).mpr ⟨p, a, hp, rfl⟩
  · have hm : m < (ofConcrete l s root).nodes.size := by
      rw [hsize]
      exact (List.getElem?_eq_some_iff.mp hq).1
    rw [prefix_iff_mem_chain l s root hp hq, ht.mem_chain_iff hm]
  · have hchain := ht.mem_chain_iff (i := k) hm
    rw [chain, List.mem_cons] at hchain
    constructor
    · intro hk
      exact ⟨lt_of_mem_ancestors hk, (hchain.mp (.inr hk)).2⟩
    · rintro ⟨hlt, hstop⟩
      exact (hchain.mpr ⟨hlt.le, hstop⟩).resolve_left hlt.ne
  · have hfound : root.remarks.map (fun x => Comment.ofHead s x.2.head) =
        root.comments.map (.ofHead s) := by
      rw [← Concrete.map_head_remarks, List.map_map]
      rfl
    rw [hfound]
    rfl

end Tree

/-! ### Walks -/

/-- Whether the walk with a stack visits some nodes, when each node that is taken from the stack
leaves its children there, the first one on top. -/
inductive Walks (children : NodeId → List NodeId) : List NodeId → List NodeId → Prop
  | nil : Walks children [] []
  | cons {i : NodeId} {stack visited : List NodeId}
      (h : Walks children (children i ++ stack) visited) :
      Walks children (i :: stack) (i :: visited)

/-- A stack determines what is visited. -/
theorem Walks.unique {children : NodeId → List NodeId} {stack visited visited' : List NodeId}
    (h : Walks children stack visited) (h' : Walks children stack visited') :
    visited = visited' := by
  induction h generalizing visited' with
  | nil =>
    cases h'
    rfl
  | cons _ ih =>
    cases h' with
    | cons h' => rw [ih h']

namespace Tree

variable {t : Tree} {start stop last : Nat} {a b : List NodeId}

theorem Tiles.append (h : t.Tiles start stop a) (h' : t.Tiles stop last b) :
    t.Tiles start last (a ++ b) := by
  induction a generalizing start with
  | nil =>
    obtain rfl : start = stop := h
    exact h'
  | cons c a ih =>
    obtain ⟨rfl, hlt, hrest⟩ := h
    exact ⟨rfl, hlt, ih hrest⟩

/-- A walk over nodes that tile an interval visits the numbers of the interval. -/
theorem InPreorder.walks_of_tiles (h : t.InPreorder) (hstop : stop ≤ t.nodes.size)
    (ha : t.Tiles start stop a) : Walks t.children a (List.range' start (stop - start)) := by
  induction hn : stop - start using Nat.strongRecOn generalizing start a with
  | ind n ih =>
    cases a with
    | nil =>
      obtain rfl : start = stop := ha
      rw [← hn, Nat.sub_self]
      exact .nil
    | cons c a =>
      obtain ⟨rfl, hlt, hrest⟩ := ha
      have hle := hrest.le
      have hinner := ((h.tiles start (by omega)).append hrest)
      obtain ⟨n, rfl⟩ : ∃ n', n = n' + 1 := ⟨n - 1, by omega⟩
      rw [List.range'_succ]
      refine .cons ?_
      -- The children of the node and what was on the stack tile the rest of the interval.
      have hwalk := ih (stop - (start + 1)) (by omega) hinner rfl
      rwa [show stop - (start + 1) = n by omega] at hwalk

/-- **A walk from a node enumerates the numbers up to its `stop`.** -/
theorem InPreorder.walks_iff (h : t.InPreorder) {k : Nat} (hk : k < t.nodes.size)
    {visited : List NodeId} : Walks t.children [k] visited ↔ visited = t.subtree k := by
  have hwalk : Walks t.children [k] (t.subtree k) :=
    h.walks_of_tiles (h.stop_le k hk) ⟨rfl, h.lt_stop hk, rfl⟩
  exact ⟨fun hvisited => hvisited.unique hwalk, fun heq => heq ▸ hwalk⟩

end Tree

/-! ### Tokens -/

namespace Concrete

mutual

/-- A concrete tree without its tokens. -/
def withoutTokens : Concrete → Concrete
  | node h children => node h (withoutTokensIn children)

/-- A list of concrete trees without the tokens in it. -/
def withoutTokensIn : List Concrete → List Concrete
  | [] => []
  | c :: rest =>
    if c.head.isToken then withoutTokensIn rest
    else c.withoutTokens :: withoutTokensIn rest

end

variable {c : Concrete} {l : List Concrete}

@[simp] theorem head_withoutTokens (c : Concrete) : c.withoutTokens.head = c.head := by
  cases c
  rw [withoutTokens]
  rfl

/-- A token is neither a construct nor a comment. -/
theorem Head.isConstruct_of_isToken {h : Head} (htoken : h.isToken = true) :
    h.isConstruct = false := by
  simp only [isToken, Bool.and_eq_true, Bool.not_eq_true'] at htoken
  simp [isConstruct, htoken.2]

theorem Head.isComment_of_isToken {h : Head} (htoken : h.isToken = true) :
    h.isComment = false := by
  simp only [isToken, Bool.and_eq_true, Bool.not_eq_true'] at htoken
  exact htoken.1.1

/-- The constructs of a list of trees without its tokens are those without theirs. -/
theorem outlines_withoutTokensIn_cons : outlines (withoutTokensIn (c :: l)) =
    if c.head.isConstruct then c.withoutTokens.outline :: outlines (withoutTokensIn l)
    else outlines (withoutTokensIn l) := by
  rw [withoutTokensIn]
  cases htoken : c.head.isToken with
  | true => rw [if_pos rfl, Head.isConstruct_of_isToken htoken, if_neg Bool.false_ne_true]
  | false => rw [if_neg Bool.false_ne_true, outlines, head_withoutTokens]

mutual

theorem size_withoutTokens (c : Concrete) : c.withoutTokens.outline.size = c.outline.size := by
  cases c with
  | node h children =>
    rw [withoutTokens, outline, outline, Outline.size, Outline.size, sizeAll_withoutTokensIn]

theorem sizeAll_withoutTokensIn (l : List Concrete) :
    Outline.sizeAll (outlines (withoutTokensIn l)) = Outline.sizeAll (outlines l) := by
  cases l with
  | nil => rfl
  | cons c rest =>
    rw [outlines_withoutTokensIn_cons, outlines]
    split
    · rw [Outline.sizeAll, Outline.sizeAll, size_withoutTokens c, sizeAll_withoutTokensIn rest]
    · exact sizeAll_withoutTokensIn rest

end

theorem siblingIds_withoutTokensIn (i : NodeId) (l : List Concrete) :
    Outline.siblingIds i (outlines (withoutTokensIn l)) = Outline.siblingIds i (outlines l) := by
  induction l generalizing i with
  | nil => rfl
  | cons c rest ih =>
    rw [outlines_withoutTokensIn_cons, outlines]
    split
    · rw [Outline.siblingIds, Outline.siblingIds, size_withoutTokens, ih]
    · exact ih i

end Concrete

/-- A construct without what its tokens say. -/
def Construct.unmarked (c : Construct) : Construct := { c with marks := {} }

namespace Concrete

mutual

/-- **Without its tokens a tree has the same nodes**, but for their marks. -/
theorem map_unmarked_nodes (source : Bytes) (parent : Option NodeId) (i : NodeId) (c : Concrete) :
    (c.withoutTokens.outline.nodes source parent i).map (·.construct.unmarked) =
      (c.outline.nodes source parent i).map (·.construct.unmarked) := by
  cases c with
  | node h children =>
    rw [withoutTokens, outline, outline, Outline.nodes, Outline.nodes, List.map_cons,
      List.map_cons, siblingIds_withoutTokensIn, map_unmarked_nodesAll source i (i + 1) children]
    rfl

theorem map_unmarked_nodesAll (source : Bytes) (parent i : NodeId) (l : List Concrete) :
    (Outline.nodesAll source parent i (outlines (withoutTokensIn l))).map
        (·.construct.unmarked) =
      (Outline.nodesAll source parent i (outlines l)).map (·.construct.unmarked) := by
  cases l with
  | nil => rfl
  | cons c rest =>
    rw [outlines_withoutTokensIn_cons, outlines]
    split
    · rw [Outline.nodesAll, Outline.nodesAll, List.map_append, List.map_append,
        size_withoutTokens, map_unmarked_nodes source (some parent) i c,
        map_unmarked_nodesAll source parent _ rest]
    · exact map_unmarked_nodesAll source parent i rest

end

mutual

/-- The comments are the same as well. -/
theorem comments_withoutTokens (c : Concrete) : c.withoutTokens.comments = c.comments := by
  cases c with
  | node h children => rw [withoutTokens, comments, comments, commentsIn_withoutTokensIn]

theorem commentsIn_withoutTokensIn (l : List Concrete) :
    commentsIn (withoutTokensIn l) = commentsIn l := by
  cases l with
  | nil => rfl
  | cons c rest =>
    rw [withoutTokensIn, commentsIn]
    cases htoken : c.head.isToken with
    | true =>
      rw [if_pos rfl, Head.isComment_of_isToken htoken, Head.isConstruct_of_isToken htoken]
      exact commentsIn_withoutTokensIn rest
    | false =>
      rw [if_neg Bool.false_ne_true, commentsIn, head_withoutTokens, comments_withoutTokens c,
        commentsIn_withoutTokensIn rest]

end

end Concrete

/-! ### The loop and its specification -/

/-- The numbers of the constructs in a construct. -/
def Conversion.children (o : Conversion) (k : NodeId) : List NodeId :=
  (o.constructs.getD k default).children

namespace Concrete

theorem detached_withoutTokens (root : Concrete) :
    root.withoutTokens.detached = root.detached.withoutTokens := by
  cases root
  rw [withoutTokens, detached, detached, withoutTokens]

/-- **The loop makes the tree of the constructs that are kept.**  For every concrete tree it comes
to an end and makes the nodes and the comments of the syntax tree.  These are the constructs whose
parents are kept as well, linked and numbered by their places, and the comments in them.  A walk
from the root visits the nodes in the order of their numbers, and a walk from any node the numbers
up to its `stop`.  Without the tokens all is the same but for the marks. -/
theorem convert_mirrors (l : Language) (s : Bytes) (root : Concrete) :
    let made := root.convert s
    let t := Tree.ofConcrete l s root.detached
    made = ⟨t.nodes.toList.map Node.construct, t.comments⟩ ∧
      (∃ places found, t.Mirrors s root.detached places found) ∧
      (∀ visited, Walks made.children [0] visited ↔ visited = List.range t.nodes.size) ∧
      (∀ k < t.nodes.size, ∀ visited,
        Walks t.children [k] visited ↔ visited = List.range' k (t.stop k - k)) ∧
      let plain := root.withoutTokens.convert s
      plain.constructs.map Construct.unmarked = made.constructs.map Construct.unmarked ∧
        plain.comments = made.comments := by
  intro made t
  have ht := Tree.inPreorder_ofConcrete l s root.detached
  have hmade : made = ⟨t.nodes.toList.map Node.construct, t.comments⟩ := convert_eq l s root
  refine ⟨hmade, ⟨_, _, Tree.mirrors_ofConcrete l s root.detached⟩, fun visited => ?_,
    fun k hk visited => ht.walks_iff hk, ?_⟩
  · have hchildren : made.children = t.children := by
      funext k
      rw [Conversion.children, hmade, List.getD_eq_getElem?_getD, List.getElem?_map, Tree.children,
        Tree.node, Array.getD_eq_getD_getElem?, Array.getElem?_toList]
      cases t.nodes[k]? <;> rfl
    rw [hchildren, ht.walks_iff ht.size_pos, Tree.subtree, List.range_eq_range', ← ht.stop_root]
    rfl
  · intro plain
    have hplain : plain = _ := convert_eq l s root.withoutTokens
    rw [hplain, hmade, detached_withoutTokens]
    dsimp only
    constructor
    · rw [Tree.map_construct_nodes, Tree.map_construct_nodes, List.map_map, List.map_map]
      exact map_unmarked_nodes s none 0 root.detached
    · change sortBy _ (root.detached.withoutTokens.comments.map _) = sortBy _ _
      rw [comments_withoutTokens]

end Concrete

end Declutter
