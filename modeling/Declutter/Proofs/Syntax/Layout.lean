import Declutter.Proofs.Syntax.Spacing
import Mathlib.Data.List.Pairwise

/-!
# How constructs and comments are laid out

In a concrete tree the parts of a node lie within it, one after another: constructs, tokens and
comments alike.  The syntax tree keeps the constructs and the comments apart, but inherits what this
says of them.  A construct covers those in it, and they follow one another; and a comment, which is
no part of a token, lies in a construct or clear of it.

## Main definitions

* `Concrete.isLaidOut` — whether the parts of a concrete tree lie one after another.
* `Tree.LaidOut` — what then holds of constructs and comments.

## Main results

* `Tree.laidOut_ofConcrete` — the tree of a concrete tree that is laid out.
-/

namespace Declutter

namespace Concrete

mutual

/-- Whether the parts of a tree lie in it one after another, and the parts of these in them. -/
def isLaidOut : Concrete → Bool
  | node head children => areLaidOut head.start head.stop children

/-- Whether some trees lie one after another between two offsets. -/
def areLaidOut (start stop : Nat) : List Concrete → Bool
  | [] => start ≤ stop
  | tree :: rest =>
    start ≤ tree.head.start && isLaidOut tree && areLaidOut tree.head.stop stop rest

end

theorem areLaidOut_cons {start stop : Nat} {tree : Concrete} {rest : List Concrete} :
    areLaidOut start stop (tree :: rest) = true ↔
      start ≤ tree.head.start ∧ tree.isLaidOut = true ∧
        areLaidOut tree.head.stop stop rest = true := by
  rw [areLaidOut, Bool.and_eq_true, Bool.and_eq_true, decide_eq_true_eq, and_assoc]

mutual

/-- What is laid out is not reversed. -/
theorem start_le_stop {tree : Concrete} (h : tree.isLaidOut = true) :
    tree.head.start ≤ tree.head.stop := by
  cases tree with
  | node head children => exact le_of_areLaidOut h

theorem le_of_areLaidOut {start stop : Nat} {trees : List Concrete}
    (h : areLaidOut start stop trees = true) : start ≤ stop := by
  cases trees with
  | nil => exact of_decide_eq_true h
  | cons tree rest =>
    obtain ⟨hstart, htree, hrest⟩ := areLaidOut_cons.mp h
    exact Nat.le_trans hstart (Nat.le_trans (start_le_stop htree) (le_of_areLaidOut hrest))

end

end Concrete

/-- What holds of constructs and comments that are laid out: a construct ends within the source,
covers those in it, and these follow one another; comments end within the source and do not overlap;
and a comment lies in a construct or clear of it. -/
structure Tree.LaidOut (t : Tree) : Prop where
  node : ∀ i < t.nodes.size,
    (t.span i).start ≤ (t.span i).stop ∧ (t.span i).stop ≤ t.source.length
  nested : ∀ i < t.nodes.size, ∀ c ∈ t.children i, (t.span i).covers (t.span c) = true
  ordered : t.Ordered
  comment : ∀ k ∈ t.comments, k.span.start ≤ k.span.stop ∧ k.span.stop ≤ t.source.length
  apart : ∀ k ∈ t.comments, ∀ k' ∈ t.comments, k ≠ k' →
    k.span.stop ≤ k'.span.start ∨ k'.span.stop ≤ k.span.start
  beside : ∀ k ∈ t.comments, ∀ i < t.nodes.size, (t.span i).covers k.span = true ∨
    k.span.stop ≤ (t.span i).start ∨ (t.span i).stop ≤ k.span.start

/-! ### From concrete trees to numbered nodes -/

namespace Tree

/-- What holds of the nodes that are numbered between two numbers, and of some comments, if they are
laid out between two offsets. -/
structure LaidOutBetween (t : Tree) (first last start stop : Nat) (comments : List Concrete.Head) :
    Prop where
  bounds : ∀ j, first ≤ j → j < last → start ≤ (t.span j).start ∧
    (t.span j).start ≤ (t.span j).stop ∧ (t.span j).stop ≤ stop
  nested : ∀ j, first ≤ j → j < last → ∀ c ∈ t.children j, (t.span j).covers (t.span c) = true
  ordered : ∀ j, first ≤ j → j < last →
    (t.children j).Pairwise fun c d => (t.span c).stop ≤ (t.span d).start
  comment : ∀ k ∈ comments, start ≤ k.start ∧ k.start ≤ k.stop ∧ k.stop ≤ stop
  apart : comments.Pairwise fun k k' => k.stop ≤ k'.start
  beside : ∀ k ∈ comments, ∀ j, first ≤ j → j < last →
    (t.span j).start ≤ k.start ∧ k.stop ≤ (t.span j).stop ∨
      k.stop ≤ (t.span j).start ∨ (t.span j).stop ≤ k.start

namespace LaidOutBetween

variable {t : Tree} {first middle last start middle' stop : Nat}
  {comments more : List Concrete.Head}

/-- No nodes and no comments lie anywhere. -/
theorem nil (t : Tree) (i start stop : Nat) : t.LaidOutBetween i i start stop [] where
  bounds _ hi hj := absurd hj (Nat.not_lt.mpr hi)
  nested _ hi hj := absurd hj (Nat.not_lt.mpr hi)
  ordered _ hi hj := absurd hj (Nat.not_lt.mpr hi)
  comment _ hk := nomatch hk
  apart := .nil
  beside _ hk := nomatch hk

/-- A comment without nodes. -/
theorem singleton (t : Tree) (i : Nat) {k : Concrete.Head} (hstart : start ≤ k.start)
    (hle : k.start ≤ k.stop) : t.LaidOutBetween i i start k.stop [k] where
  bounds _ hi hj := absurd hj (Nat.not_lt.mpr hi)
  nested _ hi hj := absurd hj (Nat.not_lt.mpr hi)
  ordered _ hi hj := absurd hj (Nat.not_lt.mpr hi)
  comment k' hk' := by
    rw [List.mem_singleton.mp hk']
    exact ⟨hstart, hle, Nat.le_refl _⟩
  apart := List.pairwise_singleton _ _
  beside _ _ _ hi hj := absurd hj (Nat.not_lt.mpr hi)

/-- There may be more room in front. -/
theorem mono (h : t.LaidOutBetween first last middle' stop comments) (hle : start ≤ middle') :
    t.LaidOutBetween first last start stop comments where
  bounds j hi hj := ⟨Nat.le_trans hle (h.bounds j hi hj).1, (h.bounds j hi hj).2⟩
  nested := h.nested
  ordered := h.ordered
  comment k hk := ⟨Nat.le_trans hle (h.comment k hk).1, (h.comment k hk).2⟩
  apart := h.apart
  beside := h.beside

/-- What is laid out in front of something else. -/
theorem append (h : t.LaidOutBetween first middle start middle' comments)
    (hrest : t.LaidOutBetween middle last middle' stop more) (hstart : start ≤ middle')
    (hstop : middle' ≤ stop) : t.LaidOutBetween first last start stop (comments ++ more) where
  bounds j hi hj := by
    rcases Nat.lt_or_ge j middle with hlt | hge
    · have := h.bounds j hi hlt
      omega
    · have := hrest.bounds j hge hj
      omega
  nested j hi hj :=
    (Nat.lt_or_ge j middle).elim (fun hlt => h.nested j hi hlt) fun hge => hrest.nested j hge hj
  ordered j hi hj :=
    (Nat.lt_or_ge j middle).elim (fun hlt => h.ordered j hi hlt) fun hge => hrest.ordered j hge hj
  comment k hk := by
    rcases List.mem_append.mp hk with hk | hk
    · have := h.comment k hk
      omega
    · have := hrest.comment k hk
      omega
  apart := List.pairwise_append.mpr ⟨h.apart, hrest.apart, fun k hk k' hk' =>
    Nat.le_trans (h.comment k hk).2.2 (hrest.comment k' hk').1⟩
  beside k hk j hi hj := by
    rcases List.mem_append.mp hk with hk | hk <;> rcases Nat.lt_or_ge j middle with hlt | hge
    · exact h.beside k hk j hi hlt
    · -- The comment lies in front, the node behind.
      have hcomment := h.comment k hk
      have hnode := hrest.bounds j hge hj
      exact .inr (.inl (by omega))
    · have hcomment := hrest.comment k hk
      have hnode := h.bounds j hi hlt
      exact .inr (.inr (by omega))
    · exact hrest.beside k hk j hge hj

end LaidOutBetween

end Tree

namespace Outline

variable {t : Tree} {source : Bytes}

mutual

/-- **A tree that is laid out** has constructs and comments that are. -/
theorem HeldAt.laidOutBetween {parent : Option NodeId} {i : Nat} {tree : Concrete}
    (hheld : HeldAt t source parent i tree.outline) (h : tree.isLaidOut = true) :
    t.LaidOutBetween i (i + tree.outline.size) tree.head.start tree.head.stop tree.comments ∧
      (t.span i).start = tree.head.start ∧ (t.span i).stop = tree.head.stop := by
  cases tree with
  | node head children =>
    have hnode := hheld.node_eq
    have hle := Concrete.start_le_stop h
    obtain ⟨hbelow, hsiblings⟩ := hheld.children.laidOutBetween h
    have hspan : (t.span i).start = head.start ∧ (t.span i).stop = head.stop := by
      rw [Tree.span, hnode]
      exact ⟨rfl, rfl⟩
    have hchildren : t.children i = siblingIds (i + 1) (Concrete.outlines children) := by
      rw [Tree.children, hnode]
    have hsize : i + (node (Concrete.label head children) (Concrete.outlines children)).size =
        i + 1 + sizeAll (Concrete.outlines children) := by
      rw [size]
      omega
    refine ⟨?_, hspan⟩
    -- The construct itself comes first, then what is below it.
    rw [Concrete.outline, hsize]
    refine ⟨fun j hi hj => ?_, fun j hi hj => ?_, fun j hi hj => ?_, hbelow.comment, hbelow.apart,
      fun k hk j hi hj => ?_⟩
    all_goals rcases Nat.eq_or_lt_of_le hi with rfl | hlt
    · rw [hspan.1, hspan.2]
      exact ⟨Nat.le_refl _, hle, Nat.le_refl _⟩
    · exact hbelow.bounds j hlt hj
    · intro c hc
      rw [hchildren] at hc
      obtain ⟨hge, hless, hstop⟩ := hheld.children.tiles.bounds hc
      have hbounds := hbelow.bounds c hge (Nat.lt_of_lt_of_le hless hstop)
      rw [Span.covers_iff, hspan.1, hspan.2]
      exact ⟨hbounds.1, hbounds.2.2⟩
    · exact hbelow.nested j hlt hj
    · rw [hchildren]
      exact hsiblings
    · exact hbelow.ordered j hlt hj
    · have hcomment := hbelow.comment k hk
      rw [hspan.1, hspan.2]
      exact .inl ⟨hcomment.1, hcomment.2.2⟩
    · exact hbelow.beside k hk j hlt hj

theorem AllHeldAt.laidOutBetween {parent i start stop : Nat} {trees : List Concrete}
    (hheld : AllHeldAt t source parent i (Concrete.outlines trees))
    (h : Concrete.areLaidOut start stop trees = true) :
    t.LaidOutBetween i (i + sizeAll (Concrete.outlines trees)) start stop
        (Concrete.commentsIn trees) ∧
      (siblingIds i (Concrete.outlines trees)).Pairwise
        fun c d => (t.span c).stop ≤ (t.span d).start := by
  cases trees with
  | nil => exact ⟨.nil t i start stop, .nil⟩
  | cons tree rest =>
    obtain ⟨hstart, htree, hrest⟩ := Concrete.areLaidOut_cons.mp h
    have hle := Concrete.start_le_stop htree
    have hstop := Concrete.le_of_areLaidOut hrest
    have hlower := Nat.le_trans hstart hle
    rw [Concrete.outlines] at hheld ⊢
    rw [Concrete.commentsIn]
    by_cases hconstruct : tree.head.isConstruct = true
    · have hcomment : tree.head.isComment = false := by
        simp only [Concrete.Head.isConstruct, Bool.and_eq_true, Bool.not_eq_true'] at hconstruct
        exact hconstruct.1.1
      rw [if_pos hconstruct] at hheld ⊢
      rw [if_neg (by simp [hcomment]), if_pos hconstruct]
      obtain ⟨hhead, -, hend⟩ := hheld.head.laidOutBetween htree
      obtain ⟨htail, hsiblings⟩ := hheld.tail.laidOutBetween hrest
      rw [sizeAll, ← Nat.add_assoc]
      refine ⟨(hhead.mono hstart).append htail hlower hstop, .cons (fun d hd => ?_) hsiblings⟩
      obtain ⟨hge, hless, hlast⟩ := hheld.tail.tiles.bounds hd
      rw [hend]
      exact (htail.bounds d hge (Nat.lt_of_lt_of_le hless hlast)).1
    · rw [if_neg hconstruct] at hheld ⊢
      obtain ⟨htail, hsiblings⟩ := hheld.laidOutBetween hrest
      refine ⟨?_, hsiblings⟩
      by_cases hcomment : tree.head.isComment = true
      · rw [if_pos hcomment]
        exact (Tree.LaidOutBetween.singleton t i hstart hle).append htail hlower hstop
      · rw [if_neg hcomment, if_neg hconstruct]
        exact htail.mono hlower

end

end Outline

namespace Tree

/-- A comment of a tree is one of the concrete tree. -/
theorem mem_comments_ofConcrete {l : Language} {source : Bytes} {root : Concrete} {k : Comment} :
    k ∈ (ofConcrete l source root).comments ↔
      ∃ h ∈ root.comments, Comment.ofHead source h = k := by
  change k ∈ sortBy _ (root.comments.map (Comment.ofHead source)) ↔ _
  rw [mem_sortBy, List.mem_map]

/-- **The constructs and comments of a tree are laid out** if the concrete tree is. -/
theorem laidOut_ofConcrete (l : Language) (source : Bytes) {root : Concrete}
    (h : root.isLaidOut = true) (hstop : root.head.stop ≤ source.length) :
    (ofConcrete l source root).LaidOut := by
  obtain ⟨hheld, hsize⟩ := heldAt_ofConcrete l source root
  obtain ⟨hall, -, -⟩ := hheld.laidOutBetween h
  rw [Nat.zero_add, ← hsize] at hall
  have hsource : (ofConcrete l source root).source = source := rfl
  refine ⟨fun i hi => ?_, fun i hi => hall.nested i (Nat.zero_le i) hi,
    fun i hi => hall.ordered i (Nat.zero_le i) hi, fun k hk => ?_, fun k hk k' hk' hne => ?_,
    fun k hk i hi => ?_⟩
  · have hbounds := hall.bounds i (Nat.zero_le i) hi
    rw [hsource]
    omega
  · obtain ⟨head, hhead, rfl⟩ := mem_comments_ofConcrete.mp hk
    have hcomment := hall.comment head hhead
    change head.start ≤ head.stop ∧ head.stop ≤ source.length
    omega
  · obtain ⟨head, hhead, rfl⟩ := mem_comments_ofConcrete.mp hk
    obtain ⟨head', hhead', rfl⟩ := mem_comments_ofConcrete.mp hk'
    have hpairwise : root.comments.Pairwise fun a b => a.stop ≤ b.start ∨ b.stop ≤ a.start :=
      hall.apart.imp .inl
    have : Std.Symm fun a b : Concrete.Head => a.stop ≤ b.start ∨ b.stop ≤ a.start :=
      ⟨fun _ _ => .symm⟩
    exact hpairwise.forall hhead hhead' fun heq => hne (heq ▸ rfl)
  · obtain ⟨head, hhead, rfl⟩ := mem_comments_ofConcrete.mp hk
    rw [Span.covers_iff]
    exact hall.beside head hhead i (Nat.zero_le i) hi

namespace LaidOut

variable {t : Tree} (h : t.LaidOut)
include h

/-- Names that are not empty are all that is missing from what grammars promise of the places of
constructs. -/
theorem spaced (hname : ∀ i < t.nodes.size, t.isReferenceNode i = true →
    (t.span i).start < (t.span i).stop) : t.Spaced :=
  ⟨h.nested, h.node, fun k hk => (h.comment k hk).1, hname⟩

end LaidOut

end Tree

end Declutter
