import Declutter.Binding.Basic
import Declutter.Collection.Iteration
import Declutter.Proofs.Syntax.Walk
import Declutter.Syntax.Statement

/-!
# Where constructs stand

A construct stands within the construct around it, so the span of a node covers the spans of all
nodes below it.  Names are not empty, so two spans that cover one name overlap.

## Main definitions

* `Tree.Spaced`, `Tree.Ordered` — what the grammars promise of the places of constructs.

## Main results

* `Tree.Spaced.covers_of_isWithin` — a node covers what lies within it.
* `Tree.Ordered.stop_le_start` — a node ends before those with higher numbers outside it begin.
* `Span.overlaps_of_covers` — what covers one name overlaps.
* `Tree.InPreorder.isWithin_functionParameter`, `Tree.InPreorder.isWithin_stripped` — where the
  parts of a function and of an expression stand.
-/

namespace Declutter

namespace Span

variable {a b c : Span}

theorem covers_iff : a.covers b = true ↔ a.start ≤ b.start ∧ b.stop ≤ a.stop := by
  rw [covers, Bool.and_eq_true, decide_eq_true_eq, decide_eq_true_eq]

theorem covers_self (a : Span) : a.covers a = true := covers_iff.mpr ⟨Nat.le_refl _, Nat.le_refl _⟩

theorem covers_trans (hab : a.covers b = true) (hbc : b.covers c = true) : a.covers c = true := by
  rw [covers_iff] at *
  omega

/-- What covers a span that is not reversed is not reversed. -/
theorem le_of_covers (hab : a.covers b = true) (hb : b.start ≤ b.stop) : a.start ≤ a.stop := by
  rw [covers_iff] at hab
  omega

/-- Spans that cover one and the same byte overlap. -/
theorem overlaps_of_covers (hc : c.start < c.stop) (ha : a.covers c = true)
    (hb : b.covers c = true) : a.overlaps b = true := by
  rw [covers_iff] at ha hb
  have hne : a.start ≠ a.stop := by omega
  have hne' : b.start ≠ b.stop := by omega
  rw [overlaps, if_neg fun h => hne h.1, if_neg hne, if_neg hne', Bool.and_eq_true,
    decide_eq_true_eq, decide_eq_true_eq]
  omega

end Span

namespace Tree

/-- What the grammars promise of the places of constructs: a construct covers those in it and ends
within the source, no span is reversed, and names are not empty. -/
structure Spaced (t : Tree) : Prop where
  nested : ∀ i < t.nodes.size, ∀ c ∈ t.children i, (t.span i).covers (t.span c) = true
  node : ∀ i < t.nodes.size,
    (t.span i).start ≤ (t.span i).stop ∧ (t.span i).stop ≤ t.source.length
  comment : ∀ c ∈ t.comments, c.span.start ≤ c.span.stop
  name : ∀ i < t.nodes.size, t.isReferenceNode i = true → (t.span i).start < (t.span i).stop

theorem spaced_iff {t : Tree} : t.Spaced ↔
    (∀ i < t.nodes.size, ∀ c ∈ t.children i, (t.span i).covers (t.span c) = true) ∧
      (∀ i < t.nodes.size,
        (t.span i).start ≤ (t.span i).stop ∧ (t.span i).stop ≤ t.source.length) ∧
      (∀ c ∈ t.comments, c.span.start ≤ c.span.stop) ∧
      ∀ i < t.nodes.size, t.isReferenceNode i = true → (t.span i).start < (t.span i).stop :=
  ⟨fun h => ⟨h.nested, h.node, h.comment, h.name⟩, fun ⟨h₁, h₂, h₃, h₄⟩ => ⟨h₁, h₂, h₃, h₄⟩⟩

instance (t : Tree) : Decidable t.Spaced := decidable_of_iff _ spaced_iff.symm

variable {t : Tree} {i n : Nat}

/-- A number without node stands for an empty span. -/
theorem Spaced.span_le (hs : t.Spaced) (i : Nat) :
    (t.span i).start ≤ (t.span i).stop ∧ (t.span i).stop ≤ t.source.length := by
  rcases Nat.lt_or_ge i t.nodes.size with hi | hi
  · exact hs.node i hi
  · rw [span, node_of_size_le hi]
    exact ⟨Nat.le_refl 0, Nat.zero_le _⟩

/-- **A node covers what lies within it.** -/
theorem Spaced.covers_of_isWithin (hs : t.Spaced) (hn : t.InPreorder)
    (h : t.isWithin n i = true) : (t.span i).covers (t.span n) = true := by
  rw [isWithin, List.contains_iff_mem] at h
  -- The way up from `n` leads through one parent after another.
  induction n using Nat.strongRecOn with
  | ind n ih =>
    cases hp : t.parent? n with
    | none =>
      rw [chain_of_root hp, List.mem_singleton] at h
      rw [h]
      exact Span.covers_self _
    | some p =>
      rw [hn.chain_of_parent hp, List.mem_cons] at h
      rcases h with rfl | h
      · exact Span.covers_self _
      · have hmem := hn.mem_children_iff.mpr hp
        exact Span.covers_trans (ih p (hn.child_bounds hmem).1 h)
          (hs.nested p (lt_size_of_mem_children hmem) n hmem)

/-- Whether the constructs in a construct stand one after another. -/
def Ordered (t : Tree) : Prop :=
  ∀ i < t.nodes.size, (t.children i).Pairwise fun c d => (t.span c).stop ≤ (t.span d).start

instance (t : Tree) : Decidable t.Ordered :=
  inferInstanceAs (Decidable (∀ i < _, List.Pairwise _ _))

/-- Of two children, the one with the lower number ends before the other one begins. -/
theorem Ordered.stop_le_start_of_lt (ho : t.Ordered) (hn : t.InPreorder) {c d p : Nat}
    (hc : c ∈ t.children p) (hd : d ∈ t.children p) (hcd : c < d) :
    (t.span c).stop ≤ (t.span d).start := by
  have hp : p < t.nodes.size := lt_size_of_mem_children hc
  have hordered := (ho p hp).and (hn.tiles p hp).pairwise
  generalize t.children p = l at hc hd hordered
  induction hordered with
  | nil => cases hc
  | cons hfirst _ ih =>
    rcases List.mem_cons.mp hc with rfl | hc'
    · rcases List.mem_cons.mp hd with rfl | hd'
      · exact absurd hcd (Nat.lt_irrefl _)
      · exact (hfirst d hd').1
    · rcases List.mem_cons.mp hd with rfl | hd'
      · exact absurd hcd (Nat.lt_asymm (hfirst c hc').2.2)
      · exact ih hc' hd'

/-- **A construct whose numbers come first ends before the other one begins.** -/
theorem Ordered.stop_le_start (ho : t.Ordered) (hs : t.Spaced) (hn : t.InPreorder)
    {j : Nat} (hi : i < t.nodes.size) (hij : t.stop i ≤ j) (hj : j < t.nodes.size) :
    (t.span i).stop ≤ (t.span j).start := by
  induction i using Nat.strongRecOn with
  | ind i ih =>
    have hlt : i < t.stop i := hn.lt_stop hi
    have h0 : i ≠ 0 := by
      rintro rfl
      rw [hn.stop_root] at hij
      omega
    obtain ⟨p, -, hmem⟩ := hn.exists_parent hi h0
    have hb := hn.child_bounds hmem
    have hp : p < t.nodes.size := lt_size_of_mem_children hmem
    rcases Nat.lt_or_ge j (t.stop p) with hjp | hjp
    · -- Both lie in the parent, in different children of it.
      obtain ⟨d, hd, hdj⟩ := hn.exists_child hp (by omega) hjp
      have hid : i < d := by
        rcases hn.lt_or_lt hmem hd with rfl | h | h <;> omega
      have hstart := ho.stop_le_start_of_lt hn hmem hd hid
      have hcovers := Span.covers_iff.mp
        (hs.covers_of_isWithin hn ((hn.isWithin_iff hj).mpr hdj))
      omega
    · have hcovers := Span.covers_iff.mp (hs.nested p hp i hmem)
      have hstart := ih p hb.1 hp hjp
      omega

theorem exists_of_following {x y : NodeId} {l : List NodeId} (h : following? x l = some y) :
    ∃ pre post, l = pre ++ x :: y :: post := by
  induction l with
  | nil => cases h
  | cons z l ih =>
    rw [following?] at h
    split at h
    · rename_i hz
      cases l with
      | nil => cases h
      | cons w l =>
        obtain rfl : w = y := Option.some.inj h
        exact ⟨[], l, by rw [beq_iff_eq.mp hz]; rfl⟩
    · obtain ⟨pre, post, rfl⟩ := ih h
      exact ⟨z :: pre, post, rfl⟩

/-- What stands in parentheses or a type assertion is a child of them. -/
theorem mem_children_of_wrapped? : ∀ i, ∀ c ∈ t.wrapped? i, c ∈ t.children i := by
  intro i c hc
  unfold Tree.wrapped? at hc
  split at hc
  · exact List.mem_of_find?_eq_some hc
  · cases hc

namespace InPreorder

variable (hn : t.InPreorder)
include hn

/-- **The next statement stands right behind a statement**, among the children of the same node. -/
theorem exists_of_nextStatement {next : NodeId} (h : t.nextStatement? i = some next) :
    ∃ p pre post, t.parent? i = some p ∧ t.siblings i = pre ++ i :: next :: post ∧
      t.siblings next = t.siblings i ∧ (pre ++ i :: next :: post).Sublist (t.children p) := by
  obtain ⟨pre, post, hsplit⟩ := exists_of_following h
  cases hp : t.parent? i with
  | none =>
    -- The root has no statement behind it.
    rw [siblings, hp] at hsplit
    have hlength := congrArg List.length hsplit
    simp at hlength
    omega
  | some p =>
    have hsub : (pre ++ i :: next :: post).Sublist (t.children p) := by
      rw [← hsplit, siblings, hp]
      dsimp only
      split
      · exact List.filter_sublist
      · exact List.Sublist.refl _
    have hnext : t.parent? next = some p := hn.mem_children_iff.mp (hsub.subset (by simp))
    refine ⟨p, pre, post, rfl, hsplit, ?_, hsub⟩
    rw [siblings, siblings, hp, hnext]

/-- The next statement begins behind the end of a statement. -/
theorem stop_le_of_nextStatement (ho : t.Ordered) {next : NodeId}
    (h : t.nextStatement? i = some next) : (t.span i).stop ≤ (t.span next).start := by
  obtain ⟨p, pre, post, -, -, -, hsub⟩ := hn.exists_of_nextStatement h
  have hmem : i ∈ t.children p := hsub.subset (List.mem_append_right pre (.head _))
  have hpair := (ho p (lt_size_of_mem_children hmem)).sublist hsub
  obtain ⟨-, hrest, -⟩ := List.pairwise_append.mp hpair
  exact (List.pairwise_cons.mp hrest).1 next (.head _)

theorem isWithin_of_child? {c : Nat} {field : String} (h : t.child? i field = some c) :
    t.isWithin c i = true := hn.isWithin_of_mem_children (mem_of_child? h).1

/-- A way down that leads from a node to one of its children leads to nodes within. -/
theorem isWithin_of_mem_descent {next? : NodeId → Option NodeId}
    (hnext : ∀ i c, next? i = some c → c ∈ t.children i) (hi : i < t.nodes.size)
    (h : n ∈ t.descent next? i) : t.isWithin n i = true ∧ n < t.nodes.size := by
  induction hk : t.nodes.size - i using Nat.strongRecOn generalizing i with
  | ind k ih =>
    rw [descent] at h
    split at h
    · rw [List.mem_singleton.mp h]
      exact ⟨isWithin_self t i, hi⟩
    · rename_i c hc
      split at h
      · rename_i hlt
        rcases List.mem_cons.mp h with rfl | h
        · exact ⟨isWithin_self t _, hi⟩
        · have hless : t.nodes.size - c < k :=
            hk ▸ Nat.sub_lt_sub_left (Nat.lt_trans hlt.1 hlt.2) hlt.1
          obtain ⟨hwithin, hsize⟩ := ih _ hless hlt.2 h rfl
          have hchild := hn.isWithin_of_mem_children (hnext i c hc)
          exact ⟨hn.isWithin_trans hsize hwithin hchild, hsize⟩
      · rw [List.mem_singleton.mp h]
        exact ⟨isWithin_self t i, hi⟩

/-- What is left of an expression without parentheses and type assertions stands within it. -/
theorem isWithin_stripped (i : Nat) : t.isWithin (t.stripped i) i = true := by
  have hbottom : t.stripped i ∈ t.descent t.wrapped? i := by
    rw [stripped, bottom]
    cases hdescent : t.descent t.wrapped? i with
    | nil =>
      rw [descent] at hdescent
      split at hdescent
      · cases hdescent
      · split at hdescent <;> cases hdescent
    | cons first rest =>
      rw [List.getLastD_cons]
      exact List.getLastD_mem_cons
  rcases Nat.lt_or_ge i t.nodes.size with hi | hi
  · exact (hn.isWithin_of_mem_descent mem_children_of_wrapped? hi hbottom).1
  · -- A number without node has no children to descend to.
    have hnone : t.wrapped? i = none := by
      rw [wrapped?, children, node_of_size_le hi, ite_eq_right_iff]
      exact fun _ => rfl
    rw [descent, hnone] at hbottom
    rw [List.mem_singleton.mp hbottom]
    exact isWithin_self t i

/-- An argument of a call stands within it. -/
theorem isWithin_argument (h : n ∈ t.arguments i) : t.isWithin n i = true ∧ n < t.nodes.size := by
  unfold arguments at h
  split at h
  · rename_i list hlist
    split at h
    · have hsize := hn.lt_size_of_mem h
      exact ⟨hn.isWithin_trans hsize (hn.isWithin_of_mem_children h) (hn.isWithin_of_child? hlist),
        hsize⟩
    · cases h
  · cases h

/-- A parameter of a function stands within it. -/
theorem isWithin_functionParameter (h : n ∈ t.functionParameters i) : t.isWithin n i = true := by
  unfold functionParameters at h
  split at h
  · rename_i single hsingle
    rw [List.mem_singleton.mp h]
    exact hn.isWithin_of_child? hsingle
  · rename_i list hlist
    obtain ⟨c, hc, hpattern⟩ := List.mem_filterMap.mp h
    have hlistMem := (mem_of_child? hlist).1
    have hwithin : t.isWithin c i = true :=
      hn.isWithin_trans (hn.lt_size_of_mem hc) (hn.isWithin_of_mem_children hc)
        (hn.isWithin_of_mem_children hlistMem)
    unfold parameterPattern? at hpattern
    split at hpattern
    · -- A parameter with a type declares what its pattern does.
      cases hp : t.child? c "pattern" with
      | none =>
        rw [hp] at hpattern
        exact Option.some.inj hpattern ▸ hwithin
      | some pattern =>
        rw [hp] at hpattern
        obtain rfl : pattern = n := Option.some.inj hpattern
        have hmem := (mem_of_child? hp).1
        exact hn.isWithin_trans (hn.lt_size_of_mem hmem) (hn.isWithin_of_mem_children hmem) hwithin
    · split at hpattern
      · cases hpattern
      · exact Option.some.inj hpattern ▸ hwithin
  · cases h

end InPreorder

end Tree

end Declutter
