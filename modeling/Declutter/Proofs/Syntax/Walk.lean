import Declutter.Expression.Evaluation
import Declutter.Proofs.Syntax.Numbering

/-!
# Walks and ways

The numbering tells for each relation between nodes what it is in terms of their numbers: what lies
within a node is the interval from its number up to its `stop`, a walk meets what does not lie below
a closed node, and the way up from a node takes one step at a time.

## Main results

* `Tree.InPreorder.isWithin_iff` — what lies within a node.
* `Tree.InPreorder.mem_visited_iff` — what a walk meets.
* `Tree.InPreorder.steps_of_mem` — the last step of a way up.
* `Tree.InPreorder.mem_steps_iff` — all steps of a way up.
-/

namespace Declutter.Tree

theorem chain_of_root {t : Tree} {i : Nat} (hp : t.parent? i = none) : t.chain i = [i] := by
  rw [chain, ancestors, hp]

theorem lt_of_mem_ancestors {t : Tree} {i j : Nat} (hj : j ∈ t.ancestors i) : j < i := by
  induction i using Nat.strongRecOn with
  | ind i ih =>
    rw [ancestors] at hj
    split at hj
    · cases hj
    · split at hj
      · rename_i p _ hlt
        rcases List.mem_cons.mp hj with rfl | hj
        · exact hlt
        · exact Nat.lt_trans (ih p hlt hj) hlt
      · cases hj

theorem pathUp_self (t : Tree) (u : Nat) : t.pathUp u u = [u] := by
  have hout : (t.ancestors u).filter (u ≤ ·) = [] := by
    refine List.filter_eq_nil_iff.mpr fun j hj => ?_
    have := lt_of_mem_ancestors hj
    simpa using this
  rw [pathUp, chain, List.filter_cons_of_pos (by simp), hout]

theorem isWithin_self (t : Tree) (i : NodeId) : t.isWithin i i = true := by
  rw [isWithin, List.contains_iff_mem]
  exact .head _

namespace InPreorder

variable {t : Tree} (h : t.InPreorder) {i j c u : Nat}
include h

/-! ### Nesting -/

/-- What begins within a node ends within it. -/
theorem stop_le_stop (hi : i < t.nodes.size) (hij : i ≤ j) (hj : j < t.stop i) :
    t.stop j ≤ t.stop i := by
  induction j using Nat.strongRecOn with
  | ind j ih =>
    rcases Nat.eq_or_lt_of_le hij with rfl | hij
    · exact Nat.le_refl _
    · -- The parent begins within the node as well, and ends no earlier.
      obtain ⟨p, hp, hip⟩ := h.exists_parent_within (t.stop i - i) (Nat.le_refl _) hi hij hj
      have hb := h.child_bounds hp
      exact Nat.le_trans hb.2.2 (ih p hb.1 hip (Nat.lt_trans hb.1 hj))

/-- What lies within a child lies within its parent. -/
theorem within_parent (hc : c ∈ t.children i) (hj : c ≤ j ∧ j < t.stop c) :
    i ≤ j ∧ j < t.stop i := by
  have := h.child_bounds hc
  omega

/-- Of two children, one ends before the other begins. -/
theorem lt_or_lt (hc : c ∈ t.children i) (hj : j ∈ t.children i) :
    c = j ∨ t.stop c ≤ j ∨ t.stop j ≤ c := by
  have hpairwise := (h.tiles i (lt_size_of_mem_children hc)).pairwise
  generalize t.children i = l at hc hj hpairwise
  induction hpairwise with
  | nil => cases hc
  | cons hfirst _ ih =>
    rcases List.mem_cons.mp hc with rfl | hc'
    · rcases List.mem_cons.mp hj with rfl | hj'
      · exact .inl rfl
      · exact .inr (.inl (hfirst j hj').1)
    · rcases List.mem_cons.mp hj with rfl | hj'
      · exact .inr (.inr (hfirst c hc').1)
      · exact ih hc' hj'

theorem nodup_children (i : Nat) : (t.children i).Nodup := by
  rcases Nat.lt_or_ge i t.nodes.size with hi | hi
  · exact (h.tiles i hi).pairwise.imp fun hcd => Nat.ne_of_lt hcd.2
  · rw [children, node_of_size_le hi]
    exact .nil

theorem mem_subtree_iff (hi : i < t.nodes.size) : j ∈ t.subtree i ↔ i ≤ j ∧ j < t.stop i := by
  have := h.lt_stop hi
  rw [subtree, List.mem_range'_1, stop]
  rw [stop] at this
  omega

theorem self_mem_subtree (hi : i < t.nodes.size) : i ∈ t.subtree i :=
  (h.mem_subtree_iff hi).mpr ⟨Nat.le_refl i, h.lt_stop hi⟩

/-- What lies within a child lies within the node. -/
theorem subtree_subset (hc : c ∈ t.children i) : t.subtree c ⊆ t.subtree i := by
  intro j hj
  have hin := (h.mem_subtree_iff (h.lt_size_of_mem hc)).mp hj
  exact (h.mem_subtree_iff (lt_size_of_mem_children hc)).mpr (h.within_parent hc hin)

theorem ancestors_of_parent (hp : t.parent? i = some j) : t.ancestors i = j :: t.ancestors j := by
  rw [ancestors, hp]
  dsimp only
  rw [if_pos (h.parent_lt hp)]

theorem chain_of_parent (hp : t.parent? i = some j) : t.chain i = i :: t.chain j := by
  rw [chain, chain, h.ancestors_of_parent hp]

/-- The nodes around a node are those whose interval it lies in. -/
theorem mem_chain_iff (hu : u < t.nodes.size) : i ∈ t.chain u ↔ i ≤ u ∧ u < t.stop i := by
  induction u using Nat.strongRecOn with
  | ind u ih =>
    cases hp : t.parent? u with
    | none =>
      -- Only the root has no parent, and it lies within nothing else.
      have h0 : u = 0 := by
        by_contra hne
        obtain ⟨p, hp', -⟩ := h.exists_parent hu hne
        rw [hp] at hp'
        cases hp'
      rw [chain_of_root hp, List.mem_singleton]
      constructor
      · rintro rfl
        exact ⟨Nat.le_refl i, h.lt_stop hu⟩
      · omega
    | some p =>
      have hmem := h.mem_children_iff.mpr hp
      have hb := h.child_bounds hmem
      have hp' := ih p hb.1 (lt_size_of_mem_children hmem)
      rw [h.chain_of_parent hp, List.mem_cons, hp']
      constructor
      · rintro (rfl | ⟨hle, hlt⟩)
        · exact ⟨Nat.le_refl i, h.lt_stop hu⟩
        · have hi : i < t.nodes.size := Nat.lt_of_le_of_lt hle (lt_size_of_mem_children hmem)
          have := h.stop_le_stop hi hle hlt
          exact ⟨by omega, by omega⟩
      · rintro ⟨hle, hlt⟩
        rcases Nat.eq_or_lt_of_le hle with rfl | hiu
        · exact .inl rfl
        · -- What lies strictly within a node has its parent there.
          obtain ⟨q, hq, hiq⟩ := h.exists_parent_within (t.stop i - i) (Nat.le_refl _)
            (Nat.lt_trans hiu hu) hiu hlt
          obtain rfl : p = q := Option.some.inj (hp.symm.trans (h.parent_of_mem q u hq))
          exact .inr ⟨hiq, Nat.lt_trans hb.1 hlt⟩

/-- **What lies within a node** is an interval of numbers. -/
theorem isWithin_iff (hu : u < t.nodes.size) : t.isWithin u i = true ↔ i ≤ u ∧ u < t.stop i := by
  rw [isWithin, List.contains_iff_mem, h.mem_chain_iff hu]

theorem isWithin_of_mem_subtree (hj : j ∈ t.subtree i) : t.isWithin j i = true := by
  rcases Nat.lt_or_ge i t.nodes.size with hi | hi
  · rw [h.mem_subtree_iff hi] at hj
    exact (h.isWithin_iff (Nat.lt_of_lt_of_le hj.2 (h.stop_le i hi))).mpr hj
  · -- A number without node has no subtree.
    rw [subtree, node_of_size_le hi, show (default : Node).stop = 0 from rfl, Nat.zero_sub] at hj
    cases hj

/-- What lies within a node within another one lies within that one. -/
theorem isWithin_trans (hu : u < t.nodes.size) (huc : t.isWithin u c = true)
    (hci : t.isWithin c i = true) : t.isWithin u i = true := by
  rw [h.isWithin_iff hu] at huc ⊢
  have hc : c < t.nodes.size := Nat.lt_of_le_of_lt huc.1 hu
  rw [h.isWithin_iff hc] at hci
  have hi : i < t.nodes.size := Nat.lt_of_le_of_lt hci.1 hc
  exact ⟨Nat.le_trans hci.1 huc.1, Nat.lt_of_lt_of_le huc.2 (h.stop_le_stop hi hci.1 hci.2)⟩

theorem isWithin_of_mem_children (hc : c ∈ t.children i) : t.isWithin c i = true := by
  rw [isWithin, List.contains_iff_mem, h.chain_of_parent (h.parent_of_mem i c hc)]
  exact .tail _ (.head _)

/-! ### The way up -/

/-- The way up to a node ends with it; behind it come the nodes around it. -/
theorem chain_eq_append (hu : u < t.nodes.size) (hc : c ∈ t.chain u) :
    t.chain u = t.pathUp u c ++ t.ancestors c ∧ ∃ way, t.pathUp u c = way ++ [c] := by
  induction u using Nat.strongRecOn with
  | ind u ih =>
    by_cases huc : u = c
    · subst huc
      rw [pathUp_self]
      exact ⟨rfl, [], rfl⟩
    · have hle := ((h.mem_chain_iff hu).mp hc).1
      cases hp : t.parent? u with
      | none =>
        rw [chain_of_root hp, List.mem_singleton] at hc
        exact absurd hc.symm huc
      | some p =>
        rw [h.chain_of_parent hp] at hc ⊢
        have hmem := h.mem_children_iff.mpr hp
        obtain ⟨hchain, way, hway⟩ := ih p (h.child_bounds hmem).1 (lt_size_of_mem_children hmem)
          ((List.mem_cons.mp hc).resolve_left fun heq => huc heq.symm)
        have hpath : t.pathUp u c = u :: t.pathUp p c := by
          rw [pathUp, h.chain_of_parent hp, List.filter_cons_of_pos (by simpa using hle), pathUp]
        rw [hpath]
        refine ⟨?_, u :: way, by rw [hway]; rfl⟩
        rw [hchain]
        simp

/-- The way up to a node goes through the child in which it starts. -/
theorem pathUp_of_mem (hu : u < t.nodes.size) (hc : c ∈ t.children i) (huc : c ∈ t.chain u) :
    t.pathUp u i = t.pathUp u c ++ [i] := by
  have hp := h.parent_of_mem i c hc
  obtain ⟨hchain, -⟩ := h.chain_eq_append hu huc
  have hinner : (t.pathUp u c).filter (i ≤ ·) = t.pathUp u c := by
    refine List.filter_eq_self.mpr fun j hj => ?_
    have hcj : c ≤ j := by simpa using (List.mem_filter.mp hj).2
    have := (h.child_bounds hc).1
    simpa using (show i ≤ j by omega)
  have houter : (t.ancestors c).filter (i ≤ ·) = [i] := by
    rw [h.ancestors_of_parent hp, List.filter_cons_of_pos (by simp), List.filter_eq_nil_iff.mpr fun j hj => ?_]
    have := lt_of_mem_ancestors hj
    simpa using this
  rw [pathUp, hchain, List.filter_append, hinner, houter]

/-- **The last step of a way up.** -/
theorem steps_of_mem (hu : u < t.nodes.size) (hc : c ∈ t.children i) (huc : c ∈ t.chain u) :
    t.steps u i = t.steps u c ++ [(c, i)] := by
  obtain ⟨-, way, hway⟩ := h.chain_eq_append hu huc
  rw [steps, steps, h.pathUp_of_mem hu hc huc, hway]
  clear hway
  induction way with
  | nil => rfl
  | cons a way ih =>
    cases way with
    | nil => rfl
    | cons b way => simpa using ih

/-- What lies below a node lies within one of its children. -/
theorem exists_child (hi : i < t.nodes.size) (hij : i < j) (hj : j < t.stop i) :
    ∃ d : Nat, d ∈ t.children i ∧ d ≤ j ∧ j < t.stop d := by
  obtain ⟨d, hd, hdj⟩ := (h.tiles i hi).exists_mem hij hj
  exact ⟨d, hd, hdj⟩

/-- What lies within a node is the node itself or lies within one of its children. -/
theorem exists_child_of_isWithin (hj : j < t.nodes.size) (hwithin : t.isWithin j i = true)
    (hne : j ≠ i) : ∃ c ∈ t.children i, t.isWithin j c = true := by
  obtain ⟨hle, hlt⟩ := (h.isWithin_iff hj).mp hwithin
  have hi : i < t.nodes.size := Nat.lt_of_le_of_lt hle hj
  obtain ⟨c, hc, hbounds⟩ := h.exists_child hi (Nat.lt_of_le_of_ne hle hne.symm) hlt
  exact ⟨c, hc, (h.isWithin_iff hj).mpr hbounds⟩

/-- **The steps of a way up** lead from each child that the way goes through to its parent. -/
theorem mem_steps_iff (hu : u < t.nodes.size) (hi : i ≤ u ∧ u < t.stop i) {p : Nat} :
    (c, p) ∈ t.steps u i ↔ c ∈ t.children p ∧ (c ≤ u ∧ u < t.stop c) ∧ i ≤ p := by
  induction hk : u - i using Nat.strongRecOn generalizing i with
  | ind k ih =>
    rcases Nat.eq_or_lt_of_le hi.1 with rfl | hlt
    · have hsteps : t.steps i i = [] := by
        rw [steps, pathUp_self]
        rfl
      rw [hsteps]
      constructor
      · intro h
        cases h
      · rintro ⟨hc, hcu, hp⟩
        have := (h.child_bounds hc).1
        omega
    · have hsize := Nat.lt_of_le_of_lt hi.1 hu
      obtain ⟨d, hd, hdu⟩ := h.exists_child hsize hlt hi.2
      have hid := (h.child_bounds hd).1
      rw [h.steps_of_mem hu hd ((h.mem_chain_iff hu).mpr hdu), List.mem_append,
        List.mem_singleton, ih (u - d) (by omega) hdu rfl]
      constructor
      · rintro (⟨hc, hcu, hp⟩ | heq)
        · exact ⟨hc, hcu, by omega⟩
        · obtain ⟨rfl, rfl⟩ := Prod.mk.inj heq
          exact ⟨hd, hdu, Nat.le_refl _⟩
      · rintro ⟨hc, hcu, hp⟩
        rcases Nat.eq_or_lt_of_le hp with rfl | hp
        · -- Only one child of the last node holds the one where the way starts.
          refine .inr ?_
          rcases h.lt_or_lt hc hd with rfl | hle | hle
          · rfl
          · omega
          · omega
        · refine .inl ⟨hc, hcu, ?_⟩
          have hcp := h.child_bounds hc
          by_contra hpd
          have hpi : p < t.stop i := by omega
          -- The parent would lie in an earlier child, which ends before the way starts.
          obtain ⟨d', hd', hd'p⟩ := h.exists_child hsize hp hpi
          have hstop := h.stop_le_stop (h.lt_size_of_mem hd') hd'p.1 hd'p.2
          rcases h.lt_or_lt hd' hd with rfl | hle | hle
          · omega
          · omega
          · omega

/-! ### Walks -/

/-- A walk from `j` on meets the nodes that do not lie below a closed one. -/
theorem mem_visitedFrom_iff {closed : NodeId → Bool} {last : Nat} (hi : i < t.nodes.size)
    (hlast : t.stop i = last) (hij : i ≤ j) {m : Nat} :
    m ∈ t.visitedFrom closed j last ↔
      j ≤ m ∧ m < last ∧ ∀ n, j ≤ n → n < m → closed n = true → t.stop n ≤ m := by
  induction hk : last - j using Nat.strongRecOn generalizing j with
  | ind k ih =>
    rw [visitedFrom]
    split
    · rename_i hlt
      have hlt : j < last := hlt
      generalize hnext : max (j + 1) (if closed j then (t.node j).stop else j + 1) = next
      have hjs : j < t.stop j :=
        h.lt_stop (Nat.lt_of_lt_of_le hlt (hlast ▸ h.stop_le i hi))
      have hnextEq : next = if closed j = true then t.stop j else j + 1 := by
        rw [← hnext]
        split
        · exact Nat.max_eq_right hjs
        · exact Nat.max_self _
      have hjn : j < next := by
        rw [hnextEq]
        split <;> omega
      rw [List.mem_cons, ih (last - next) (by omega) (by omega) rfl]
      constructor
      · rintro (rfl | ⟨hle, hm, hclosed⟩)
        · exact ⟨Nat.le_refl m, hlt, fun n hn hnm => absurd hnm (Nat.not_lt.mpr hn)⟩
        · refine ⟨by omega, hm, fun n hn hnm hc => ?_⟩
          rcases Nat.lt_or_ge n next with hnn | hnn
          · -- A node that the walk passes over lies below the closed node `j`.
            rcases Nat.eq_or_lt_of_le hn with rfl | hjn'
            · rw [hnextEq, if_pos hc] at hle
              exact hle
            · rw [hnextEq] at hnn hle
              split at hnn
              · have := h.stop_le_stop (by
                  exact Nat.lt_of_lt_of_le hlt (hlast ▸ h.stop_le i hi)) hn hnn
                rw [if_pos ‹_›] at hle
                omega
              · omega
          · exact hclosed n hnn hnm hc
      · rintro ⟨hle, hm, hclosed⟩
        rcases Nat.eq_or_lt_of_le hle with rfl | hjm
        · exact .inl rfl
        · refine .inr ⟨?_, hm, fun n hn => hclosed n (by omega)⟩
          rw [hnextEq]
          split
          · rename_i hc
            exact hclosed j (Nat.le_refl j) hjm hc
          · omega
    · rename_i hge
      simp only [List.not_mem_nil, false_iff]
      rintro ⟨hle, hm, -⟩
      exact hge (Nat.lt_of_le_of_lt hle hm)

/-- **What a walk meets** is what lies within the node but not below a closed one. -/
theorem mem_visited_iff {closed : NodeId → Bool} (hi : i < t.nodes.size) {m : Nat} :
    m ∈ t.visited closed i ↔
      i ≤ m ∧ m < t.stop i ∧ ∀ n, i ≤ n → n < m → closed n = true → t.stop n ≤ m :=
  h.mem_visitedFrom_iff hi rfl (Nat.le_refl i)

/-- A walk that enters a node meets what the walks from its children meet. -/
theorem visited_subset {closed : NodeId → Bool} (hopen : closed i = false) (hc : c ∈ t.children i) :
    t.visited closed c ⊆ t.visited closed i := by
  intro m hm
  have hi := lt_size_of_mem_children hc
  have hb := h.child_bounds hc
  obtain ⟨hcm, hmc, hclosed⟩ := (h.mem_visited_iff (h.lt_size_of_mem hc)).mp hm
  refine (h.mem_visited_iff hi).mpr ⟨by omega, by omega, fun n hin hnm hn => ?_⟩
  rcases Nat.lt_or_ge n c with hnc | hnc
  · rcases Nat.eq_or_lt_of_le hin with rfl | hin
    · rw [hopen] at hn
      cases hn
    · -- What begins before the child ends before it.
      obtain ⟨d, hd, hdn, hnd⟩ := (h.tiles i hi).exists_mem hin (by omega)
      have hdb := h.child_bounds hd
      have hstop := h.stop_le_stop (h.lt_size_of_mem hd) hdn hnd
      have hdc : t.stop d ≤ c := by
        rcases h.lt_or_lt hd hc with rfl | hdc | hcd
        · exact absurd hnc (Nat.not_lt.mpr hdn)
        · exact hdc
        · exact absurd (Nat.lt_of_lt_of_le hb.2.1 (Nat.le_trans hcd hdn))
            (Nat.not_lt.mpr (Nat.le_of_lt hnc))
      exact Nat.le_trans hstop (Nat.le_trans hdc hcm)
  · exact hclosed n hnc hnm hn

/-- What a walk meets below its start it meets from a child of the start. -/
theorem exists_child_of_visited {closed : NodeId → Bool} (hi : i < t.nodes.size)
    (hm : j ∈ t.visited closed i) (hne : j ≠ i) :
    ∃ c ∈ t.children i, j ∈ t.visited closed c := by
  obtain ⟨hij, hji, hclosed⟩ := (h.mem_visited_iff hi).mp hm
  have hj : j < t.nodes.size := Nat.lt_of_lt_of_le hji (h.stop_le i hi)
  obtain ⟨c, hc, hwithin⟩ := h.exists_child_of_isWithin hj ((h.isWithin_iff hj).mpr ⟨hij, hji⟩) hne
  obtain ⟨hcj, hjc⟩ := (h.isWithin_iff hj).mp hwithin
  have hic : i ≤ c := Nat.le_of_lt (h.child_bounds hc).1
  refine ⟨c, hc, (h.mem_visited_iff (h.lt_size_of_mem hc)).mpr ⟨hcj, hjc, ?_⟩⟩
  exact fun n hcn => hclosed n (Nat.le_trans hic hcn)

/-- A walk meets the node where it begins. -/
theorem self_mem_visited {closed : NodeId → Bool} (hi : i < t.nodes.size) :
    i ∈ t.visited closed i :=
  (h.mem_visited_iff hi).mpr ⟨Nat.le_refl i, h.lt_stop hi, fun n hn hni => by omega⟩

end InPreorder

end Declutter.Tree
