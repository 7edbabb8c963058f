import Declutter.Proofs.Collection.Filling
import Mathlib.Data.List.Nodup

/-!
# The members of a group

Collections are grouped by a key: by the loop that fills them, or by the collection of which they
are views.  A group has all collections of one key, each of them once, and at least two members.

## Main definitions

* `Arena.viewsOf` — the views of one collection.
* `Arena.candidateGroups` — the groups of both sorts, from among which those of a program are taken.

## Main results

* `Arena.mem_of_coBuilt` — the members that one loop fills.
* `Arena.mem_of_view` — the views of one collection, and perhaps this one itself.
* `Arena.size_of_candidate` — a group has two different members.
-/

namespace Declutter.Arena

variable {a : Arena} {b : BindingTable} {t : Tree} {g : Group} {m : CollectionId}

/-- What has a key is what was listed with this key, and there is some. -/
theorem groupBy_cases {α κ : Type} [BEq κ] [LawfulBEq κ] {key : α → κ} {l : List α} {k : κ}
    {part : List α} (h : (k, part) ∈ groupBy key l) :
    part ≠ [] ∧ part = l.filter (key · == k) := by
  unfold groupBy at h
  obtain ⟨k', hk', heq⟩ := List.mem_map.mp h
  obtain ⟨rfl, rfl⟩ := Prod.mk.inj heq
  obtain ⟨x, hx, hxk⟩ := List.mem_map.mp (List.mem_eraseDups.mp hk')
  exact ⟨List.ne_nil_of_mem (List.mem_filter.mpr ⟨hx, by simp [hxk]⟩), rfl⟩

/-! ### Collections that one loop fills -/

/-- What a loop fills stays as it was filled. -/
theorem of_fillingLoop {loop : NodeId}
    (h : a.fillingLoop? m = some loop) : (a.collection m).derivation = .append ∧
      (a.collection m).loop = some loop ∧ (a.collection m).mutated = false := by
  unfold fillingLoop? at h
  dsimp only at h
  split at h
  · rename_i hshape
    simp only [Bool.and_eq_true, beq_iff_eq, Bool.not_eq_true'] at hshape
    exact ⟨hshape.1, h, hshape.2⟩
  · cases h

/-- **The members that one loop fills.** -/
theorem mem_of_coBuilt (h : g ∈ a.coBuiltGroups) :
    g.pattern = .coBuilt ∧ 2 ≤ g.members.length ∧ g.members.Nodup ∧
      ∃ loop, ∀ m, m ∈ g.members ↔ m ∈ a.ids ∧ a.fillingLoop? m = some loop := by
  unfold coBuiltGroups at h
  obtain ⟨⟨key, members⟩, hkey, hg⟩ := List.mem_filterMap.mp h
  obtain ⟨-, hmembers⟩ := groupBy_cases hkey
  have hnodup : members.Nodup := by
    rw [hmembers]
    exact (List.nodup_range.filter _).filter _
  dsimp only at hg
  split at hg
  · rename_i first second rest
    obtain rfl := Option.some.inj hg
    have hfirst : first ∈ first :: second :: rest := .head _
    rw [hmembers, List.mem_filter, List.mem_filter, beq_iff_eq] at hfirst
    obtain ⟨loop, hloop⟩ := Option.isSome_iff_exists.mp hfirst.1.2
    refine ⟨rfl, by simp, hnodup, loop, ?_⟩
    intro m
    show m ∈ first :: second :: rest ↔ _
    rw [hmembers, List.mem_filter, List.mem_filter, beq_iff_eq, ← hfirst.2, hloop]
    constructor
    · rintro ⟨⟨hm, -⟩, hfills⟩
      exact ⟨hm, hfills⟩
    · rintro ⟨hm, hfills⟩
      exact ⟨⟨hm, by simp [hfills]⟩, hfills⟩
  · cases hg

/-! ### Views of one collection -/

theorem viewGroup_cases {anchor : CollectionId}
    {views : List CollectionId} (h : a.viewGroup? b t anchor views = some g) :
    g.pattern = .derivedViews ∧ g.anchor = anchor ∧ 2 ≤ g.members.length ∧
      g.members.Perm (if g.anchorJoined = true then anchor :: views else views) := by
  unfold viewGroup? at h
  dsimp only at h
  generalize hmembers : (if a.zipsWithAnchor b t anchor views = true then
    anchor :: views else views) = members at h
  split at h
  · cases h
  · rename_i hsize
    obtain rfl := Option.some.inj h
    refine ⟨rfl, rfl, ?_, ?_⟩
    · rw [length_sortBy]
      exact Nat.not_lt.mp hsize
    · show (sortBy _ members).Perm (if a.zipsWithAnchor b t anchor views = true then _ else _)
      rw [hmembers]
      exact sortBy_perm _ members

/-- The collections of which `anchor` is the anchor. -/
def viewsOf (a : Arena) (anchor : CollectionId) : List CollectionId :=
  a.ids.filter (a.viewedAnchor? · == some anchor)

theorem mem_viewsOf {anchor : CollectionId} :
    m ∈ a.viewsOf anchor ↔ m ∈ a.ids ∧ a.viewedAnchor? m = some anchor := by
  rw [viewsOf, List.mem_filter, beq_iff_eq]

/-- A group of views is made of its anchor and all views of it. -/
theorem viewGroup_of_mem (h : g ∈ a.viewGroups b t) :
    a.viewGroup? b t g.anchor (a.viewsOf g.anchor) = some g ∧ ∃ m, m ∈ a.viewsOf g.anchor := by
  unfold viewGroups at h
  obtain ⟨⟨key, views⟩, hkey, hg⟩ := List.mem_filterMap.mp h
  obtain ⟨anchor, rfl, hg⟩ := Option.bind_eq_some_iff.mp hg
  obtain ⟨hne, hparts⟩ := groupBy_cases hkey
  have hviews : views = a.viewsOf anchor := by
    rw [hparts, List.filter_filter]
    refine List.filter_congr fun m _ => ?_
    cases a.viewedAnchor? m <;> simp
  obtain ⟨-, rfl, -⟩ := viewGroup_cases hg
  rw [← hviews]
  exact ⟨hg, List.exists_mem_of_ne_nil _ hne⟩

/-- No collection is a view of itself. -/
theorem viewedAnchor_ne {r : CollectionId} (h : a.viewedAnchor? m = some r) : m ≠ r := by
  rintro rfl
  unfold viewedAnchor? at h
  split at h
  · have := (Option.filter_eq_some_iff.mp h).2
    simp at this
  · cases h

/-- **The members of a group of views**: the views of its anchor, and perhaps the anchor. -/
theorem mem_of_view (h : g ∈ a.viewGroups b t) :
    g.pattern = .derivedViews ∧ 2 ≤ g.members.length ∧ g.members.Nodup ∧
      ∀ m, m ∈ g.members ↔ (m ∈ a.ids ∧ a.viewedAnchor? m = some g.anchor) ∨
        (g.anchorJoined = true ∧ m = g.anchor) := by
  obtain ⟨hpattern, -, hsize, hperm⟩ := viewGroup_cases (viewGroup_of_mem h).1
  have hnodup : (a.viewsOf g.anchor).Nodup := List.nodup_range.filter _
  have hother : g.anchor ∉ a.viewsOf g.anchor := fun hin =>
    viewedAnchor_ne (mem_viewsOf.mp hin).2 rfl
  refine ⟨hpattern, hsize, ?_, fun m => ?_⟩
  · rw [hperm.nodup_iff]
    split
    · exact List.nodup_cons.mpr ⟨hother, hnodup⟩
    · exact hnodup
  · rw [hperm.mem_iff, ← mem_viewsOf]
    split
    · rename_i hjoined
      simp [hjoined, or_comm]
    · rename_i hjoined
      simp [hjoined]

/-- Views of one collection are other collections. -/
theorem derived_ne_nil_of_view (h : g ∈ a.viewGroups b t) : g.derived ≠ [] := by
  obtain ⟨-, view, hview⟩ := viewGroup_of_mem h
  have hviews := mem_viewsOf.mp hview
  obtain ⟨-, -, -, hmembers⟩ := mem_of_view h
  refine List.ne_nil_of_mem (List.mem_filter.mpr ⟨(hmembers view).mpr (.inl hviews), ?_⟩)
  exact bne_iff_ne.mpr (viewedAnchor_ne hviews.2)

/-! ### Groups of both sorts -/

/-- The groups from among which those of a program are taken. -/
def candidateGroups (a : Arena) (b : BindingTable) (t : Tree) : List Group :=
  a.coBuiltGroups ++ a.viewGroups b t

theorem size_of_candidate (h : g ∈ a.candidateGroups b t) :
    2 ≤ g.members.length ∧ g.members.Nodup := by
  rcases List.mem_append.mp h with h | h
  · obtain ⟨-, hsize, hnodup, -⟩ := mem_of_coBuilt h
    exact ⟨hsize, hnodup⟩
  · obtain ⟨-, hsize, hnodup, -⟩ := mem_of_view h
    exact ⟨hsize, hnodup⟩

theorem ne_nil_of_candidate (h : g ∈ a.candidateGroups b t) : g.members ≠ [] :=
  List.ne_nil_of_length_pos (Nat.lt_of_lt_of_le Nat.zero_lt_two (size_of_candidate h).1)

/-- The groups that lie within no larger one. -/
def maximalGroups (a : Arena) (b : BindingTable) (t : Tree) : List Group :=
  (a.candidateGroups b t).filter fun g => !(a.candidateGroups b t).any g.isStrictlyWithin

theorem maximal_of_mem_groups (h : g ∈ a.groups b t) : g ∈ a.maximalGroups b t := by
  unfold groups at h
  dsimp only at h
  rw [mem_sortBy] at h
  exact (mem_of_mem_distinctBy h).resolve_left List.not_mem_nil

/-- Every group of a program is of one of the two sorts. -/
theorem candidate_of_mem_groups (h : g ∈ a.groups b t) : g ∈ a.candidateGroups b t :=
  (List.mem_filter.mp (maximal_of_mem_groups h)).1

end Declutter.Arena
