/-!
# Putting lists in order

A stable sort by insertion, and the list without repetitions.  Both are structurally recursive, so
that what they make of a given list can be computed within a proof.

## Main definitions

* `insertBy` — an element put in its place in an ordered list.
* `sortBy` — a list put in order.
* `distinctBy` — a list without repetitions.
-/

namespace Declutter

variable {α : Type _} (le : α → α → Bool)

/-- The list with an element put before the first one that it may stand before. -/
def insertBy (a : α) : List α → List α
  | [] => [a]
  | b :: rest => if le a b then a :: b :: rest else b :: insertBy a rest

/-- The list in order; of two elements that may stand either way, the first one stays first. -/
def sortBy : List α → List α
  | [] => []
  | a :: rest => insertBy le a (sortBy rest)

theorem insertBy_perm (a : α) (l : List α) : (insertBy le a l).Perm (a :: l) := by
  induction l with
  | nil => exact .refl _
  | cons b rest ih =>
    rw [insertBy]
    split
    · exact .refl _
    · exact (ih.cons b).trans (.swap a b rest)

theorem sortBy_perm (l : List α) : (sortBy le l).Perm l := by
  induction l with
  | nil => exact .refl _
  | cons a rest ih => exact (insertBy_perm le a _).trans (ih.cons a)

@[simp] theorem mem_sortBy {a : α} {l : List α} : a ∈ sortBy le l ↔ a ∈ l :=
  (sortBy_perm le l).mem_iff

@[simp] theorem length_sortBy (l : List α) : (sortBy le l).length = l.length :=
  (sortBy_perm le l).length_eq

variable {le}

theorem pairwise_insertBy (htrans : ∀ a b c, le a b = true → le b c = true → le a c = true)
    (htotal : ∀ a b, (le a b || le b a) = true) (a : α) {l : List α}
    (h : l.Pairwise fun a b => le a b = true) :
    (insertBy le a l).Pairwise fun a b => le a b = true := by
  induction l with
  | nil => exact List.pairwise_singleton _ a
  | cons b rest ih =>
    rw [List.pairwise_cons] at h
    rw [insertBy]
    split
    · rename_i hab
      refine .cons (fun d hd => ?_) (.cons h.1 h.2)
      rcases List.mem_cons.mp hd with rfl | hd
      · exact hab
      · exact htrans a b d hab (h.1 d hd)
    · rename_i hab
      refine .cons (fun d hd => ?_) (ih h.2)
      rcases List.mem_cons.mp ((insertBy_perm le a rest).mem_iff.mp hd) with rfl | hd
      · simpa [hab] using htotal d b
      · exact h.1 d hd

/-- The sorted list is in order, when the order is total. -/
theorem pairwise_sortBy (htrans : ∀ a b c, le a b = true → le b c = true → le a c = true)
    (htotal : ∀ a b, (le a b || le b a) = true) (l : List α) :
    (sortBy le l).Pairwise fun a b => le a b = true := by
  induction l with
  | nil => exact .nil
  | cons a rest ih => exact pairwise_insertBy htrans htotal a ih

/-! ### Repetitions -/

/-- The elements kept so far, and those of the list that are the same as none kept before. -/
def distinctBy (same : α → α → Bool) (kept : List α) : List α → List α
  | [] => kept
  | a :: rest =>
    if kept.any (same a) then distinctBy same kept rest else distinctBy same (kept ++ [a]) rest

theorem mem_of_mem_distinctBy {same : α → α → Bool} {kept all : List α} {a : α}
    (h : a ∈ distinctBy same kept all) : a ∈ kept ∨ a ∈ all := by
  induction all generalizing kept with
  | nil => exact .inl h
  | cons b rest ih =>
    rw [distinctBy] at h
    split at h
    · exact (ih h).imp_right (.tail _)
    · rcases ih h with h | h
      · rcases List.mem_append.mp h with h | h
        · exact .inl h
        · exact .inr (List.mem_singleton.mp h ▸ .head _)
      · exact .inr (.tail _ h)

theorem mem_distinctBy_of_mem {same : α → α → Bool} {kept all : List α} {a : α}
    (h : a ∈ kept) : a ∈ distinctBy same kept all := by
  induction all generalizing kept with
  | nil => exact h
  | cons b rest ih =>
    rw [distinctBy]
    split
    · exact ih h
    · exact ih (List.mem_append_left _ h)

/-- No element that is kept is the same as one kept before. -/
theorem pairwise_distinctBy {same : α → α → Bool} {kept : List α} (all : List α)
    (h : kept.Pairwise fun a b => same b a = false) :
    (distinctBy same kept all).Pairwise fun a b => same b a = false := by
  induction all generalizing kept with
  | nil => exact h
  | cons c rest ih =>
    rw [distinctBy]
    split
    · exact ih h
    · rename_i hnew
      refine ih (List.pairwise_append.mpr ⟨h, List.pairwise_singleton _ c, ?_⟩)
      intro a ha b hb
      rw [List.mem_singleton.mp hb]
      simpa using fun hsame => hnew (List.any_eq_true.mpr ⟨a, ha, hsame⟩)

/-- Of elements that are the same, one is kept. -/
theorem exists_mem_distinctBy {same : α → α → Bool} (hsame : ∀ a, same a a = true)
    (kept : List α) {all : List α} {a : α} (h : a ∈ all) :
    ∃ b ∈ distinctBy same kept all, same a b = true := by
  induction all generalizing kept with
  | nil => cases h
  | cons c rest ih =>
    rw [distinctBy]
    rcases List.mem_cons.mp h with rfl | h
    · split
      · rename_i hkept
        obtain ⟨b, hb, hab⟩ := List.any_eq_true.mp hkept
        exact ⟨b, mem_distinctBy_of_mem hb, hab⟩
      · exact ⟨a, mem_distinctBy_of_mem (List.mem_append_right _ (.head _)), hsame a⟩
    · split <;> exact ih _ h

end Declutter
