import Declutter.Proofs.Collection.Partition

/-!
# Anchors are well defined

The arena has one entry for each variable that holds a collection, and for each source of one, in
the order in which they are declared.  What was made of a collection that is declared later counts
as not made of any, so origins lead back, and to follow them comes to an end: at the first
collection that may change, or else at one that is no view of another.

## Main definitions

* `Arena.Climbs` — the loop that follows origins.
* `Arena.Reaches` — what is found on the way.

## Main results

* `BindingTable.mem_candidates_iff` — which variables have an entry.
* `Arena.climbs_iff` — the loop comes to an end, with the anchor.
* `Arena.anchor?_eq_none_iff` — there is no anchor exactly if a collection on the way may change.
* `Arena.origins_lead_back` — the entries of the arena, and their anchors.
-/

namespace Declutter

/-! ### Which variables have an entry -/

namespace Candidate

theorem mem_map_insert_iff {i : BindingId} {new : Candidate} {l : List Candidate} :
    i ∈ (insert new l).map (·.binding) ↔ i = new.binding ∨ i ∈ l.map (·.binding) := by
  induction l with
  | nil => simp [insert]
  | cons c rest ih =>
    rw [insert]
    split
    · rename_i hsame
      rw [List.map_cons, List.map_cons, List.mem_cons, List.mem_cons, beq_iff_eq.mp hsame,
        or_self_left]
    · rw [List.map_cons, List.mem_cons, ih, List.map_cons, List.mem_cons, or_left_comm]

theorem mem_map_insertSource_iff {i : BindingId} {c : Candidate} {l : List Candidate} :
    i ∈ (insertSource c l).map (·.binding) ↔ c.source = some i ∨ i ∈ l.map (·.binding) := by
  unfold insertSource
  cases c.source with
  | none => simp
  | some source =>
    dsimp only
    split
    · -- The source is there already.
      rename_i hany
      obtain ⟨d, hd, hsource⟩ := List.any_eq_true.mp hany
      refine ⟨.inr, fun h => h.elim (fun heq => ?_) id⟩
      rw [← Option.some.inj heq]
      exact List.mem_map.mpr ⟨d, hd, beq_iff_eq.mp hsource⟩
    · rw [List.map_append, List.mem_append, List.map_singleton, List.mem_singleton,
        Option.some.injEq, or_comm, eq_comm]

end Candidate

namespace BindingTable

/-- **The variables that have an entry** are those whose initial value is a collection, and the
sources of these. -/
theorem mem_candidates_iff {b : BindingTable} {t : Tree} {i : BindingId} :
    i ∈ (b.candidates t).map (·.binding) ↔
      ∃ v ∈ b.ids, ∃ c, b.candidate? t v = some c ∧ (i = v ∨ c.source = some i) := by
  have hcollected : ∀ (found kept : List Candidate),
      i ∈ (found.foldl (fun all c => c.insertSource (c.insert all)) kept).map (·.binding) ↔
        (∃ c ∈ found, i = c.binding ∨ c.source = some i) ∨ i ∈ kept.map (·.binding) := by
    intro found
    induction found with
    | nil => simp
    | cons c rest ih =>
      intro kept
      rw [List.foldl_cons, ih, Candidate.mem_map_insertSource_iff, Candidate.mem_map_insert_iff]
      constructor
      · rintro (⟨d, hd, h⟩ | hsource | heq | hkept)
        · exact .inl ⟨d, .tail _ hd, h⟩
        · exact .inl ⟨c, .head _, .inr hsource⟩
        · exact .inl ⟨c, .head _, .inl heq⟩
        · exact .inr hkept
      · rintro (⟨d, hd, h⟩ | hkept)
        · rcases List.mem_cons.mp hd with rfl | hd
          · exact .inr (h.elim (fun heq => .inr (.inl heq)) .inl)
          · exact .inl ⟨d, hd, h⟩
        · exact .inr (.inr (.inr hkept))
  have hcandidates : i ∈ (b.candidates t).map (·.binding) ↔
      i ∈ ((b.ids.filterMap (b.candidate? t)).foldl
        (fun all c => c.insertSource (c.insert all)) []).map (·.binding) :=
    ((sortBy_perm _ _).map _).mem_iff
  rw [hcandidates, hcollected, List.map_nil, or_iff_left List.not_mem_nil]
  constructor
  · rintro ⟨c, hc, h⟩
    obtain ⟨v, hv, hc⟩ := List.mem_filterMap.mp hc
    exact ⟨v, hv, c, hc, h.imp_left fun heq => heq.trans (candidate_cases hc).1⟩
  · rintro ⟨v, hv, c, hc, h⟩
    exact ⟨c, List.mem_filterMap.mpr ⟨v, hv, hc⟩,
      h.imp_left fun heq => heq.trans (candidate_cases hc).1.symm⟩

/-- Candidates come in the order in which they are declared. -/
theorem pairwise_candidates (b : BindingTable) (t : Tree) :
    (b.candidates t).Pairwise fun c d =>
      (t.span (b.binding c.binding).nameNode).start ≤
        (t.span (b.binding d.binding).nameNode).start := by
  unfold candidates
  dsimp only
  refine (pairwise_sortBy ?_ ?_ _).imp fun h => of_decide_eq_true h
  · intro c d e hcd hde
    simp only [decide_eq_true_eq] at *
    omega
  · intro c d
    simp only [Bool.or_eq_true, decide_eq_true_eq]
    omega

end BindingTable

/-! ### Following origins -/

namespace Arena

/-- The loop that follows origins from a collection: it gives up at one that may change, and ends
at one that is not aligned with another. -/
inductive Climbs (a : Arena) : CollectionId → Option CollectionId → Prop
  | changed {i : CollectionId} (h : (a.collection i).mutated = true) : Climbs a i none
  | ends {i : CollectionId} (hkept : (a.collection i).mutated = false) (h : a.isView i = false) :
      Climbs a i (some i)
  | follow {i o : CollectionId} {r : Option CollectionId}
      (hkept : (a.collection i).mutated = false)
      (hpreserves : (a.collection i).derivation.preservesIndex = true)
      (horigin : (a.collection i).origin = some o) (hclimbs : Climbs a o r) : Climbs a i r

/-- What is found on the way from a collection, following the origins of those that are aligned with
theirs. -/
inductive Reaches (a : Arena) : CollectionId → CollectionId → Prop
  | refl (i : CollectionId) : Reaches a i i
  | follow {i o j : CollectionId} (hpreserves : (a.collection i).derivation.preservesIndex = true)
      (horigin : (a.collection i).origin = some o) (hreaches : Reaches a o j) : Reaches a i j

variable {a : Arena} {i o j : CollectionId} {r r' : Option CollectionId}

theorem isView_eq_true (hpreserves : (a.collection i).derivation.preservesIndex = true)
    (horigin : (a.collection i).origin = some o) : a.isView i = true := by
  rw [isView, hpreserves, horigin]
  rfl

/-- The loop ends in one way only. -/
theorem Climbs.unique (h : a.Climbs i r) (h' : a.Climbs i r') : r = r' := by
  induction h with
  | changed hchanged =>
    cases h' with
    | changed => rfl
    | ends hkept => cases hchanged.symm.trans hkept
    | follow hkept => cases hchanged.symm.trans hkept
  | ends hkept hend =>
    cases h' with
    | changed hchanged => cases hchanged.symm.trans hkept
    | ends => rfl
    | follow _ hpreserves horigin =>
      cases hend.symm.trans (isView_eq_true hpreserves horigin)
  | follow hkept hpreserves horigin _ ih =>
    cases h' with
    | changed hchanged => cases hchanged.symm.trans hkept
    | ends _ hend => cases hend.symm.trans (isView_eq_true hpreserves horigin)
    | follow _ _ horigin' hclimbs' =>
      obtain rfl := Option.some.inj (horigin.symm.trans horigin')
      exact ih hclimbs'

/-- The loop gives up exactly if a collection on the way may change. -/
theorem Climbs.eq_none_iff (h : a.Climbs i r) :
    r = none ↔ ∃ j, a.Reaches i j ∧ (a.collection j).mutated = true := by
  induction h with
  | changed hchanged => exact iff_of_true rfl ⟨_, .refl _, hchanged⟩
  | @ends i hkept hend =>
    refine iff_of_false (Option.some_ne_none i) ?_
    rintro ⟨j, hreaches, hchanged⟩
    cases hreaches with
    | refl => cases hchanged.symm.trans hkept
    | follow hpreserves horigin => cases hend.symm.trans (isView_eq_true hpreserves horigin)
  | @follow i o r hkept hpreserves horigin _ ih =>
    rw [ih]
    constructor
    · rintro ⟨j, hreaches, hchanged⟩
      exact ⟨j, .follow hpreserves horigin hreaches, hchanged⟩
    · rintro ⟨j, hreaches, hchanged⟩
      cases hreaches with
      | refl => cases hchanged.symm.trans hkept
      | follow _ horigin' hreaches =>
        obtain rfl := Option.some.inj (horigin.symm.trans horigin')
        exact ⟨j, hreaches, hchanged⟩

/-- Where the loop ends, it ends at once. -/
theorem Climbs.of_eq_some (h : a.Climbs i (some j)) :
    a.Reaches i j ∧ a.isView j = false ∧ a.Climbs j (some j) := by
  generalize hr : some j = r at h
  induction h with
  | changed => cases hr
  | ends hkept hend =>
    obtain rfl := Option.some.inj hr
    exact ⟨.refl _, hend, .ends hkept hend⟩
  | follow _ hpreserves horigin _ ih =>
    obtain ⟨hreaches, hend, hself⟩ := ih hr
    exact ⟨.follow hpreserves horigin hreaches, hend, hself⟩

/-- The loop comes to an end with the anchor, if each origin is an earlier collection. -/
theorem climbs_anchor? (hback : ∀ i o, (a.collection i).origin = some o → o < i) (i : CollectionId) :
    a.Climbs i (a.anchor? i) := by
  induction i using Nat.strongRecOn with
  | ind i ih =>
    rw [anchor?]
    cases hmutated : (a.collection i).mutated with
    | true => exact .changed hmutated
    | false =>
      cases hpreserves : (a.collection i).derivation.preservesIndex with
      | false => exact .ends hmutated (by rw [isView, hpreserves]; rfl)
      | true =>
        cases horigin : (a.collection i).origin with
        | none => exact .ends hmutated (by rw [isView, hpreserves, horigin]; rfl)
        | some o =>
          -- The origin is earlier, so it has been dealt with.
          have hlt := hback i o horigin
          simpa [hlt] using Climbs.follow hmutated hpreserves horigin (ih o hlt)

section

variable {b : BindingTable} {t : Tree} {k m : CollectionId}

/-- **The loop comes to an end** for every collection of a program, with its anchor. -/
theorem climbs_iff : (ofTree b t).Climbs i r ↔ r = (ofTree b t).anchor? i := by
  have hclimbs := climbs_anchor? (a := ofTree b t) (fun _ _ => origin_lt) i
  exact ⟨fun h => h.unique hclimbs, fun h => h ▸ hclimbs⟩

/-- **There is no anchor** exactly if a collection on the way may change. -/
theorem anchor?_eq_none_iff : (ofTree b t).anchor? i = none ↔
    ∃ j, (ofTree b t).Reaches i j ∧ ((ofTree b t).collection j).mutated = true :=
  (climbs_iff.mpr rfl).eq_none_iff

/-! ### The entries of the arena -/

/-- What was not made of another collection has no origin, and is not filled by a loop. -/
theorem of_derivation_eq_root (h : ((ofTree b t).collection m).derivation = .root) :
    ((ofTree b t).collection m).origin = none ∧ ((ofTree b t).collection m).loop = none ∧
      ((ofTree b t).collection m).populate = none := by
  by_cases hm : m ∈ (ofTree b t).ids
  · obtain ⟨c, hc, hget⟩ := exists_inspected hm
    obtain ⟨-, -, hderivation, -, hloop, hpopulate⟩ := Collection.inspected_eq b t
      (b.zipContexts t) (Collection.ofCandidate (b.candidates t) c m)
    rw [hget, hderivation] at h
    rw [hget, hloop, hpopulate, Collection.origin_inspected]
    unfold Collection.ofCandidate at h ⊢
    split
    · -- What has an origin has a source, and so is not a mere source itself.
      rename_i o horigin
      rw [horigin] at h
      obtain ⟨source, hsource, -⟩ :=
        Option.bind_eq_some_iff.mp (Option.filter_eq_some_iff.mp horigin).1
      rcases b.candidate?_or_eq_of_mem hc with hcandidate | hbare
      · exact absurd h ((BindingTable.isSome_source_iff hcandidate).mp (by rw [hsource]; rfl))
      · rw [hbare] at hsource
        cases hsource
    · exact ⟨rfl, rfl, rfl⟩
  · rw [collection_of_notMem hm]
    exact ⟨rfl, rfl, rfl⟩

/-- A collection was made of another one exactly if it has an origin. -/
theorem derivation_ne_root_iff : ((ofTree b t).collection m).derivation ≠ .root ↔
    ((ofTree b t).collection m).origin.isSome = true := by
  constructor
  · intro h
    obtain ⟨c, o, -, -, -, hget⟩ := exists_origin h
    rw [hget, Collection.origin_inspected]
    rfl
  · intro h hroot
    rw [(of_derivation_eq_root hroot).1] at h
    cases h

/-- Exactly a collection that is filled has a loop that fills it, and something that adds its
elements there. -/
theorem isSome_loop_iff :
    (((ofTree b t).collection m).loop.isSome = true ↔
      ((ofTree b t).collection m).derivation = .append) ∧
    (((ofTree b t).collection m).populate.isSome = true ↔
      ((ofTree b t).collection m).derivation = .append) := by
  by_cases happend : ((ofTree b t).collection m).derivation = .append
  · obtain ⟨f, o, -, hloop, hpopulate, -⟩ := exists_filling happend
    rw [hloop, hpopulate]
    exact ⟨iff_of_true rfl happend, iff_of_true rfl happend⟩
  · have hnone : ((ofTree b t).collection m).loop = none ∧
        ((ofTree b t).collection m).populate = none := by
      by_cases hroot : ((ofTree b t).collection m).derivation = .root
      · exact (of_derivation_eq_root hroot).2
      · exact unfilled_of_ne_append hroot happend
    rw [hnone.1, hnone.2]
    exact ⟨iff_of_false Bool.false_ne_true happend, iff_of_false Bool.false_ne_true happend⟩

/-- The offset at which the variable of a collection is declared. -/
def declaredAt (a : Arena) (b : BindingTable) (t : Tree) (i : CollectionId) : Nat :=
  (t.span (a.bindingOf b i).nameNode).start

/-- Collections are numbered in the order in which their variables are declared. -/
theorem declaredAt_le (hij : i < j) (hj : j < (ofTree b t).collections.size) :
    (ofTree b t).declaredAt b t i ≤ (ofTree b t).declaredAt b t j := by
  have hsize : (ofTree b t).collections.size = (b.candidates t).length := by simp [ofTree]
  rw [hsize] at hj
  rw [declaredAt, declaredAt, bindingOf, bindingOf, binding_eq (Nat.lt_trans hij hj),
    binding_eq hj]
  exact List.pairwise_iff_getElem.mp (b.pairwise_candidates t) i j _ hj hij

/-- A variable has an entry if it is a candidate. -/
theorem exists_entry_iff {v : BindingId} :
    (∃ i ∈ (ofTree b t).ids, ((ofTree b t).collection i).binding = v) ↔
      v ∈ (b.candidates t).map (·.binding) := by
  rw [ids_eq, List.mem_map]
  constructor
  · rintro ⟨i, hi, rfl⟩
    have hi := List.mem_range.mp hi
    exact ⟨_, List.getElem_mem hi, (binding_eq hi).symm⟩
  · rintro ⟨c, hc, rfl⟩
    obtain ⟨i, hi, rfl⟩ := List.getElem_of_mem hc
    exact ⟨i, List.mem_range.mpr hi, binding_eq hi⟩

/-- **Origins lead back, and anchors are well defined.**  For every program and table of bindings
the arena has its entries in the order in which their variables are declared, one for each variable
that holds a collection or is the source of one.  Exactly what was made of another collection has
an origin, which is an earlier entry, and exactly what a loop fills has the loop and what adds the
elements.  To follow origins comes to an end: without an anchor exactly if a collection on the way
may change, else at one on the way that is no view, and is its own anchor. -/
theorem origins_lead_back (b : BindingTable) (t : Tree) :
    let a := ofTree b t
    (∀ i j, i < j → j < a.collections.size → a.declaredAt b t i ≤ a.declaredAt b t j) ∧
    (∀ v, (∃ i ∈ a.ids, (a.collection i).binding = v) ↔
      ∃ w ∈ b.ids, ∃ c, b.candidate? t w = some c ∧ (v = w ∨ c.source = some v)) ∧
    (∀ i ∈ a.ids, ∀ j ∈ a.ids, (a.collection i).binding = (a.collection j).binding → i = j) ∧
    (∀ i, ((a.collection i).derivation ≠ .root ↔ (a.collection i).origin.isSome = true) ∧
      (∀ o, (a.collection i).origin = some o → o < i) ∧
      ((a.collection i).loop.isSome = true ↔ (a.collection i).derivation = .append) ∧
      ((a.collection i).populate.isSome = true ↔ (a.collection i).derivation = .append)) ∧
    ∀ i, (∀ r, a.Climbs i r ↔ r = a.anchor? i) ∧
      (a.anchor? i = none ↔ ∃ j, a.Reaches i j ∧ (a.collection j).mutated = true) ∧
      ∀ r, a.anchor? i = some r →
        a.Reaches i r ∧ r ≤ i ∧ a.isView r = false ∧ a.anchor? r = some r := by
  intro a
  refine ⟨fun i j => declaredAt_le, fun v => exists_entry_iff.trans BindingTable.mem_candidates_iff,
    fun i hi j hj => eq_of_binding_eq hi hj,
    fun i => ⟨derivation_ne_root_iff, fun o => origin_lt, isSome_loop_iff⟩,
    fun i => ⟨fun r => climbs_iff, anchor?_eq_none_iff, fun r hr => ?_⟩⟩
  obtain ⟨hreaches, hend, hself⟩ := (climbs_iff.mpr hr.symm).of_eq_some
  exact ⟨hreaches, (anchor_ofTree_iff.mp hr).le, hend, (climbs_iff.mp hself).symm⟩

end

end Arena

end Declutter
