import Declutter.Proofs.Collection.Members
import Declutter.Proofs.Merge.Observation
import Mathlib.Data.Finset.Dedup
import Mathlib.Data.Finset.Max
import Mathlib.Data.List.Nodup

/-!
# Groups are disjoint

Collections are grouped in two ways: those that one loop fills, and the views of one collection.
Either way yields disjoint groups.  What one loop fills was made of one source, so all of it is
aligned with the same collection or none of it is; hence a group of the first sort lies within one
of the second sort or shares no member with any.  Of groups one within the other the larger one is
kept, and so the groups that are kept are disjoint and cover all others.

## Main definitions

* `Arena.Leads` — the origins of a collection, followed through collections that stay aligned.
* `Arena.Aligned` — the marked elements of a collection have indices of another one.

## Main results

* `Arena.anchor_eq_some_iff` — the anchor of a collection is where its origins end.
* `Arena.mem_of_coBuilt`, `Arena.mem_of_view` — the members of a group.
* `Arena.subset_of_coBuilt` — what one loop fills is a part of the views that it meets.
* `Arena.nested_of_mem` — of two groups that share a member, one lies within the other.
* `Arena.groups_partition` — the groups of a program.
-/

namespace Declutter

/-! ### One collection for each variable -/

namespace Candidate

theorem map_binding_insert (new : Candidate) (l : List Candidate) :
    (insert new l).map (·.binding) = l.map (·.binding) ∨
      (insert new l).map (·.binding) = l.map (·.binding) ++ [new.binding] ∧
        new.binding ∉ l.map (·.binding) := by
  induction l with
  | nil => exact .inr ⟨rfl, List.not_mem_nil⟩
  | cons c rest ih =>
    rw [insert]
    split
    · rename_i hsame
      rw [List.map_cons, List.map_cons, beq_iff_eq.mp hsame]
      exact .inl rfl
    · rename_i hother
      rw [List.map_cons, List.map_cons]
      refine ih.imp (congrArg _) ?_
      rintro ⟨heq, hnot⟩
      refine ⟨by rw [heq]; rfl, ?_⟩
      rw [List.mem_cons, not_or]
      exact ⟨fun h => hother (beq_iff_eq.mpr h.symm), hnot⟩

theorem nodup_insert {new : Candidate} {l : List Candidate} (h : (l.map (·.binding)).Nodup) :
    ((insert new l).map (·.binding)).Nodup := by
  rcases map_binding_insert new l with heq | ⟨heq, hnot⟩
  · rwa [heq]
  · rw [heq, ← List.concat_eq_append]
    exact h.concat hnot

theorem nodup_insertSource {c : Candidate} {l : List Candidate} (h : (l.map (·.binding)).Nodup) :
    ((insertSource c l).map (·.binding)).Nodup := by
  unfold insertSource
  split
  · exact h
  rename_i source _
  split
  · exact h
  · rename_i hnew
    rw [List.map_append, List.map_singleton, ← List.concat_eq_append]
    refine h.concat fun hsource => hnew ?_
    obtain ⟨d, hd, heq⟩ := List.mem_map.mp hsource
    exact List.any_eq_true.mpr ⟨d, hd, beq_iff_eq.mpr heq⟩

end Candidate

/-- No variable holds two candidates. -/
theorem BindingTable.nodup_candidates (b : BindingTable) (t : Tree) :
    ((b.candidates t).map (·.binding)).Nodup := by
  unfold candidates
  dsimp only
  refine ((sortBy_perm _ _).map _).nodup_iff.mpr ?_
  have hinvariant : ∀ (found kept : List Candidate), (kept.map (·.binding)).Nodup →
      ((found.foldl (fun all c => c.insertSource (c.insert all)) kept).map (·.binding)).Nodup := by
    intro found
    induction found with
    | nil => exact fun kept h => h
    | cons c rest ih =>
      exact fun kept h => ih _ (Candidate.nodup_insertSource (Candidate.nodup_insert h))
  exact hinvariant _ [] .nil

/-! ### What is known of an entry -/

namespace Collection

variable {b : BindingTable} {t : Tree} {contexts : List ZipContext} {c : Collection}

/-- Only what was mapped or copied has markers. -/
theorem touch_ne_marker (hmap : c.derivation ≠ .map) (hcopy : c.derivation ≠ .copy)
    (usage subscript : NodeId) (context : ZipContext) :
    touch b t contexts c usage ≠ .marker subscript context := by
  unfold touch
  split
  · exact Touch.noConfusion
  split
  · exact Touch.noConfusion
  split
  · exact Touch.noConfusion
  split
  · split <;> exact Touch.noConfusion
  split
  · rw [if_neg (by simp [hmap, hcopy])]
    split <;> exact Touch.noConfusion
  · exact Touch.noConfusion

theorem markers_inspect (hmap : c.derivation ≠ .map) (hcopy : c.derivation ≠ .copy)
    (usages : List Usage) : (inspect b t contexts c usages).markers = [] := by
  induction usages with
  | nil => rfl
  | cons u rest ih =>
    rw [inspect]
    cases htouch : touch b t contexts c u.node with
    | harmless => exact ih
    | mutation | defect => rfl
    | marker subscript context =>
      exact absurd htouch (touch_ne_marker hmap hcopy u.node subscript context)

theorem markers_inspected (hmap : c.derivation ≠ .map) (hcopy : c.derivation ≠ .copy)
    (hnone : c.markers = []) : (c.inspected b t contexts).markers = [] := by
  unfold inspected
  dsimp only
  split
  · exact hnone
  · exact markers_inspect hmap hcopy _

end Collection

/-- A group lies within another one that has all its members. -/
theorem Group.isWithin_iff {g h : Group} : g.isWithin h = true ↔ g.members ⊆ h.members := by
  simp [isWithin, List.subset_def]

/-- The source over which a loop runs, or of which a call runs the callback. -/
def BindingTable.sourceOfLoop? (b : BindingTable) (t : Tree) (loop : NodeId) : Option BindingId :=
  match t.kind loop with
  | .call => (t.call? loop).bind fun parts => parts.receiver.bind (b.sourceOf? t)
  | .forStatement => (b.indexLoop? t loop).map (·.collection)
  | _ => (t.child? loop "right").bind (b.sourceOf? t)

namespace BindingTable

variable {b : BindingTable} {t : Tree}

theorem sourceOfLoop_of_callback {function loop : NodeId} {source : BindingId}
    (h : b.callbackIteration? t function = some (loop, source)) :
    b.sourceOfLoop? t loop = some source := by
  obtain ⟨parts, hparts, -, hsource⟩ := call_of_callbackIteration h
  unfold sourceOfLoop?
  rw [call?_kind hparts, hparts]
  exact hsource

theorem sourceOfLoop_of_enclosing {statement loop : NodeId} {source : BindingId}
    (h : b.enclosingIteration? t statement = some (loop, source)) :
    b.sourceOfLoop? t loop = some source := by
  obtain ⟨body, owner, -, -, -, -, -, hcases⟩ := block_of_enclosingIteration h
  rcases hcases with ⟨hkind, rfl, hsource⟩ | ⟨hkind, rfl, context, hcontext, rfl⟩ |
    ⟨-, hcallback⟩
  · unfold sourceOfLoop?
    rw [hkind]
    exact hsource
  · unfold sourceOfLoop?
    rw [hkind, hcontext]
    rfl
  · exact sourceOfLoop_of_callback hcallback

/-- **A loop has one source**, whatever it fills. -/
theorem sourceOfLoop_of_filling {i : BindingId} {shape : Shape} {f : Filling}
    (h : b.filling? t i shape = some f) : b.sourceOfLoop? t f.loop = some f.source := by
  obtain ⟨u, expression, -, -, hfill, -⟩ := fillingAt_of_filling h
  unfold fillingAt? at hfill
  split at hfill
  · cases hfill
  split at hfill
  · obtain ⟨⟨loop, source⟩, hloop, rfl⟩ := Option.map_eq_some_iff.mp hfill
    exact sourceOfLoop_of_callback hloop
  split at hfill
  · obtain ⟨⟨loop, source⟩, hloop, rfl⟩ := Option.map_eq_some_iff.mp hfill
    exact sourceOfLoop_of_enclosing hloop
  · cases hfill

end BindingTable

namespace Arena

/-! ### Origins -/

/-- The origins of a collection lead to `r`, through collections that do not change, as far as each
was made element by element of another one. -/
inductive Leads (a : Arena) : CollectionId → CollectionId → Prop
  | stop {i : CollectionId} (hkept : (a.collection i).mutated = false)
      (hends : (a.collection i).derivation.preservesIndex = false ∨
        (a.collection i).origin = none) : Leads a i i
  | follow {i o r : CollectionId} (hkept : (a.collection i).mutated = false)
      (hpreserves : (a.collection i).derivation.preservesIndex = true)
      (horigin : (a.collection i).origin = some o) (hleads : Leads a o r) : Leads a i r

/-- Every marked element of a collection has the index of one that is aligned with `r`. -/
def Aligned (a : Arena) (i r : CollectionId) : Prop :=
  ∀ marker ∈ (a.collection i).markers, ∃ owner ∈ a.ids,
    (a.collection owner).binding = marker.2.collection ∧ a.Leads owner r

section

variable {a : Arena} {i r : CollectionId}

theorem Leads.not_mutated (h : a.Leads i r) : (a.collection i).mutated = false := by
  cases h with
  | stop hkept => exact hkept
  | follow hkept => exact hkept

/-- Where origins lead, they lead no further. -/
theorem Leads.self (h : a.Leads i r) : a.Leads r r := by
  induction h with
  | stop hkept hends => exact .stop hkept hends
  | follow _ _ _ _ ih => exact ih

theorem Leads.unique {r' : CollectionId} (h : a.Leads i r) (h' : a.Leads i r') : r = r' := by
  induction h with
  | stop _ hends =>
    cases h' with
    | stop => rfl
    | follow _ hpreserves horigin =>
      rcases hends with hends | hends
      · rw [hpreserves] at hends
        cases hends
      · rw [horigin] at hends
        cases hends
  | follow _ hpreserves horigin _ ih =>
    cases h' with
    | stop _ hends =>
      rcases hends with hends | hends
      · rw [hpreserves] at hends
        cases hends
      · rw [horigin] at hends
        cases hends
    | follow _ _ horigin' hleads' =>
      obtain rfl := Option.some.inj (horigin.symm.trans horigin')
      exact ih hleads'

/-- A collection whose origins lead elsewhere is a view. -/
theorem Leads.isView (h : a.Leads i r) (hne : r ≠ i) : a.isView i = true := by
  cases h with
  | stop => exact absurd rfl hne
  | follow _ hpreserves horigin => simp [Arena.isView, hpreserves, horigin]

/-- **The anchor of a collection** is where its origins end, if each of them is earlier. -/
theorem anchor_eq_some_iff (hback : ∀ i o, (a.collection i).origin = some o → o < i) :
    a.anchor? i = some r ↔ a.Leads i r := by
  constructor
  · intro h
    induction i using Nat.strongRecOn with
    | ind i ih =>
      rw [anchor?] at h
      split at h
      · cases h
      rename_i hkept
      have hkept : (a.collection i).mutated = false := by simpa using hkept
      split at h
      · rename_i hends
        obtain rfl := Option.some.inj h
        exact .stop hkept (.inl (by simpa using hends))
      · rename_i hpreserves
        split at h
        · rename_i hnone
          obtain rfl := Option.some.inj h
          exact .stop hkept (.inr hnone)
        · rename_i o horigin
          rw [if_pos (hback i o horigin)] at h
          exact .follow hkept (by simpa using hpreserves) horigin (ih o (hback i o horigin) h)
  · intro h
    induction h with
    | stop hkept hends =>
      rw [anchor?, if_neg (by simp [hkept])]
      rcases hends with hends | hends
      · rw [if_pos (by simp [hends])]
      · split
        · rfl
        · rw [hends]
    | @follow i o r hkept hpreserves horigin _ ih =>
      rw [anchor?, if_neg (by simp [hkept]), if_neg (by simp [hpreserves])]
      rw [horigin]
      dsimp only
      rw [if_pos (hback i o horigin), ih]

end

section

variable {b : BindingTable} {t : Tree} {i j m r : CollectionId}

/-- The origin of a collection is an earlier one. -/
theorem origin_lt {o : CollectionId} (h : ((ofTree b t).collection i).origin = some o) : o < i := by
  by_cases hi : i ∈ (ofTree b t).ids
  · obtain ⟨c, -, hget⟩ := exists_inspected hi
    rw [hget, Collection.origin_inspected] at h
    unfold Collection.ofCandidate at h
    split at h
    · rename_i origin horigin
      obtain rfl := Option.some.inj h
      simpa using (Option.filter_eq_some_iff.mp horigin).2
    · cases h
  · rw [collection_of_notMem hi] at h
    cases h

/-- Origins lead back. -/
theorem Leads.le (h : (ofTree b t).Leads i r) : r ≤ i := by
  induction h with
  | stop => exact Nat.le_refl _
  | follow _ _ horigin _ ih => exact Nat.le_trans ih (Nat.le_of_lt (origin_lt horigin))

theorem ids_eq (b : BindingTable) (t : Tree) :
    (ofTree b t).ids = List.range (b.candidates t).length := by
  simp [ids, ofTree]

/-- **A variable has one collection.** -/
theorem eq_of_binding_eq (hi : i ∈ (ofTree b t).ids) (hj : j ∈ (ofTree b t).ids)
    (h : ((ofTree b t).collection i).binding = ((ofTree b t).collection j).binding) : i = j := by
  rw [ids_eq, List.mem_range] at hi hj
  rw [binding_eq hi, binding_eq hj] at h
  have hi' : i < ((b.candidates t).map (·.binding)).length := by simpa using hi
  have hj' : j < ((b.candidates t).map (·.binding)).length := by simpa using hj
  have hsame : ((b.candidates t).map (·.binding))[i] = ((b.candidates t).map (·.binding))[j] := by
    simpa using h
  exact (b.nodup_candidates t).getElem_inj_iff.mp hsame

/-- What a loop fills has an origin, the collection of the source of the loop, and no markers. -/
theorem origin_of_append (h : ((ofTree b t).collection m).derivation = .append) {loop : NodeId}
    (hloop : ((ofTree b t).collection m).loop = some loop) :
    ∃ o, ((ofTree b t).collection m).origin = some o ∧ o ∈ (ofTree b t).ids ∧
      b.sourceOfLoop? t loop = some ((ofTree b t).collection o).binding ∧
      ((ofTree b t).collection m).markers = [] := by
  obtain ⟨f, o, hf, hfloop, -, horigin, hbefore, hsource⟩ := exists_filling h
  have hm : m ∈ (ofTree b t).ids := by
    by_contra hm
    rw [collection_of_notMem hm] at h
    cases h
  refine ⟨o, horigin, ?_, ?_, ?_⟩
  · rw [ids, List.mem_range] at hm ⊢
    exact Nat.lt_trans hbefore hm
  · rw [← hsource, Option.some.inj (hloop.symm.trans hfloop)]
    exact BindingTable.sourceOfLoop_of_filling hf
  · obtain ⟨c, -, hget⟩ := exists_inspected hm
    have hderivation := (Collection.inspected_eq b t (b.zipContexts t)
      (Collection.ofCandidate (b.candidates t) c m)).2.2.1
    rw [← hget, h] at hderivation
    rw [hget]
    refine Collection.markers_inspected ?_ ?_ ?_
    · simp [← hderivation]
    · simp [← hderivation]
    · unfold Collection.ofCandidate
      split <;> rfl

/-- **The anchor of a collection** of a program is where its origins end. -/
theorem anchor_ofTree_iff : (ofTree b t).anchor? i = some r ↔ (ofTree b t).Leads i r :=
  anchor_eq_some_iff fun _ _ => origin_lt

theorem mem_of_ofBinding {a : Arena} {binding : BindingId} (h : a.ofBinding? binding = some i) :
    i ∈ a.ids ∧ (a.collection i).binding = binding := by
  unfold ofBinding? at h
  exact ⟨List.mem_of_find?_eq_some h, by simpa using List.find?_some h⟩

theorem markersAligned_iff : (ofTree b t).markersAligned i r = true ↔ (ofTree b t).Aligned i r := by
  unfold markersAligned Aligned
  rw [List.all_eq_true]
  refine forall₂_congr fun marker _ => ?_
  rw [Option.any_eq_true]
  constructor
  · rintro ⟨owner, howner, hanchor⟩
    obtain ⟨hmem, hbinding⟩ := mem_of_ofBinding howner
    exact ⟨owner, hmem, hbinding, anchor_ofTree_iff.mp (by simpa using hanchor)⟩
  · rintro ⟨owner, howner, hbinding, hleads⟩
    cases hfound : (ofTree b t).ofBinding? marker.2.collection with
    | none =>
      have hnone := List.find?_eq_none.mp hfound owner howner
      exact absurd (beq_iff_eq.mpr hbinding) hnone
    | some found =>
      obtain ⟨hmem, hfoundBinding⟩ := mem_of_ofBinding hfound
      have heq : found = owner := eq_of_binding_eq hmem howner (hfoundBinding.trans hbinding.symm)
      exact ⟨found, rfl, by simp [heq, anchor_ofTree_iff.mpr hleads]⟩

/-- **A view of `r`** is another collection whose origins lead there and whose marked elements have
its indices. -/
theorem viewedAnchor_iff : (ofTree b t).viewedAnchor? i = some r ↔
    i ≠ r ∧ (ofTree b t).Leads i r ∧ (ofTree b t).Aligned i r := by
  unfold viewedAnchor?
  constructor
  · intro h
    split at h
    · obtain ⟨hanchor, hother⟩ := Option.filter_eq_some_iff.mp h
      simp only [Bool.and_eq_true, bne_iff_ne, ne_eq] at hother
      exact ⟨fun heq => hother.1 heq.symm, anchor_ofTree_iff.mp hanchor,
        markersAligned_iff.mp hother.2⟩
    · cases h
  · rintro ⟨hne, hleads, haligned⟩
    rw [if_pos (hleads.isView hne.symm), anchor_ofTree_iff.mpr hleads, Option.filter_some,
      if_pos (by simp [hne.symm, markersAligned_iff.mpr haligned])]

/-! ### Members of the groups of a program -/

/-- The anchor of a group of views has views, and its origins lead no further. -/
theorem anchor_of_view {g : Group} (h : g ∈ (ofTree b t).viewGroups b t) :
    g.anchor ∈ (ofTree b t).ids ∧ (ofTree b t).Leads g.anchor g.anchor := by
  obtain ⟨-, view, hview⟩ := viewGroup_of_mem h
  obtain ⟨hids, hview⟩ := mem_viewsOf.mp hview
  obtain ⟨-, hleads, -⟩ := viewedAnchor_iff.mp hview
  refine ⟨?_, hleads.self⟩
  rw [ids, List.mem_range] at hids ⊢
  exact Nat.lt_of_le_of_lt hleads.le hids

/-- The origins of every member of a group of views lead to its anchor. -/
theorem leads_of_view {g : Group} (h : g ∈ (ofTree b t).viewGroups b t) (hm : m ∈ g.members) :
    m ∈ (ofTree b t).ids ∧ (ofTree b t).Leads m g.anchor := by
  obtain ⟨-, -, -, hmembers⟩ := mem_of_view h
  rcases (hmembers m).mp hm with ⟨hids, hview⟩ | ⟨-, rfl⟩
  · exact ⟨hids, (viewedAnchor_iff.mp hview).2.1⟩
  · exact anchor_of_view h

/-- No member changes, and members have collections. -/
theorem kept_of_mem {g : Group} (h : g ∈ (ofTree b t).candidateGroups b t) (hm : m ∈ g.members) :
    m ∈ (ofTree b t).ids ∧ ((ofTree b t).collection m).mutated = false := by
  rcases List.mem_append.mp h with h | h
  · obtain ⟨-, -, -, loop, hmembers⟩ := mem_of_coBuilt h
    obtain ⟨hids, hloop⟩ := (hmembers m).mp hm
    exact ⟨hids, (of_fillingLoop hloop).2.2⟩
  · obtain ⟨hids, hleads⟩ := leads_of_view h hm
    exact ⟨hids, hleads.not_mutated⟩

/-! ### Groups that share a member -/

/-- What one loop fills was made of one collection, and no elements of it are marked. -/
theorem origin_of_coBuilt {g : Group} (h : g ∈ (ofTree b t).coBuiltGroups) :
    ∃ o, ∀ m ∈ g.members, ((ofTree b t).collection m).derivation = .append ∧
      ((ofTree b t).collection m).origin = some o ∧
      ((ofTree b t).collection m).mutated = false ∧
      ((ofTree b t).collection m).markers = [] := by
  obtain ⟨-, hsize, -, loop, hmembers⟩ := mem_of_coBuilt h
  obtain ⟨first, hfirst⟩ := List.exists_mem_of_length_pos (Nat.lt_of_lt_of_le Nat.zero_lt_two hsize)
  obtain ⟨hderivation, hloop, -⟩ := of_fillingLoop ((hmembers first).mp hfirst).2
  obtain ⟨o, -, hids, hsource, -⟩ := origin_of_append hderivation hloop
  refine ⟨o, fun m hm => ?_⟩
  obtain ⟨hderivation', hloop', hkept⟩ := of_fillingLoop ((hmembers m).mp hm).2
  obtain ⟨o', horigin, hids', hsource', hmarkers⟩ := origin_of_append hderivation' hloop'
  obtain rfl : o = o' :=
    eq_of_binding_eq hids hids' (Option.some.inj (hsource.symm.trans hsource'))
  exact ⟨hderivation', horigin, hkept, hmarkers⟩

/-- **What one loop fills is a part of the views that it meets.** -/
theorem subset_of_coBuilt {g h : Group} (hg : g ∈ (ofTree b t).coBuiltGroups)
    (hh : h ∈ (ofTree b t).viewGroups b t) (hm : m ∈ g.members) (hm' : m ∈ h.members) :
    g.members ⊆ h.members := by
  obtain ⟨o, hmade⟩ := origin_of_coBuilt hg
  obtain ⟨-, -, -, hmembers⟩ := mem_of_view hh
  -- What a loop fills has an origin, and from there the way goes on to the anchor.
  have hleads : (ofTree b t).Leads o h.anchor := by
    obtain ⟨hderivation, horigin, -⟩ := hmade m hm
    cases (leads_of_view hh hm').2 with
    | stop _ hends => simp [hderivation, horigin, Derivation.preservesIndex] at hends
    | follow _ _ horigin' hleads => rwa [Option.some.inj (horigin.symm.trans horigin')]
  intro j hj
  obtain ⟨hderivation, horigin, hkept, hmarkers⟩ := hmade j hj
  refine (hmembers j).mpr (.inl ⟨(kept_of_mem (List.mem_append_left _ hg) hj).1, ?_⟩)
  refine viewedAnchor_iff.mpr ⟨?_, .follow hkept ?_ horigin hleads, ?_⟩
  · exact Nat.ne_of_gt (Nat.lt_of_le_of_lt hleads.le (origin_lt horigin))
  · rw [hderivation]
    rfl
  · intro marker hmarker
    rw [hmarkers] at hmarker
    cases hmarker

/-- Views of one collection are in one group. -/
theorem eq_of_mem_view {g h : Group} (hg : g ∈ (ofTree b t).viewGroups b t)
    (hh : h ∈ (ofTree b t).viewGroups b t) (hm : m ∈ g.members) (hm' : m ∈ h.members) :
    g = h := by
  have hanchor := (leads_of_view hg hm).2.unique (leads_of_view hh hm').2
  have hmade := (viewGroup_of_mem hg).1
  rw [hanchor, (viewGroup_of_mem hh).1] at hmade
  exact (Option.some.inj hmade).symm

/-- **Of two candidates that share a member, one lies within the other.** -/
theorem nested_of_mem {g h : Group} (hg : g ∈ (ofTree b t).candidateGroups b t)
    (hh : h ∈ (ofTree b t).candidateGroups b t) (hm : m ∈ g.members) (hm' : m ∈ h.members) :
    g.members ⊆ h.members ∨ h.members ⊆ g.members := by
  rcases List.mem_append.mp hg with hg | hg <;> rcases List.mem_append.mp hh with hh | hh
  · obtain ⟨-, -, -, loop, hmembers⟩ := mem_of_coBuilt hg
    obtain ⟨-, -, -, loop', hmembers'⟩ := mem_of_coBuilt hh
    have hloop : loop = loop' := Option.some.inj
      (((hmembers m).mp hm).2.symm.trans ((hmembers' m).mp hm').2)
    exact .inl fun j hj => (hmembers' j).mpr (hloop ▸ (hmembers j).mp hj)
  · exact .inl (subset_of_coBuilt hg hh hm hm')
  · exact .inr (subset_of_coBuilt hh hg hm' hm)
  · exact .inl (eq_of_mem_view hg hh hm hm' ▸ List.Subset.refl _)

/-! ### The groups that are kept -/

/-- A group that lies within no larger one has all members of those that it lies within. -/
theorem subset_of_maximal {a : Arena} {g h : Group} (hg : g ∈ a.maximalGroups b t)
    (hh : h ∈ a.candidateGroups b t) (hwithin : g.members ⊆ h.members) :
    h.members ⊆ g.members := by
  have hnone := (List.mem_filter.mp hg).2
  rw [Bool.not_eq_true', List.any_eq_false] at hnone
  have hnot := hnone h hh
  rw [Group.isStrictlyWithin, Group.isWithin_iff.mpr hwithin] at hnot
  exact Group.isWithin_iff.mp (by simpa using hnot)

/-- **Every candidate lies within one that lies within no larger one.** -/
theorem exists_maximal {a : Arena} {g : Group} (hg : g ∈ a.candidateGroups b t) :
    ∃ h ∈ a.maximalGroups b t, g.members ⊆ h.members := by
  let above := (a.candidateGroups b t).filter g.isWithin
  have habove : g ∈ above :=
    List.mem_filter.mpr ⟨hg, Group.isWithin_iff.mpr (List.Subset.refl _)⟩
  obtain ⟨h, hh, hlongest⟩ := above.toFinset.exists_max_image (·.members.length)
    ⟨g, List.mem_toFinset.mpr habove⟩
  obtain ⟨hcandidate, hwithin⟩ := List.mem_filter.mp (List.mem_toFinset.mp hh)
  have hwithin := Group.isWithin_iff.mp hwithin
  refine ⟨h, List.mem_filter.mpr ⟨hcandidate, ?_⟩, hwithin⟩
  rw [Bool.not_eq_true', List.any_eq_false]
  intro k hk hstrict
  obtain ⟨hless, hnot⟩ := Bool.and_eq_true_iff.mp hstrict
  have hless := Group.isWithin_iff.mp hless
  -- What has all members of the longest group, and is no longer, has the same members.
  have hlength := hlongest k (List.mem_toFinset.mpr
    (List.mem_filter.mpr ⟨hk, Group.isWithin_iff.mpr (List.Subset.trans hwithin hless)⟩))
  have hsame := ((size_of_candidate hcandidate).2.subperm hless).perm_of_length_le hlength
  simp [Group.isWithin_iff.mpr hsame.symm.subset] at hnot

/-- **The groups of a program are disjoint.** -/
theorem pairwise_groups (b : BindingTable) (t : Tree) :
    ((ofTree b t).groups b t).Pairwise fun g h => g.members.Disjoint h.members := by
  have hdistinct :
      (distinctBy (fun g h => g.isWithin h && h.isWithin g) [] ((ofTree b t).maximalGroups b t))
        |>.Pairwise fun g h => (h.isWithin g && g.isWithin h) = false :=
    pairwise_distinctBy _ .nil
  unfold groups
  dsimp only
  rw [(sortBy_perm _ _).pairwise_iff List.Disjoint.symm]
  refine hdistinct.imp_of_mem fun {g h} hg hh hother m hm hm' => ?_
  have hg := (mem_of_mem_distinctBy hg).resolve_left List.not_mem_nil
  have hh := (mem_of_mem_distinctBy hh).resolve_left List.not_mem_nil
  have hsame : g.members ⊆ h.members ∧ h.members ⊆ g.members := by
    rcases nested_of_mem (List.mem_filter.mp hg).1 (List.mem_filter.mp hh).1 hm hm' with
      hwithin | hwithin
    · exact ⟨hwithin, subset_of_maximal hg (List.mem_filter.mp hh).1 hwithin⟩
    · exact ⟨subset_of_maximal hh (List.mem_filter.mp hg).1 hwithin, hwithin⟩
  simp [Group.isWithin_iff.mpr hsame.1, Group.isWithin_iff.mpr hsame.2] at hother

/-- **Every candidate lies within a group of the program.** -/
theorem exists_group {g : Group} (hg : g ∈ (ofTree b t).candidateGroups b t) :
    ∃ h ∈ (ofTree b t).groups b t, g.members ⊆ h.members := by
  obtain ⟨h, hh, hwithin⟩ := exists_maximal hg
  obtain ⟨k, hk, hsame⟩ := @exists_mem_distinctBy Group (fun g h => g.isWithin h && h.isWithin g)
    (fun g => by simp [Group.isWithin_iff.mpr (List.Subset.refl g.members)]) [] _ _ hh
  have hkept := Group.isWithin_iff.mp (Bool.and_eq_true_iff.mp hsame).1
  refine ⟨k, ?_, List.Subset.trans hwithin hkept⟩
  unfold groups
  dsimp only
  rw [mem_sortBy]
  exact hk

end

/-- **The groups of a program.**  Every group has at least two members, which hold different
variables and do not change; groups share no members; whatever one loop fills, and whatever views
one collection has, is in one group; and a group of views has, next to its anchor if that is
joined, those collections whose origins lead to the anchor and whose marked elements have its
indices. -/
theorem groups_partition (b : BindingTable) (t : Tree) :
    let a := ofTree b t
    (∀ g ∈ a.groups b t, 2 ≤ g.members.length ∧ g.members.Nodup ∧
      (g.members.map fun m => (a.collection m).binding).Nodup ∧
      ∀ m ∈ g.members, m ∈ a.ids ∧ (a.collection m).mutated = false) ∧
    (a.groups b t).Pairwise (fun g h => g.members.Disjoint h.members) ∧
    (∀ g ∈ a.coBuiltGroups ++ a.viewGroups b t, ∃ h ∈ a.groups b t, g.members ⊆ h.members) ∧
    ∀ g ∈ a.groups b t, g.pattern = .derivedViews →
      (g.anchorJoined = true ↔ g.anchor ∈ g.members) ∧
      ∀ m, m ∈ g.derived ↔
        m ∈ a.ids ∧ m ≠ g.anchor ∧ a.Leads m g.anchor ∧ a.Aligned m g.anchor := by
  intro a
  refine ⟨fun g hg => ?_, pairwise_groups b t, fun g hg => exists_group hg, fun g hg hpattern => ?_⟩
  all_goals have hcandidate := candidate_of_mem_groups hg
  · obtain ⟨hsize, hnodup⟩ := size_of_candidate hcandidate
    refine ⟨hsize, hnodup, ?_, fun m hm => kept_of_mem hcandidate hm⟩
    exact hnodup.map_on fun i hi j hj =>
      eq_of_binding_eq (kept_of_mem hcandidate hi).1 (kept_of_mem hcandidate hj).1
  · have hview : g ∈ (ofTree b t).viewGroups b t := by
      rcases List.mem_append.mp hcandidate with hbuilt | hview
      · rw [(mem_of_coBuilt hbuilt).1] at hpattern
        cases hpattern
      · exact hview
    obtain ⟨-, -, -, hmembers⟩ := mem_of_view hview
    refine ⟨?_, fun m => ?_⟩
    · rw [hmembers]
      constructor
      · exact fun hjoined => .inr ⟨hjoined, rfl⟩
      · rintro (⟨-, hself⟩ | ⟨hjoined, -⟩)
        · exact absurd rfl (viewedAnchor_ne hself)
        · exact hjoined
    · rw [Group.derived, List.mem_filter, hmembers, bne_iff_ne, viewedAnchor_iff]
      constructor
      · rintro ⟨⟨hids, -, hleads, haligned⟩ | ⟨-, hanchor⟩, hne⟩
        · exact ⟨hids, hne, hleads, haligned⟩
        · exact absurd hanchor hne
      · rintro ⟨hids, hne, hleads, haligned⟩
        exact ⟨.inl ⟨hids, hne, hleads, haligned⟩, hne⟩

end Arena

/-! ### A program -/

namespace Sample

/-- One loop fills two of the three views of a collection. -/
def nestedViews : Bytes := Utf8.encode (
  "const src = get();\nconst a = [];\nconst b = [];\nconst c = src.map(s => s.x);\n" ++
  "for (const s of src) \x7b a.push(s); b.push(s); \x7d\n")

/-- The tree of `nestedViews`. -/
def nestedViewsTree : Concrete :=
  construct "program" 0 123 [
    sourceDeclaration, emptyDeclaration 19, emptyDeclaration 33, viewDeclaration 47,
    construct "for_in_statement" 76 122 [
      token "for" 76, token "(" 80, token "const" 81 (some "kind"), nameTree 87 (some "left"),
      token "of" 89 (some "operator"), construct "identifier" 92 95 [] (some "right"),
      token ")" 95,
      construct "statement_block" 97 122 [
        token "\x7b" 97, pushTree 99 (nameTree 106), pushTree 110 (nameTree 117), token "\x7d" 121]
        (some "body")]]

end Sample

/-- The group of the loop lies within the group of the views, which alone is kept. -/
theorem Arena.groups_of_nested_views :
    let t := Tree.ofConcrete .javascript Sample.nestedViews Sample.nestedViewsTree
    let b := BindingTable.ofTree t
    let a := ofTree b t
    let part : Group := ⟨[1, 2], 0, .coBuilt, some 28, false⟩
    let g : Group := ⟨[1, 2, 3], 0, .derivedViews, none, false⟩
    (part ∈ a.coBuiltGroups ∧ a.groups b t = [g] ∧ ∃ h ∈ a.groups b t, part.members ⊆ h.members) ∧
      (∀ m ∈ g.members, m ∈ a.ids ∧ (a.collection m).mutated = false) ∧
      ∀ m, m ∈ g.derived ↔ m ∈ a.ids ∧ m ≠ 0 ∧ a.Leads m 0 ∧ a.Aligned m 0 := by
  intro t b a part g
  have hfacts : a.coBuiltGroups = [part] ∧ a.groups b t = [g] := by
    decide +kernel
  obtain ⟨hbuilt, hgroups⟩ := hfacts
  have hpart : part ∈ a.coBuiltGroups := by
    rw [hbuilt]
    exact .head _
  have hg : g ∈ a.groups b t := by
    rw [hgroups]
    exact .head _
  obtain ⟨hmembers, -, hcovered, hviews⟩ := groups_partition b t
  obtain ⟨-, -, -, hkept⟩ := hmembers g hg
  exact ⟨⟨hpart, hgroups, hcovered part (List.mem_append_left _ hpart)⟩, hkept, (hviews g hg rfl).2⟩

end Declutter
