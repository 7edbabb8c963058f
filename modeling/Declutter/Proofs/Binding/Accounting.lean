import Declutter.Binding.Reference
import Declutter.Proofs.Syntax.Numbering

/-!
# The accounts of a binding table

Every node that belongs to a binding is the name node of the binding or one of its usages, and every
usage belongs to its binding.  A table starts with the declared names and grows by one node at a
time; each step keeps the accounts in order.

## Main definitions

* `Binding.Declared` — what is known of a binding when it is declared.
* `BindingTable.Accounted` — the accounts of a table.
* `BindingTable.Settled` — whether no declared name is a usage.

## Main results

* `BindingTable.visit_cases` — what the visit of a node does.
* `BindingTable.accounted_ofTree` — the accounts of the table of a program are in order.
* `BindingTable.settled_ofTree` — no declared name of a program is a usage.
-/

namespace Declutter

/-- What is known of a binding when it is declared: it has no usages yet, and what declares it
stands where it should. -/
structure Binding.Declared (t : Tree) (b : Binding) : Prop where
  usages : b.usages = []
  declarator : ∀ d, b.declarator = some d → ∃ s, d ∈ t.children s ∧
    (b.declaration = some s ∨ b.declaration = t.parent? s) ∧
    ∀ v, b.initializer = some v → t.child? d "value" = some v

namespace Tree

variable {t : Tree}

/-- An identifier is a node of the tree. -/
theorem lt_size_of_isReferenceNode {n : NodeId} (h : t.isReferenceNode n = true) :
    n < t.nodes.size := by
  by_contra hge
  rw [isReferenceNode, kind, type, node_of_size_le (Nat.le_of_not_lt hge)] at h
  revert h
  decide

/-- What is looked up is an identifier. -/
theorem isReferenceNode_of_isLookedUp {n : NodeId} (h : t.isLookedUp n = true) :
    t.isReferenceNode n = true := by
  rw [isLookedUp, Bool.and_eq_true] at h
  exact h.1

theorem declared_bindingAt (kind : BindingKind) (n : NodeId) :
    (t.bindingAt kind n).Declared t := ⟨rfl, fun _ hd => nomatch hd⟩

theorem declared_of_mem_declaredName {kind : BindingKind} {i : NodeId} {new : Binding}
    (h : new ∈ t.declaredName kind i) : new.Declared t := by
  unfold declaredName at h
  split at h
  · split at h
    · rw [List.mem_singleton.mp h]
      exact declared_bindingAt _ _
    · cases h
  · cases h

theorem declared_of_mem_declaredVariables {i : NodeId} {new : Binding}
    (h : new ∈ t.declaredVariables i) : new.Declared t := by
  unfold declaredVariables at h
  obtain ⟨d, hd, h⟩ := List.mem_flatMap.mp h
  have hd := (List.mem_filter.mp hd).1
  split at h
  · cases h
  · obtain ⟨n, -, rfl⟩ := List.mem_map.mp h
    refine ⟨rfl, fun d' hd' => ⟨i, Option.some.inj hd' ▸ hd, ?_, fun v hv => ?_⟩⟩
    · dsimp only
      split
      · exact .inr rfl
      · exact .inl rfl
    · dsimp only at hv
      split at hv
      · exact Option.some.inj hd' ▸ hv
      · cases hv

/-- What a construct declares is known when it is declared. -/
theorem declared_of_mem {new : Binding} (h : new ∈ t.declared) : new.Declared t := by
  obtain ⟨i, -, h⟩ := List.mem_flatMap.mp h
  unfold declaredAt at h
  split at h
  · exact declared_of_mem_declaredVariables h
  · rcases List.mem_append.mp h with h | h
    · exact declared_of_mem_declaredName h
    · obtain ⟨n, -, rfl⟩ := List.mem_map.mp h
      exact declared_bindingAt _ _
  · exact declared_of_mem_declaredName h
  · obtain ⟨n, -, rfl⟩ := List.mem_map.mp h
    exact declared_bindingAt _ _
  · obtain ⟨n, -, rfl⟩ := List.mem_map.mp h
    exact ⟨rfl, fun _ hd => nomatch hd⟩
  · cases h

end Tree

namespace BindingTable

/-- The accounts of a table. -/
structure Accounted (b : BindingTable) (t : Tree) : Prop where
  size_eq : b.owner.size = t.nodes.size
  lt_size : ∀ {n i}, b.of? n = some i → i < b.bindings.size
  owned : ∀ {n i}, b.of? n = some i →
    n = (b.binding i).nameNode ∨ ∃ u ∈ (b.binding i).usages, u.node = n
  usage : ∀ {i}, ∀ u ∈ (b.binding i).usages,
    u = t.usageAt u.node ∧ u.node < t.nodes.size ∧ t.isReferenceNode u.node = true
  of_usage : ∀ {i}, ∀ u ∈ (b.binding i).usages, b.of? u.node = some i
  declarator : ∀ {i d}, (b.binding i).declarator = some d → ∃ s, d ∈ t.children s ∧
    ((b.binding i).declaration = some s ∨ (b.binding i).declaration = t.parent? s) ∧
    ∀ v, (b.binding i).initializer = some v → t.child? d "value" = some v

variable {b : BindingTable} {t : Tree} {new : Binding} {i j : BindingId} {n : NodeId}

/-- What belongs to a binding and declares nothing is a usage of it. -/
theorem Accounted.exists_usage (h : b.Accounted t) (hof : b.of? n = some i)
    (hfree : ∀ j < b.bindings.size, (b.binding j).nameNode ≠ n) :
    ∃ u ∈ (b.binding i).usages, u.node = n := by
  rcases h.owned hof with hname | husage
  · exact absurd hname.symm (hfree i (h.lt_size hof))
  · exact husage

/-! ### One more binding -/

theorem binding_declare : (b.declare new).binding j =
    if j = b.bindings.size then new else b.binding j := by
  rw [binding, binding, declare, Array.getD_eq_getD_getElem?, Array.getD_eq_getD_getElem?,
    Array.getElem?_push]
  split <;> rfl

/-- A table without usages has none when a name is declared. -/
theorem usages_declare (hnew : new.Declared t) (h : ∀ i, (b.binding i).usages = [])
    (i : BindingId) : ((b.declare new).binding i).usages = [] := by
  rw [binding_declare]
  split
  · exact hnew.usages
  · exact h i

/-- The owner of a node after the owner of one node was set. -/
theorem getD_setIfInBounds {owner : Array (Option BindingId)} {m : NodeId} :
    (owner.setIfInBounds m (some i)).getD n none =
      if n = m ∧ m < owner.size then some i else owner.getD n none := by
  rw [Array.getD_eq_getD_getElem?, Array.getD_eq_getD_getElem?, Array.getElem?_setIfInBounds]
  by_cases hnm : m = n
  · subst hnm
    by_cases hm : m < owner.size
    · simp [hm]
    · simp [hm]
  · simp [hnm, Ne.symm hnm]

theorem of?_declare : (b.declare new).of? n =
    if n = new.nameNode ∧ new.nameNode < b.owner.size then some b.bindings.size else b.of? n :=
  getD_setIfInBounds

/-- **A table with one more binding** has its accounts in order, if its name node is no usage. -/
theorem Accounted.declare (h : b.Accounted t) (hnew : new.Declared t)
    (hfree : ∀ i, ∀ u ∈ (b.binding i).usages, u.node ≠ new.nameNode) :
    (b.declare new).Accounted t where
  size_eq := by
    rw [BindingTable.declare, Array.size_setIfInBounds]
    exact h.size_eq
  lt_size {n i} hi := by
    have hsize : (b.declare new).bindings.size = b.bindings.size + 1 := Array.size_push _
    rw [of?_declare] at hi
    split at hi
    · rw [← Option.some.inj hi, hsize]
      exact Nat.lt_succ_self _
    · rw [hsize]
      exact Nat.lt_succ_of_lt (h.lt_size hi)
  owned {n i} hi := by
    rw [of?_declare] at hi
    split at hi
    · rename_i hn
      rw [← Option.some.inj hi, binding_declare, if_pos rfl]
      exact .inl hn.1
    · rw [binding_declare, if_neg (Nat.ne_of_lt (h.lt_size hi))]
      exact h.owned hi
  usage {i} u hu := by
    rw [binding_declare] at hu
    split at hu
    · rw [hnew.usages] at hu
      cases hu
    · exact h.usage u hu
  of_usage {i} u hu := by
    rw [binding_declare] at hu
    split at hu
    · rw [hnew.usages] at hu
      cases hu
    · rw [of?_declare, if_neg fun hn => hfree i u hu hn.1]
      exact h.of_usage u hu
  declarator {i d} hd := by
    rw [binding_declare] at hd ⊢
    split at hd
    · rw [if_pos ‹_›]
      exact hnew.declarator d hd
    · rw [if_neg ‹_›]
      exact h.declarator hd

/-! ### One more usage -/

theorem binding_refer {u : Usage} (hi : i < b.bindings.size) : (b.refer i u).binding j =
    if j = i then { b.binding i with usages := (b.binding i).usages ++ [u] } else b.binding j := by
  rw [binding, binding, binding, refer, Array.getD_eq_getD_getElem?, Array.getD_eq_getD_getElem?,
    Array.getD_eq_getD_getElem?, Array.getElem?_modify]
  by_cases hij : i = j
  · subst hij
    simp [Array.getElem?_eq_getElem hi]
  · simp [hij, Ne.symm hij]

theorem of?_refer {u : Usage} : (b.refer i u).of? n =
    if n = u.node ∧ u.node < b.owner.size then some i else b.of? n :=
  getD_setIfInBounds

/-- **A table with one more usage** has its accounts in order, if the usage belongs to no binding
yet. -/
theorem Accounted.refer (h : b.Accounted t) (hi : i < b.bindings.size) {m : NodeId}
    (hm : m < t.nodes.size) (href : t.isReferenceNode m = true) (hfree : b.of? m = none) :
    (b.refer i (t.usageAt m)).Accounted t where
  size_eq := by
    rw [BindingTable.refer, Array.size_setIfInBounds]
    exact h.size_eq
  lt_size {n j} hj := by
    have hsize : (b.refer i (t.usageAt m)).bindings.size = b.bindings.size := Array.size_modify
    rw [of?_refer] at hj
    rw [hsize]
    split at hj
    · exact Option.some.inj hj ▸ hi
    · exact h.lt_size hj
  owned {n j} hj := by
    rw [of?_refer] at hj
    rw [binding_refer hi]
    split at hj
    · rename_i hn
      obtain rfl := Option.some.inj hj
      rw [if_pos rfl]
      exact .inr ⟨_, List.mem_append_right _ (.head _), hn.1.symm⟩
    · split
      · rename_i hji
        subst hji
        exact (h.owned hj).imp_right fun ⟨u, hu, hun⟩ => ⟨u, List.mem_append_left _ hu, hun⟩
      · exact h.owned hj
  usage {j} u hu := by
    rw [binding_refer hi] at hu
    split at hu
    · rcases List.mem_append.mp hu with hu | hu
      · exact h.usage u hu
      · rw [List.mem_singleton.mp hu]
        exact ⟨rfl, hm, href⟩
    · exact h.usage u hu
  of_usage {j} u hu := by
    -- The node was free, so it is none of the usages that were there before.
    have hold : ∀ k, ∀ v ∈ (b.binding k).usages, v.node ≠ m := fun k v hv heq => by
      rw [← heq, h.of_usage v hv] at hfree
      cases hfree
    rw [binding_refer hi] at hu
    rw [of?_refer]
    split at hu
    · rename_i hji
      subst hji
      rcases List.mem_append.mp hu with hu | hu
      · rw [if_neg fun hn => hold j u hu hn.1]
        exact h.of_usage u hu
      · rw [List.mem_singleton.mp hu, if_pos ⟨rfl, h.size_eq ▸ hm⟩]
    · rw [if_neg fun hn => hold j u hu hn.1]
      exact h.of_usage u hu
  declarator {j d} hd := by
    rw [binding_refer hi] at hd ⊢
    split at hd
    · rename_i hji
      rw [if_pos hji]
      exact h.declarator hd
    · rw [if_neg ‹_›]
      exact h.declarator hd

/-! ### The table of a program -/

/-- What holds of the empty table, and stays true with each declared name, holds of the table of
the declared names; it may speak of the names that were declared so far. -/
theorem ofDeclared_induction {P : List Binding → BindingTable → Prop} (t : Tree)
    (hempty : P [] ⟨#[], Array.replicate t.nodes.size none⟩)
    (hdeclare : ∀ earlier b, ∀ new ∈ t.declared, P earlier b →
      P (earlier ++ [new]) (b.declare new)) : P t.declared (ofDeclared t) := by
  have hfold : ∀ (later earlier : List Binding) (b : BindingTable), later ⊆ t.declared →
      P earlier b → P (earlier ++ later) (later.foldl BindingTable.declare b) := by
    intro later
    induction later with
    | nil =>
      intro earlier b _ h
      rwa [List.append_nil]
    | cons new later ih =>
      intro earlier b hsub h
      rw [List.cons_subset] at hsub
      have hnext := ih (earlier ++ [new]) _ hsub.2 (hdeclare earlier b new hsub.1 h)
      rwa [List.append_assoc] at hnext
  exact hfold t.declared [] _ (List.Subset.refl _) hempty

/-- What holds of the declared names, and stays true with each node, holds of the table of a
program. -/
theorem ofTree_induction {P : BindingTable → Prop} (t : Tree) (hdeclared : P (ofDeclared t))
    (hvisit : ∀ b, ∀ m < t.nodes.size, P b → P (b.visit t t.allLoopHeadNames m)) :
    P (ofTree t) := by
  have hfold : ∀ (ms : List NodeId) (b : BindingTable), (∀ m ∈ ms, m < t.nodes.size) →
      P b → P (ms.foldl (BindingTable.visit t t.allLoopHeadNames) b) := by
    intro ms
    induction ms with
    | nil => exact fun b _ h => h
    | cons m ms ih =>
      intro b hms h
      exact ih _ (fun k hk => hms k (.tail _ hk)) (hvisit b m (hms m (.head _)) h)
  exact hfold _ _ (fun m hm => List.mem_range.mp hm) hdeclared

theorem accounted_empty (t : Tree) :
    Accounted ⟨#[], Array.replicate t.nodes.size none⟩ t := by
  have hbinding : ∀ i, binding ⟨#[], Array.replicate t.nodes.size none⟩ i = default := fun i => rfl
  have hof : ∀ n, of? ⟨#[], Array.replicate t.nodes.size none⟩ n = none := fun n => by
    rw [of?, Array.getD_eq_getD_getElem?, Array.getElem?_replicate]
    split <;> rfl
  refine ⟨Array.size_replicate, fun h => ?_, fun h => ?_, fun u hu => ?_, fun u hu => ?_,
    fun h => ?_⟩
  · rw [hof] at h
    cases h
  · rw [hof] at h
    cases h
  · cases hu
  · cases hu
  · cases h

/-- The declared names alone: nothing is used yet. -/
theorem accounted_ofDeclared (t : Tree) : (ofDeclared t).Accounted t := by
  have h : (ofDeclared t).Accounted t ∧ ∀ i, ((ofDeclared t).binding i).usages = [] := by
    refine ofDeclared_induction (P := fun _ b => b.Accounted t ∧ ∀ i, (b.binding i).usages = []) t
      ⟨accounted_empty t, fun _ => rfl⟩ fun _ b new hnew ⟨h, hunused⟩ => ?_
    have hdeclared := Tree.declared_of_mem hnew
    refine ⟨h.declare hdeclared fun i u hu => ?_, usages_declare hdeclared hunused⟩
    rw [hunused i] at hu
    cases hu
  exact h.1

theorem lt_size_of_resolve {name : String} {s : ScopeId} (h : b.resolve? t name s = some i) :
    i < b.bindings.size := by
  obtain ⟨s', -, hs'⟩ := List.exists_of_findSome?_eq_some h
  have hmem := List.mem_reverse.mp (List.mem_of_find?_eq_some hs')
  exact List.mem_range.mp hmem

/-- **What a visit does.**  It leaves the table as it is; or the node belonged to no binding and is
looked up, and it declares a name in the head of a loop or becomes a usage of what it names. -/
theorem visit_cases (b : BindingTable) (t : Tree) (heads : List (NodeId × String)) (m : NodeId) :
    b.visit t heads m = b ∨
      b.of? m = none ∧ t.isLookedUp m = true ∧
        ((∃ keyword, heads.reverse.lookup m = some keyword ∧
            b.visit t heads m = b.declare (t.keywordBinding (.ofKeyword keyword) m)) ∨
          heads.reverse.lookup m = none ∧ ∃ i < b.bindings.size,
            b.resolve? t (t.text m) (t.scopeOf m) = some i ∧
              b.visit t heads m = b.refer i (t.usageAt m)) := by
  unfold BindingTable.visit
  split
  · exact .inl rfl
  rename_i hfree
  simp only [Bool.or_eq_true, Bool.not_eq_true', not_or, Bool.not_eq_true,
    Option.isSome_eq_false_iff, Option.isNone_iff_eq_none, Bool.not_eq_false] at hfree
  split
  · exact .inr ⟨hfree.1, hfree.2, .inl ⟨_, ‹_›, rfl⟩⟩
  split
  · rename_i i hi
    exact .inr ⟨hfree.1, hfree.2, .inr ⟨‹_›, i, lt_size_of_resolve hi, hi, rfl⟩⟩
  · exact .inl rfl

/-- **One more node** leaves the accounts in order. -/
theorem Accounted.visit (h : b.Accounted t) (heads : List (NodeId × String)) {m : NodeId}
    (hm : m < t.nodes.size) : (b.visit t heads m).Accounted t := by
  obtain heq | ⟨hfree, hlooked, ⟨_, -, heq⟩ | ⟨-, i, hi, -, heq⟩⟩ := b.visit_cases t heads m
  · rw [heq]
    exact h
  · -- A name in the head of a loop; if it were a usage it would have an owner.
    rw [heq]
    refine h.declare ⟨rfl, fun _ hd => nomatch hd⟩ fun i u hu hname => ?_
    have howner := h.of_usage u hu
    rw [hname] at howner
    exact absurd (howner.symm.trans hfree) (by simp)
  · rw [heq]
    exact h.refer hi hm (Tree.isReferenceNode_of_isLookedUp hlooked) hfree

/-- **The accounts of the table of a program** are in order. -/
theorem accounted_ofTree (t : Tree) : (ofTree t).Accounted t := by
  refine ofTree_induction (P := (·.Accounted t)) t (accounted_ofDeclared t) fun b m hm h => ?_
  exact h.visit t.allLoopHeadNames hm

/-! ### Declared names are no usages -/

/-- Whether the declared names of a program have owners, and no usage is one of them. -/
structure Settled (b : BindingTable) (t : Tree) : Prop where
  isSome : ∀ new ∈ t.declared, new.nameNode < t.nodes.size → (b.of? new.nameNode).isSome
  not_usage : ∀ {i}, ∀ u ∈ (b.binding i).usages, ∀ new ∈ t.declared, u.node ≠ new.nameNode

theorem settled_ofDeclared (t : Tree) : (ofDeclared t).Settled t := by
  have h : (ofDeclared t).owner.size = t.nodes.size ∧
      (∀ i, ((ofDeclared t).binding i).usages = []) ∧
      ∀ new ∈ t.declared, new.nameNode < t.nodes.size →
        ((ofDeclared t).of? new.nameNode).isSome := by
    refine ofDeclared_induction (P := fun earlier b => b.owner.size = t.nodes.size ∧
        (∀ i, (b.binding i).usages = []) ∧
        ∀ new ∈ earlier, new.nameNode < t.nodes.size → (b.of? new.nameNode).isSome) t
      ⟨Array.size_replicate, fun _ => rfl, fun _ h => nomatch h⟩
      fun earlier b new hnew ⟨hsize, hunused, howned⟩ => ?_
    refine ⟨(Array.size_setIfInBounds ..).trans hsize,
      usages_declare (Tree.declared_of_mem hnew) hunused, fun other hother hlt => ?_⟩
    rw [of?_declare]
    rcases List.mem_append.mp hother with hother | hother
    · -- An owner may change, when a name is declared twice, but is never lost.
      split
      · rfl
      · exact howned other hother hlt
    · rw [List.mem_singleton.mp hother] at hlt ⊢
      rw [if_pos ⟨rfl, hsize ▸ hlt⟩]
      rfl
  refine ⟨h.2.2, fun {i} u hu => ?_⟩
  rw [h.2.1 i] at hu
  cases hu

theorem Settled.visit (h : b.Settled t) (heads : List (NodeId × String)) {m : NodeId}
    (hm : m < t.nodes.size) : (b.visit t heads m).Settled t := by
  obtain heq | ⟨hfree, -, ⟨_, -, heq⟩ | ⟨-, i, hi, -, heq⟩⟩ := b.visit_cases t heads m
  · rw [heq]
    exact h
  · rw [heq]
    refine ⟨fun new hnew hn => ?_, fun {i} u hu => ?_⟩
    · rw [of?_declare]
      split
      · rfl
      · exact h.isSome new hnew hn
    · rw [binding_declare] at hu
      split at hu
      · cases hu
      · exact h.not_usage u hu
  · rw [heq]
    refine ⟨fun new hnew hn => ?_, fun {i} u hu new hnew => ?_⟩
    · rw [of?_refer]
      split
      · rfl
      · exact h.isSome new hnew hn
    · rw [binding_refer hi] at hu
      split at hu
      · rcases List.mem_append.mp hu with hu | hu
        · exact h.not_usage u hu new hnew
        · -- A node that is looked up has no owner yet, and a declared name has one.
          rw [List.mem_singleton.mp hu]
          rintro hname
          have hm' : m = new.nameNode := hname
          have howner := h.isSome new hnew (hm' ▸ hm)
          rw [← hm', hfree] at howner
          cases howner
      · exact h.not_usage u hu new hnew

/-- **No declared name is a usage.** -/
theorem settled_ofTree (t : Tree) : (ofTree t).Settled t := by
  refine ofTree_induction (P := (·.Settled t)) t (settled_ofDeclared t) fun b m hm h => ?_
  exact h.visit t.allLoopHeadNames hm

end BindingTable

end Declutter
