import Declutter.Proofs.Binding.Resolution
import Declutter.Proofs.Syntax.Scoping

/-!
# Where names are declared, and what references mean

A name is declared within the construct that opens its scope: the scope is the one around the name,
the one of the function around it, or that of the program.  A reference means what its name meant
when its turn came, so the declaration that it means lies in a scope around the reference.

## Main definitions

* `Binding.Placed` — whether a binding is declared within the construct of its scope.
* `Binding.Spelled` — whether a binding has the name of the identifier that declares it.
* `BindingTable.Named` — where the bindings of a table are declared, and who owns their names.

## Main results

* `BindingTable.named_ofTree` — every binding of a program is declared within its scope.
* `BindingTable.spelled_ofTree` — every binding of a program has the name of an identifier.
* `BindingTable.of?_eq_resolve` — what a reference means.
-/

namespace Declutter

/-- Whether a binding is declared within the construct that opens its scope. -/
structure Binding.Placed (t : Tree) (b : Binding) : Prop where
  lt_size : b.nameNode < t.nodes.size
  within : t.isWithin b.nameNode (t.scope b.scope).node = true

/-- Whether a binding has the name that the identifier spells which declares it. -/
structure Binding.Spelled (t : Tree) (b : Binding) : Prop where
  name_eq : b.name = t.text b.nameNode
  isReferenceNode : t.isReferenceNode b.nameNode = true

namespace Tree

variable {t : Tree} (h : t.Nested) (hn : t.InPreorder) {new : Binding} {i n : NodeId}

/-! ### How names are spelled -/

theorem isReferenceNode_of_kind (hkind : (t.kind n == .identifier) = true) :
    t.isReferenceNode n = true := by
  simp [isReferenceNode, hkind]

theorem isReferenceNode_of_isNameLeaf (hleaf : t.isNameLeaf n = true) :
    t.isReferenceNode n = true := by
  unfold isNameLeaf at hleaf
  rw [Bool.or_eq_true] at hleaf
  rcases hleaf with hkind | htype
  · exact isReferenceNode_of_kind hkind
  · simp [isReferenceNode, htype]

theorem spelled_of_mem_patternNames {kind : BindingKind} (hmem : n ∈ t.patternNames i) :
    (t.bindingAt kind n).Spelled t := by
  obtain ⟨-, hleaf⟩ := List.mem_filter.mp hmem
  rw [Bool.and_eq_true] at hleaf
  exact ⟨rfl, isReferenceNode_of_isNameLeaf hleaf.1⟩

theorem spelled_of_mem_patterns {kind : BindingKind} {patterns : List NodeId}
    (hnew : new ∈ (patterns.flatMap t.patternNames).map (t.bindingAt kind)) : new.Spelled t := by
  obtain ⟨n, hpatterns, rfl⟩ := List.mem_map.mp hnew
  obtain ⟨pattern, -, hpattern⟩ := List.mem_flatMap.mp hpatterns
  exact spelled_of_mem_patternNames hpattern

theorem spelled_of_mem_declaredName {kind : BindingKind} (hnew : new ∈ t.declaredName kind i) :
    new.Spelled t := by
  unfold declaredName at hnew
  split at hnew
  · split at hnew
    · rename_i name _ hkind
      rw [List.mem_singleton.mp hnew]
      exact ⟨rfl, isReferenceNode_of_kind hkind⟩
    · cases hnew
  · cases hnew

/-- **What a construct declares** has the name of an identifier. -/
theorem spelled_of_mem_declared (hnew : new ∈ t.declared) : new.Spelled t := by
  obtain ⟨i, -, hnew⟩ := List.mem_flatMap.mp hnew
  unfold declaredAt at hnew
  split at hnew
  · obtain ⟨declarator, -, hnew⟩ := List.mem_flatMap.mp hnew
    split at hnew
    · cases hnew
    · obtain ⟨n, hpattern, rfl⟩ := List.mem_map.mp hnew
      have hspelled : (t.bindingAt .var n).Spelled t := spelled_of_mem_patternNames hpattern
      exact ⟨hspelled.name_eq, hspelled.isReferenceNode⟩
  · rcases List.mem_append.mp hnew with hnew | hnew
    · exact spelled_of_mem_declaredName hnew
    · exact spelled_of_mem_patterns hnew
  · exact spelled_of_mem_declaredName hnew
  · exact spelled_of_mem_patterns hnew
  · obtain ⟨n, hmem, rfl⟩ := List.mem_map.mp hnew
    obtain ⟨-, hname⟩ := List.mem_filter.mp hmem
    rw [isImportedName, Bool.and_eq_true] at hname
    exact ⟨rfl, isReferenceNode_of_kind hname.1⟩
  · cases hnew

/-! ### Where names stand -/

section
include hn

theorem InPreorder.lt_size_of_mem_subtree (hmem : n ∈ t.subtree i) : n < t.nodes.size := by
  by_cases hi : i < t.nodes.size
  · exact Nat.lt_of_lt_of_le ((hn.mem_subtree_iff hi).mp hmem).2 (hn.stop_le i hi)
  · rw [subtree, node_of_size_le (Nat.le_of_not_lt hi), show (default : Node).stop = 0 from rfl,
      Nat.zero_sub] at hmem
    cases hmem

theorem InPreorder.lt_size_of_mem_patternNames (hmem : n ∈ t.patternNames i) :
    n < t.nodes.size :=
  hn.lt_size_of_mem_subtree (List.mem_filter.mp hmem).1

end

include h hn

theorem placed_bindingAt (kind : BindingKind) (hi : i < t.nodes.size) :
    (t.bindingAt kind i).Placed t := ⟨hi, h.isWithin_scope hn hi⟩

theorem placed_keywordBinding (kind : BindingKind) (hi : i < t.nodes.size) :
    (t.keywordBinding kind i).Placed t := by
  refine ⟨hi, ?_⟩
  change t.isWithin i (t.scope (t.declarationScope kind i)).node = true
  unfold declarationScope
  split
  · exact h.isWithin_functionScope hn hi
  · exact h.isWithin_scope hn hi

theorem placed_of_mem_declaredName {kind : BindingKind} (hnew : new ∈ t.declaredName kind i) :
    new.Placed t := by
  unfold declaredName at hnew
  split at hnew
  · rename_i name hname
    split at hnew
    · rw [List.mem_singleton.mp hnew]
      exact placed_bindingAt h hn _ (hn.lt_size_of_mem (mem_of_child? hname).1)
    · cases hnew
  · cases hnew

theorem placed_of_mem_declaredVariables (hnew : new ∈ t.declaredVariables i) : new.Placed t := by
  unfold declaredVariables at hnew
  obtain ⟨declarator, -, hnew⟩ := List.mem_flatMap.mp hnew
  split at hnew
  · cases hnew
  · obtain ⟨n, hpattern, rfl⟩ := List.mem_map.mp hnew
    have hplaced := placed_keywordBinding h hn (.ofKeyword ((t.keyword i).getD "var"))
      (hn.lt_size_of_mem_patternNames hpattern)
    exact ⟨hplaced.lt_size, hplaced.within⟩

/-- The names of patterns are declared where they stand. -/
theorem placed_of_mem_patterns {kind : BindingKind} {patterns : List NodeId}
    (hnew : new ∈ (patterns.flatMap t.patternNames).map (t.bindingAt kind)) : new.Placed t := by
  obtain ⟨n, hpatterns, rfl⟩ := List.mem_map.mp hnew
  obtain ⟨pattern, -, hpattern⟩ := List.mem_flatMap.mp hpatterns
  exact placed_bindingAt h hn kind (hn.lt_size_of_mem_patternNames hpattern)

omit h in
/-- The names of an import belong to the program, within which everything stands. -/
theorem placed_of_mem_declaredImports (hprogram : (t.scope 0).node = 0)
    (hnew : new ∈ t.declaredImports i) : new.Placed t := by
  unfold declaredImports at hnew
  obtain ⟨n, hmem, rfl⟩ := List.mem_map.mp hnew
  have hlt := hn.lt_size_of_mem_subtree (List.mem_filter.mp hmem).1
  refine ⟨hlt, ?_⟩
  change t.isWithin n (t.scope 0).node = true
  rw [hprogram, hn.isWithin_iff hlt, hn.stop_root]
  exact ⟨Nat.zero_le n, hlt⟩

/-- **What a construct declares** is declared within its scope. -/
theorem placed_of_mem_declared (hnew : new ∈ t.declared) : new.Placed t := by
  obtain ⟨i, -, hnew⟩ := List.mem_flatMap.mp hnew
  unfold declaredAt at hnew
  split at hnew
  · exact placed_of_mem_declaredVariables h hn hnew
  · rcases List.mem_append.mp hnew with hnew | hnew
    · exact placed_of_mem_declaredName h hn hnew
    · exact placed_of_mem_patterns h hn hnew
  · exact placed_of_mem_declaredName h hn hnew
  · exact placed_of_mem_patterns h hn hnew
  · exact placed_of_mem_declaredImports hn h.program.2.1 hnew
  · cases hnew

end Tree

namespace BindingTable

/-! ### Where names are declared -/

/-- Where the bindings of a table are declared; and the node that declares a name belongs to a
binding that it declares, if not to this one. -/
structure Named (b : BindingTable) (t : Tree) : Prop where
  placed : ∀ j < b.bindings.size, (b.binding j).Placed t
  owned : ∀ j < b.bindings.size, ∃ k < b.bindings.size,
    b.of? (b.binding j).nameNode = some k ∧ (b.binding k).nameNode = (b.binding j).nameNode

variable {b : BindingTable} {t : Tree} {new : Binding} {i j k m n : Nat}

/-- **A table with one more binding** is a table of such bindings, if the new one is such. -/
theorem Named.declare (h : b.Named t) (hsize : b.owner.size = t.nodes.size)
    (hnew : new.Placed t) : (b.declare new).Named t := by
  have hgrown : (b.declare new).bindings.size = b.bindings.size + 1 := Array.size_push _
  have hold {j : Nat} (hj : j < (b.declare new).bindings.size) (hne : ¬ j = b.bindings.size) :
      j < b.bindings.size := by omega
  have hlast : (b.declare new).of? new.nameNode = some b.bindings.size := by
    rw [of?_declare, if_pos ⟨rfl, hsize ▸ hnew.lt_size⟩]
  have hnewest : ((b.declare new).binding b.bindings.size).nameNode = new.nameNode := by
    rw [binding_declare, if_pos rfl]
  have hlt : b.bindings.size < (b.declare new).bindings.size := by omega
  refine ⟨fun j hj => ?_, fun j hj => ?_⟩
  · rw [binding_declare]
    split
    · exact hnew
    · exact h.placed j (hold hj ‹_›)
  · rw [binding_declare]
    split
    · exact ⟨_, hlt, hlast, hnewest⟩
    · obtain ⟨k, hk, hof, hname⟩ := h.owned j (hold hj ‹_›)
      -- The name of an old binding may be declared once more.
      by_cases heq : (b.binding j).nameNode = new.nameNode
      · exact ⟨_, hlt, heq ▸ hlast, heq ▸ hnewest⟩
      · refine ⟨k, Nat.lt_trans hk hlt, ?_, ?_⟩
        · rw [of?_declare, if_neg fun hboth => heq hboth.1, hof]
        · rw [binding_declare, if_neg (Nat.ne_of_lt hk), hname]

/-- A reference changes nothing about declarations, if it belongs to no binding yet. -/
theorem Named.refer (h : b.Named t) (hi : i < b.bindings.size) {u : Usage}
    (hfree : b.of? u.node = none) : (b.refer i u).Named t := by
  have hext : b.Extends (b.refer i u) := extends_refer hi u
  have hsize : (b.refer i u).bindings.size = b.bindings.size := Array.size_modify
  refine ⟨fun j hj => ?_, fun j hj => ?_⟩
  · rw [hsize] at hj
    obtain ⟨-, hscope, hname⟩ := hext.visible hj
    have hold := h.placed j hj
    exact ⟨hname ▸ hold.lt_size, by rw [hname, hscope]; exact hold.within⟩
  · rw [hsize] at hj
    obtain ⟨k, hk, hof, hname⟩ := h.owned j hj
    refine ⟨k, hsize.symm ▸ hk, ?_, ?_⟩
    · rw [(hext.visible hj).2.2, of?_refer, if_neg, hof]
      rintro ⟨heq, -⟩
      rw [heq, hfree] at hof
      cases hof
    · rw [(hext.visible hj).2.2, (hext.visible hk).2.2, hname]

/-- **Every binding of a program** is declared within its scope. -/
theorem named_ofTree (h : t.Nested) (hn : t.InPreorder) : (ofTree t).Named t := by
  have hdeclared : (ofDeclared t).owner.size = t.nodes.size ∧ (ofDeclared t).Named t := by
    refine ofDeclared_induction
      (P := fun _ b => b.owner.size = t.nodes.size ∧ b.Named t) t
      ⟨Array.size_replicate, fun j hj => absurd hj (Nat.not_lt_zero j),
        fun j hj => absurd hj (Nat.not_lt_zero j)⟩
      fun _ b new hnew ⟨hsize, hnamed⟩ => ?_
    refine ⟨(Array.size_setIfInBounds ..).trans hsize, ?_⟩
    exact hnamed.declare hsize (Tree.placed_of_mem_declared h hn hnew)
  have hall : (ofTree t).Accounted t ∧ (ofTree t).Named t := by
    refine ofTree_induction (P := fun b => b.Accounted t ∧ b.Named t) t
      ⟨accounted_ofDeclared t, hdeclared.2⟩ fun b m hm ⟨haccounted, hnamed⟩ => ?_
    refine ⟨haccounted.visit t.allLoopHeadNames hm, ?_⟩
    obtain heq | ⟨hfree, -, ⟨_, -, heq⟩ | ⟨-, i, hi, -, heq⟩⟩ :=
      b.visit_cases t t.allLoopHeadNames m
    · rw [heq]
      exact hnamed
    · rw [heq]
      exact hnamed.declare haccounted.size_eq (Tree.placed_keywordBinding h hn _ hm)
    · rw [heq]
      exact hnamed.refer hi hfree
  exact hall.2

/-- **Every binding of a program** has the name of an identifier. -/
theorem spelled_ofTree (t : Tree) (hj : j < (ofTree t).bindings.size) :
    ((ofTree t).binding j).Spelled t := by
  have hnew {b : BindingTable} {new : Binding}
      (hold : ∀ j < b.bindings.size, (b.binding j).Spelled t) (hspelled : new.Spelled t) :
      ∀ j < (b.declare new).bindings.size, ((b.declare new).binding j).Spelled t := by
    intro j hj
    have hgrown : (b.declare new).bindings.size = b.bindings.size + 1 := Array.size_push _
    rw [hgrown] at hj
    rw [binding_declare]
    split
    · exact hspelled
    · exact hold j (Nat.lt_of_le_of_ne (Nat.lt_succ_iff.mp hj) ‹_›)
  have hdeclared : ∀ j < (ofDeclared t).bindings.size, ((ofDeclared t).binding j).Spelled t :=
    ofDeclared_induction (P := fun _ b => ∀ j < b.bindings.size, (b.binding j).Spelled t) t
      (fun j hj => absurd hj (Nat.not_lt_zero j))
      fun _ b new hmem hold => hnew hold (Tree.spelled_of_mem_declared hmem)
  have hall : ∀ j < (ofTree t).bindings.size, ((ofTree t).binding j).Spelled t := by
    refine ofTree_induction (P := fun b => ∀ j < b.bindings.size, (b.binding j).Spelled t) t
      hdeclared fun b m hm hold => ?_
    obtain heq | ⟨-, hlooked, ⟨_, -, heq⟩ | ⟨-, i, hi, -, heq⟩⟩ :=
      b.visit_cases t t.allLoopHeadNames m
    · rw [heq]
      exact hold
    · rw [heq]
      exact hnew hold ⟨rfl, Tree.isReferenceNode_of_isLookedUp hlooked⟩
    · rw [heq]
      intro j hj
      have hsize : (b.refer i (t.usageAt m)).bindings.size = b.bindings.size := Array.size_modify
      rw [hsize] at hj
      obtain ⟨hname, -, hnode⟩ := (extends_refer hi (t.usageAt m)).visible hj
      obtain ⟨hname', hreference⟩ := hold j hj
      exact ⟨by rw [hname, hnode, hname'], hnode ▸ hreference⟩
  exact hall j hj

/-! ### What a reference means -/

theorem of?_visit_of_ne (b : BindingTable) (t : Tree) (heads : List (NodeId × String))
    (hmn : n ≠ m) : (b.visit t heads m).of? n = b.of? n := by
  obtain heq | ⟨-, -, ⟨_, -, heq⟩ | ⟨-, i, -, -, heq⟩⟩ := b.visit_cases t heads m
  · rw [heq]
  · rw [heq, of?_declare, if_neg fun hboth => hmn hboth.1]
  · rw [heq, of?_refer, if_neg fun hboth => hmn hboth.1]

/-- What a node means is settled at its turn. -/
theorem of?_before_of_lt (h : n < k) : (before t k).of? n = (before t (n + 1)).of? n := by
  induction k, h using Nat.le_induction with
  | base => rfl
  | succ k hk ih => rw [before_succ, of?_visit_of_ne _ _ _ (Nat.ne_of_lt hk), ih]

/-- **A reference means what its name meant** when its turn came. -/
theorem of?_eq_resolve (hn : n < t.nodes.size) (hlooked : t.isLookedUp n = true)
    (hfree : ∀ j < (ofTree t).bindings.size, ((ofTree t).binding j).nameNode ≠ n) :
    (ofTree t).of? n = (before t n).resolve? t (t.text n) (t.scopeOf n) := by
  have hnone := of?_before_eq_none hn hfree
  rw [← before_size, of?_before_of_lt hn, before_succ, visit, hnone, hlooked,
    lookup_allLoopHeadNames hn hlooked hfree]
  rw [if_neg (by simp)]
  dsimp only
  split
  · rename_i target htarget
    have howner := (accounted_before t (Nat.le_of_lt hn)).size_eq
    rw [of?_refer, if_pos ⟨rfl, howner ▸ hn⟩, htarget]
  · rename_i hunknown
    rw [hnone, hunknown]

end BindingTable

end Declutter
