import Declutter.Proofs.Binding.Accounting
import Mathlib.Data.List.Basic

/-!
# Which names are usages

A table grows as the identifiers of a program are visited: usages are added to its bindings, and
heads of loops add bindings of their own.  What a declared name stands for does not change on the
way, so whatever a name means in the end it meant when its turn came, and it was recorded then.

## Main definitions

* `BindingTable.Extends` — whether one table has grown out of another.
* `BindingTable.before` — the table when the turn of a node comes.
* `BindingTable.Recorded` — what is known of the usages that were recorded so far.

## Main results

* `BindingTable.Extends.resolve` — a name of an old binding has always meant it.
* `BindingTable.recorded_ofTree` — a usage has the name of its binding.
* `BindingTable.mem_usages_of_resolve` — an identifier that means a declared name is a usage of it.
-/

namespace Declutter.BindingTable

variable {b b' b'' : BindingTable} {t : Tree} {i j k m n : Nat}

/-! ### Growing -/

/-- Whether one table has grown out of another: the old bindings are as they were, except that they
may have more usages. -/
structure Extends (b b' : BindingTable) : Prop where
  size_le : b.bindings.size ≤ b'.bindings.size
  binding_eq : ∀ j < b.bindings.size, ∃ more,
    b'.binding j = { b.binding j with usages := (b.binding j).usages ++ more }

theorem Extends.refl (b : BindingTable) : b.Extends b :=
  ⟨Nat.le_refl _, fun j _ => ⟨[], by rw [List.append_nil]⟩⟩

theorem Extends.trans (h : b.Extends b') (h' : b'.Extends b'') : b.Extends b'' := by
  refine ⟨Nat.le_trans h.size_le h'.size_le, fun j hj => ?_⟩
  obtain ⟨more, hmore⟩ := h.binding_eq j hj
  obtain ⟨more', hmore'⟩ := h'.binding_eq j (Nat.lt_of_lt_of_le hj h.size_le)
  refine ⟨more ++ more', ?_⟩
  rw [hmore', hmore, List.append_assoc]

theorem extends_declare (b : BindingTable) (new : Binding) : b.Extends (b.declare new) := by
  have hsize : (b.declare new).bindings.size = b.bindings.size + 1 := Array.size_push _
  refine ⟨by omega, fun j hj => ⟨[], ?_⟩⟩
  rw [binding_declare, if_neg (Nat.ne_of_lt hj), List.append_nil]

theorem extends_refer (hi : i < b.bindings.size) (u : Usage) : b.Extends (b.refer i u) := by
  have hsize : (b.refer i u).bindings.size = b.bindings.size := Array.size_modify
  refine ⟨by omega, fun j _ => ?_⟩
  rw [binding_refer hi]
  split
  · rename_i hji
    rw [hji]
    exact ⟨[u], rfl⟩
  · exact ⟨[], by rw [List.append_nil]⟩

/-- A table grows with each node. -/
theorem extends_visit (b : BindingTable) (t : Tree) (heads : List (NodeId × String)) (m : NodeId) :
    b.Extends (b.visit t heads m) := by
  obtain heq | ⟨-, -, ⟨_, -, heq⟩ | ⟨-, i, hi, -, heq⟩⟩ := b.visit_cases t heads m
  · rw [heq]
    exact .refl b
  · rw [heq]
    exact b.extends_declare _
  · rw [heq]
    exact extends_refer hi _

/-- The old bindings have kept what makes them visible. -/
theorem Extends.visible (h : b.Extends b') (hj : j < b.bindings.size) :
    (b'.binding j).name = (b.binding j).name ∧ (b'.binding j).scope = (b.binding j).scope ∧
      (b'.binding j).nameNode = (b.binding j).nameNode := by
  obtain ⟨more, hmore⟩ := h.binding_eq j hj
  rw [hmore]
  exact ⟨rfl, rfl, rfl⟩

/-! ### Looking up a name -/

/-- Of several bindings of a name in one scope, the one declared last is found. -/
theorem inScope?_eq_some_iff {name : String} {s : ScopeId} :
    b.inScope? name s = some i ↔
      i < b.bindings.size ∧ ((b.binding i).scope = s ∧ (b.binding i).name = name) ∧
        ∀ j, i < j → j < b.bindings.size →
          ¬ ((b.binding j).scope = s ∧ (b.binding j).name = name) := by
  unfold inScope? ids
  generalize b.bindings.size = size
  induction size with
  | zero => simp
  | succ size ih =>
    rw [List.range_succ, List.reverse_append, List.reverse_singleton, List.singleton_append,
      List.find?_cons]
    split
    · rename_i hlast
      simp only [Bool.and_eq_true, beq_iff_eq] at hlast
      rw [Option.some.injEq]
      constructor
      · rintro rfl
        exact ⟨Nat.lt_succ_self _, hlast, fun j hj hj' => by omega⟩
      · rintro ⟨hi, -, hnone⟩
        by_contra hne
        have hlt : i < size := Nat.lt_of_le_of_ne (Nat.lt_succ_iff.mp hi) (Ne.symm hne)
        exact hnone size hlt (Nat.lt_succ_self _) hlast
    · rename_i hlast
      simp only [Bool.and_eq_false_iff, beq_eq_false_iff_ne] at hlast
      rw [ih]
      constructor
      · rintro ⟨hi, hvisible, hnone⟩
        refine ⟨Nat.lt_succ_of_lt hi, hvisible, fun j hij hj hboth => ?_⟩
        rcases Nat.lt_succ_iff_lt_or_eq.mp hj with hj | rfl
        · exact hnone j hij hj hboth
        · exact hlast.elim (absurd hboth.1) (absurd hboth.2)
      · rintro ⟨hi, hvisible, hnone⟩
        have hne : i ≠ size := by
          rintro rfl
          exact hlast.elim (absurd hvisible.1) (absurd hvisible.2)
        exact ⟨by omega, hvisible, fun j hij hj => hnone j hij (Nat.lt_succ_of_lt hj)⟩

/-- A name that is not declared in a scope later was not declared there before. -/
theorem Extends.inScope_none (h : b.Extends b') {name : String} {s : ScopeId}
    (hnone : b'.inScope? name s = none) : b.inScope? name s = none := by
  cases hold : b.inScope? name s with
  | none => rfl
  | some j =>
    obtain ⟨hj, ⟨hscope, hname⟩, -⟩ := inScope?_eq_some_iff.mp hold
    obtain ⟨hname', hscope', -⟩ := h.visible hj
    have hmem : j ∈ b'.ids.reverse :=
      List.mem_reverse.mpr (List.mem_range.mpr (Nat.lt_of_lt_of_le hj h.size_le))
    have hfound := List.find?_eq_none.mp hnone j hmem
    rw [hscope', hname', hscope, hname] at hfound
    simp at hfound

/-- An old binding that a scope shows later was shown before. -/
theorem Extends.inScope_some (h : b.Extends b') (hi : i < b.bindings.size) {name : String}
    {s : ScopeId} (hsome : b'.inScope? name s = some i) : b.inScope? name s = some i := by
  obtain ⟨-, ⟨hscope, hname⟩, hlast⟩ := inScope?_eq_some_iff.mp hsome
  obtain ⟨hname', hscope', -⟩ := h.visible hi
  refine inScope?_eq_some_iff.mpr ⟨hi, ⟨hscope' ▸ hscope, hname' ▸ hname⟩, fun j hij hj hboth => ?_⟩
  obtain ⟨hname'', hscope'', -⟩ := h.visible hj
  refine hlast j hij (Nat.lt_of_lt_of_le hj h.size_le) ?_
  rw [hscope'', hname'']
  exact hboth

/-- A binding that is found along some scopes later was found there before. -/
theorem Extends.findSome (h : b.Extends b') (hi : i < b.bindings.size) {name : String}
    {scopes : List ScopeId} (hsome : scopes.findSome? (b'.inScope? name) = some i) :
    scopes.findSome? (b.inScope? name) = some i := by
  induction scopes with
  | nil => cases hsome
  | cons s rest ih =>
    rw [List.findSome?_cons] at hsome ⊢
    cases hlater : b'.inScope? name s with
    | none =>
      rw [hlater] at hsome
      rw [h.inScope_none hlater]
      exact ih hsome
    | some j =>
      rw [hlater] at hsome
      obtain rfl : j = i := Option.some.inj hsome
      rw [h.inScope_some hi hlater]

/-- **A name that means an old binding has always meant it.** -/
theorem Extends.resolve (h : b.Extends b') (hi : i < b.bindings.size) {name : String}
    {s : ScopeId} (hsome : b'.resolve? t name s = some i) : b.resolve? t name s = some i :=
  h.findSome hi hsome

/-- What a name means has that name. -/
theorem name_of_resolve {name : String} {s : ScopeId} (h : b.resolve? t name s = some i) :
    (b.binding i).name = name := by
  obtain ⟨_, -, hs⟩ := List.exists_of_findSome?_eq_some h
  exact (inScope?_eq_some_iff.mp hs).2.1.2

/-- What a name means is declared in one of the scopes around. -/
theorem scope_of_resolve {name : String} {s : ScopeId} (h : b.resolve? t name s = some i) :
    (b.binding i).scope ∈ t.scopeChain s := by
  obtain ⟨s', hs', hshown⟩ := List.exists_of_findSome?_eq_some h
  rw [(inScope?_eq_some_iff.mp hshown).2.1.1]
  exact hs'

/-! ### The turn of a node -/

/-- The table when the turn of a node comes: those with a lower number have been visited. -/
def before (t : Tree) (k : NodeId) : BindingTable :=
  (List.range k).foldl (visit t t.allLoopHeadNames) (ofDeclared t)

theorem before_zero (t : Tree) : before t 0 = ofDeclared t := rfl

theorem before_succ (t : Tree) (k : NodeId) :
    before t (k + 1) = (before t k).visit t t.allLoopHeadNames k := by
  rw [before, List.range_succ, List.foldl_append]
  rfl

theorem before_size (t : Tree) : before t t.nodes.size = ofTree t := rfl

theorem before_extends (t : Tree) (h : k ≤ m) : (before t k).Extends (before t m) := by
  induction m, h using Nat.le_induction with
  | base => exact .refl _
  | succ m _ ih =>
    rw [before_succ]
    exact ih.trans (extends_visit _ t _ m)

/-- The accounts are in order at every turn. -/
theorem accounted_before (t : Tree) (h : k ≤ t.nodes.size) : (before t k).Accounted t := by
  induction k with
  | zero => exact accounted_ofDeclared t
  | succ k ih =>
    rw [before_succ]
    exact (ih (Nat.le_of_succ_le h)).visit t.allLoopHeadNames h

/-- What is known of the usages that were recorded before the turn of a node, and of the bindings
that heads of loops have added. -/
structure Recorded (b : BindingTable) (t : Tree) (k : NodeId) : Prop where
  node_lt : ∀ {i}, ∀ u ∈ (b.binding i).usages, u.node < k
  text_eq : ∀ {i}, ∀ u ∈ (b.binding i).usages, t.text u.node = (b.binding i).name
  lookedUp : ∀ {i}, ∀ u ∈ (b.binding i).usages, t.isLookedUp u.node = true
  scope_mem : ∀ {i}, ∀ u ∈ (b.binding i).usages,
    (b.binding i).scope ∈ t.scopeChain (t.scopeOf u.node)
  undeclared : ∀ i, (ofDeclared t).bindings.size ≤ i →
    (b.binding i).declarator = none ∧ (b.binding i).declaration = none

theorem recorded_ofDeclared (t : Tree) : (ofDeclared t).Recorded t 0 := by
  have hunused : ∀ i, ((ofDeclared t).binding i).usages = [] :=
    ofDeclared_induction (P := fun _ b => ∀ i, (b.binding i).usages = []) t (fun _ => rfl)
      fun _ b new hnew h => usages_declare (Tree.declared_of_mem hnew) h
  have hempty : ∀ {i}, ∀ u ∈ ((ofDeclared t).binding i).usages, False := fun {i} u hu => by
    rw [hunused i] at hu
    cases hu
  refine ⟨fun u hu => (hempty u hu).elim, fun u hu => (hempty u hu).elim,
    fun u hu => (hempty u hu).elim, fun u hu => (hempty u hu).elim, fun i hi => ?_⟩
  rw [binding, Array.getD_eq_getD_getElem?, Array.getElem?_eq_none hi]
  exact ⟨rfl, rfl⟩

/-- A head of a loop adds a binding that has no usages and no declarator. -/
theorem Recorded.declare {new : Binding} (h : b.Recorded t k) (hunused : new.usages = [])
    (hdeclarator : new.declarator = none) (hdeclaration : new.declaration = none) :
    (b.declare new).Recorded t k := by
  have hold {i u} (hu : u ∈ ((b.declare new).binding i).usages) :
      u ∈ (b.binding i).usages ∧ (b.declare new).binding i = b.binding i := by
    rw [binding_declare] at hu ⊢
    split at hu
    · rw [hunused] at hu
      cases hu
    · exact ⟨hu, if_neg ‹_›⟩
  refine ⟨fun u hu => h.node_lt u (hold hu).1, fun u hu => ?_,
    fun u hu => h.lookedUp u (hold hu).1, fun u hu => ?_, fun i hi => ?_⟩
  · rw [(hold hu).2]
    exact h.text_eq u (hold hu).1
  · rw [(hold hu).2]
    exact h.scope_mem u (hold hu).1
  · rw [binding_declare]
    split
    · exact ⟨hdeclarator, hdeclaration⟩
    · exact h.undeclared i hi

/-- A reference adds itself to the usages of the binding that it names. -/
theorem Recorded.refer {u : Usage} (h : b.Recorded t k) (hi : i < b.bindings.size)
    (hlt : u.node < k) (htext : t.text u.node = (b.binding i).name)
    (hlooked : t.isLookedUp u.node = true)
    (hscope : (b.binding i).scope ∈ t.scopeChain (t.scopeOf u.node)) :
    (b.refer i u).Recorded t k := by
  have hkept : ∀ j, ((b.refer i u).binding j).name = (b.binding j).name ∧
      ((b.refer i u).binding j).scope = (b.binding j).scope := by
    intro j
    rw [binding_refer hi]
    split
    · rename_i hji
      rw [hji]
      exact ⟨rfl, rfl⟩
    · exact ⟨rfl, rfl⟩
  have hcases {j v} (hv : v ∈ ((b.refer i u).binding j).usages) :
      v ∈ (b.binding j).usages ∨ (j = i ∧ v = u) := by
    rw [binding_refer hi] at hv
    split at hv
    · rename_i hji
      rw [hji]
      exact (List.mem_append.mp hv).imp_right fun hv => ⟨rfl, List.mem_singleton.mp hv⟩
    · exact .inl hv
  refine ⟨fun v hv => ?_, fun {j} v hv => ?_, fun v hv => ?_, fun {j} v hv => ?_, fun j hj => ?_⟩
  · rcases hcases hv with hv | ⟨-, rfl⟩
    · exact h.node_lt v hv
    · exact hlt
  · rw [(hkept j).1]
    rcases hcases hv with hv | ⟨rfl, rfl⟩
    · exact h.text_eq v hv
    · exact htext
  · rcases hcases hv with hv | ⟨-, rfl⟩
    · exact h.lookedUp v hv
    · exact hlooked
  · rw [(hkept j).2]
    rcases hcases hv with hv | ⟨rfl, rfl⟩
    · exact h.scope_mem v hv
    · exact hscope
  · rw [binding_refer hi]
    split
    · rename_i hji
      exact hji ▸ h.undeclared j hj
    · exact h.undeclared j hj

/-- **One more turn** records at most the node whose turn it is, under its own name. -/
theorem Recorded.visit (h : b.Recorded t k) (heads : List (NodeId × String)) :
    (b.visit t heads k).Recorded t (k + 1) := by
  have hlater : b.Recorded t (k + 1) :=
    ⟨fun u hu => Nat.lt_succ_of_lt (h.node_lt u hu), h.text_eq, h.lookedUp, h.scope_mem,
      h.undeclared⟩
  obtain heq | ⟨-, hlooked, ⟨_, -, heq⟩ | ⟨-, i, hi, hmeans, heq⟩⟩ := b.visit_cases t heads k
  · rw [heq]
    exact hlater
  · rw [heq]
    exact hlater.declare rfl rfl rfl
  · rw [heq]
    exact hlater.refer hi (Nat.lt_succ_self k) (name_of_resolve hmeans).symm hlooked
      (scope_of_resolve hmeans)

theorem recorded_before (t : Tree) (k : NodeId) : (before t k).Recorded t k := by
  induction k with
  | zero => exact recorded_ofDeclared t
  | succ k ih =>
    rw [before_succ]
    exact ih.visit t.allLoopHeadNames

/-- **A usage has the name of its binding**, which is declared in a scope around it; and it stands
in no import and in no type. -/
theorem recorded_ofTree (t : Tree) : (ofTree t).Recorded t t.nodes.size := recorded_before t _

/-- A binding with a declarator is among the declared names. -/
theorem lt_size_of_declarator {d : NodeId} (h : ((ofTree t).binding i).declarator = some d) :
    i < (ofDeclared t).bindings.size := by
  by_contra hge
  rw [((recorded_ofTree t).undeclared i (Nat.le_of_not_lt hge)).1] at h
  cases h

/-- A node that is visited belongs to no binding yet, unless it declares a name. -/
theorem of?_before_eq_none (hn : n < t.nodes.size)
    (hfree : ∀ j < (ofTree t).bindings.size, ((ofTree t).binding j).nameNode ≠ n) :
    (before t n).of? n = none := by
  have hb := accounted_before t (Nat.le_of_lt hn)
  have hext : (before t n).Extends (ofTree t) := before_extends t (Nat.le_of_lt hn)
  cases howner : (before t n).of? n with
  | none => rfl
  | some j =>
    have hj := hb.lt_size howner
    rcases hb.owned howner with hname | ⟨u, hu, hun⟩
    · -- What declares a name then still declares it in the end.
      refine absurd ?_ (hfree j (Nat.lt_of_lt_of_le hj hext.size_le))
      exact (hext.visible hj).2.2.trans hname.symm
    · have hlt := (recorded_before t n).node_lt u hu
      rw [hun] at hlt
      exact absurd hlt (Nat.lt_irrefl n)

/-- No head of a loop declares a node that declares nothing in the end. -/
theorem lookup_allLoopHeadNames (hn : n < t.nodes.size) (hlooked : t.isLookedUp n = true)
    (hfree : ∀ j < (ofTree t).bindings.size, ((ofTree t).binding j).nameNode ≠ n) :
    t.allLoopHeadNames.reverse.lookup n = none := by
  cases hkeyword : t.allLoopHeadNames.reverse.lookup n with
  | none => rfl
  | some keyword =>
    have hstep : before t (n + 1) =
        (before t n).declare (t.keywordBinding (.ofKeyword keyword) n) := by
      rw [before_succ, visit, of?_before_eq_none hn hfree, hlooked, hkeyword]
      rfl
    have hext : (before t (n + 1)).Extends (ofTree t) := before_extends t hn
    have hnew : (before t n).bindings.size < (before t (n + 1)).bindings.size := by
      rw [hstep]
      exact Nat.lt_of_lt_of_eq (Nat.lt_succ_self _) (Array.size_push _).symm
    -- The node would be the name of the binding that was added at its turn.
    refine absurd ?_ (hfree _ (Nat.lt_of_lt_of_le hnew hext.size_le))
    rw [(hext.visible hnew).2.2, hstep, binding_declare, if_pos rfl]
    rfl

/-- **An identifier that means a declared name is a usage of it**, unless it declares a name itself
or stands where identifiers are not looked up. -/
theorem mem_usages_of_resolve (hn : n < t.nodes.size) (hlooked : t.isLookedUp n = true)
    (hfree : ∀ j < (ofTree t).bindings.size, ((ofTree t).binding j).nameNode ≠ n)
    (hi : i < (ofDeclared t).bindings.size)
    (hmeans : (ofTree t).resolve? t (t.text n) (t.scopeOf n) = some i) :
    t.usageAt n ∈ ((ofTree t).binding i).usages := by
  have hi' : i < (before t n).bindings.size :=
    Nat.lt_of_lt_of_le hi (before_extends t (Nat.zero_le n)).size_le
  -- When its turn came, the node was free, was looked up, and meant the same binding.
  have hthen : (before t n).resolve? t (t.text n) (t.scopeOf n) = some i :=
    (before_extends t (Nat.le_of_lt hn)).resolve hi' hmeans
  have hstep : before t (n + 1) = (before t n).refer i (t.usageAt n) := by
    rw [before_succ, visit, of?_before_eq_none hn hfree, hlooked,
      lookup_allLoopHeadNames hn hlooked hfree, hthen]
    rfl
  have hi'' : i < (before t (n + 1)).bindings.size :=
    Nat.lt_of_lt_of_le hi' (before_extends t (Nat.le_succ n)).size_le
  obtain ⟨more, hmore⟩ := (before_extends t hn).binding_eq i hi''
  rw [before_size] at hmore
  rw [hmore, hstep, binding_refer hi', if_pos rfl]
  exact List.mem_append_left more (List.mem_append_right _ (.head _))

end Declutter.BindingTable
