import Declutter.Proofs.Syntax.Scoping

/-!
# The loop that opens the scopes

Scopes are assigned in one loop over a stack of nodes.  A turn takes the node on top, opens its
scope if it opens one, puts its children there, and leaves them on the stack, the last one on top;
the name of a declared function or class stays in the scope around the declaration.  So whenever a
node is taken from the stack it is known where it lies, and a scope lies within one that was opened
earlier.  Each node is taken once, and so owns one scope or none.

## Main definitions

* `Tree.scopeKind?`, `Tree.leavesOutside` — what a node opens, and which child it does not take in.
* `Assignment.visit`, `Assigns` — a turn of the loop, and the loop.
* `Assignment.Sound` — what the turns that were taken have established.

## Main results

* `Assignment.Sound.visit` — what a turn adds.
* `Assigns.sound` — what the whole loop adds.
* `Tree.assigns_iff` — the loop comes to an end, with the scopes of the tree.
-/

namespace Declutter

namespace Tree

variable (t : Tree)

/-- What the outline of a program says of a node. -/
def label (i : NodeId) : Label :=
  ⟨t.type i, (t.span i).start, (t.span i).stop, t.field i, (t.node i).marks⟩

/-- What sort of scope a node opens, if any. -/
def scopeKind? (i : NodeId) : Option ScopeKind := (t.label i).scopeKind? (t.parentKind? i)

/-- Whether a child is the name of a declaration that leaves its name to the scope around it. -/
def leavesOutside (i c : NodeId) : Bool := t.hasField c "name" && (t.label i).namesOutside

end Tree

/-! ### The loop -/

/-- What is known while scopes are assigned: the scopes so far, and in which one each node lies. -/
structure Assignment where
  scopes : List Scope
  scopeOf : NodeId → ScopeId

namespace Assignment

/-- At the start there is the scope of the program, and all nodes are taken to lie there. -/
def start : Assignment := ⟨[⟨.program, 0, none, 0⟩], fun _ => 0⟩

variable (t : Tree) (a : Assignment) (i : NodeId)

/-- Where a node lies. -/
def placeOf : Outline.Place :=
  ⟨a.scopeOf i, (a.scopes.getD (a.scopeOf i) default).functionScope⟩

/-- What a node has inside, and the scopes with the one that it opens. -/
def entered : Outline.Place × List Scope :=
  Outline.enter (t.parentKind? i) (a.placeOf i) i a.scopes (t.label i)

/-- A turn: the node opens its scope, and its children are put inside or left outside. -/
def visit : Assignment where
  scopes := (a.entered t i).2
  scopeOf := fun c =>
    if c ∈ t.children i then
      if t.leavesOutside i c then a.scopeOf i else (a.entered t i).1.scope
    else a.scopeOf c

end Assignment

/-- The loop: the node on top of the stack has its turn and leaves its children there, the last one
on top, until nothing is left. -/
inductive Assigns (t : Tree) : List NodeId → Assignment → Assignment → Prop
  | done (a : Assignment) : Assigns t [] a a
  | turn {i : NodeId} {stack : List NodeId} {a a' : Assignment}
      (h : Assigns t ((t.children i).reverse ++ stack) (a.visit t i) a') :
      Assigns t (i :: stack) a a'

/-- The loop ends in one way only. -/
theorem Assigns.unique {t : Tree} {stack : List NodeId} {a a' a'' : Assignment}
    (h : Assigns t stack a a') (h' : Assigns t stack a a'') : a' = a'' := by
  induction h with
  | done =>
    cases h'
    rfl
  | turn _ ih =>
    cases h' with
    | turn h' => exact ih h'

/-! ### What a turn does -/

namespace Assignment

variable {t : Tree} {a : Assignment} {i c : NodeId} {kind : ScopeKind}

/-- The scope that a node opens when it has its turn. -/
def opening (a : Assignment) (i : NodeId) (kind : ScopeKind) : Scope where
  kind
  node := i
  parent := some (a.scopeOf i)
  functionScope := if kind == .function then a.scopes.length else (a.placeOf i).functionScope

theorem entered_of_none (h : t.scopeKind? i = none) : a.entered t i = (a.placeOf i, a.scopes) := by
  rw [Tree.scopeKind?] at h
  rw [entered, Outline.enter, h]

theorem entered_of_some (h : t.scopeKind? i = some kind) : a.entered t i =
    (⟨a.scopes.length, (a.opening i kind).functionScope⟩, a.scopes ++ [a.opening i kind]) := by
  rw [Tree.scopeKind?] at h
  rw [entered, Outline.enter, h]
  rfl

/-- Scopes are only added. -/
theorem prefix_entered (t : Tree) (a : Assignment) (i : NodeId) :
    a.scopes <+: (a.entered t i).2 := by
  cases h : t.scopeKind? i with
  | none => exact entered_of_none h ▸ List.prefix_refl _
  | some kind => exact entered_of_some h ▸ List.prefix_append _ _

theorem scopeOf_visit_of_mem (hc : c ∈ t.children i) : (a.visit t i).scopeOf c =
    if t.leavesOutside i c then a.scopeOf i else (a.entered t i).1.scope := if_pos hc

/-- Only the children of the node are put elsewhere. -/
theorem scopeOf_visit_of_notMem (hc : c ∉ t.children i) :
    (a.visit t i).scopeOf c = a.scopeOf c := if_neg hc

/-- A scope is found at its number also when further ones are added. -/
theorem getD_of_extends {scopes scopes' : List Scope} {s : ScopeId} (h : scopes <+: scopes')
    (hs : s < scopes.length) : scopes'.getD s default = scopes.getD s default := by
  obtain ⟨rest, rfl⟩ := h
  rw [List.getD_eq_getElem?_getD, List.getElem?_append_left hs, List.getD_eq_getElem?_getD]

/-- Wherever a child is put, there is a scope. -/
theorem scopeOf_visit_lt (hlt : a.scopeOf i < a.scopes.length) (hc : c ∈ t.children i) :
    (a.visit t i).scopeOf c < (a.visit t i).scopes.length := by
  change _ < (a.entered t i).2.length
  rw [scopeOf_visit_of_mem hc]
  split
  · exact Nat.lt_of_lt_of_le hlt (prefix_entered t a i).length_le
  · cases hkind : t.scopeKind? i with
    | none =>
      rw [entered_of_none hkind]
      exact hlt
    | some kind =>
      rw [entered_of_some hkind]
      simp

/-- A child is put where the node lies, or inside the node. -/
theorem placeOf_visit_of_mem (hc : c ∈ t.children i) (hlt : a.scopeOf i < a.scopes.length) :
    (a.visit t i).placeOf c =
      if t.leavesOutside i c then a.placeOf i else (a.entered t i).1 := by
  have houter : (⟨a.scopeOf i, ((a.entered t i).2.getD (a.scopeOf i) default).functionScope⟩ :
      Outline.Place) = a.placeOf i := by
    rw [getD_of_extends (prefix_entered t a i) hlt]
    rfl
  have hinner : (⟨(a.entered t i).1.scope,
      ((a.entered t i).2.getD (a.entered t i).1.scope default).functionScope⟩ : Outline.Place) =
        (a.entered t i).1 := by
    cases h : t.scopeKind? i with
    | none =>
      rw [entered_of_none h]
      rfl
    | some kind =>
      rw [entered_of_some h]
      simp [List.getD_eq_getElem?_getD]
  rw [placeOf, scopeOf_visit_of_mem hc]
  split
  · exact houter
  · exact hinner

/-! ### What the turns establish -/

/-- What is known of a scope other than the program's: the node that opens it, the scope around it,
which was opened before, and the function around it. -/
structure Opens (t : Tree) (a : Assignment) (s : ScopeId) (scope : Scope) : Prop where
  kind_eq : t.scopeKind? scope.node = some scope.kind
  parent_eq : scope.parent = some (a.scopeOf scope.node)
  outer_lt : a.scopeOf scope.node < s
  functionScope_eq : scope.functionScope =
    if scope.kind == .function then s else (a.placeOf scope.node).functionScope

/-- Whether a child lies where its parent lies, if the parent opens no scope or leaves it outside,
and else in the scope that the parent opens. -/
def Inside (t : Tree) (a : Assignment) (i c : NodeId) : Prop :=
  if t.leavesOutside i c || (t.scopeKind? i).isNone then a.scopeOf c = a.scopeOf i
  else a.scopeOf c ≠ 0 ∧ (a.scopes[a.scopeOf c]?).map (·.node) = some i

/-- What the turns of some nodes have established. -/
structure Sound (t : Tree) (done : List NodeId) (a : Assignment) : Prop where
  program : a.scopes.head? = some ⟨.program, 0, none, 0⟩
  /-- The nodes that open a scope have opened one each, in turn. -/
  owners : a.scopes.tail.map (·.node) = done.filter fun i => (t.scopeKind? i).isSome
  lt_length : ∀ i, a.scopeOf i < a.scopes.length
  opens : ∀ s scope, s ≠ 0 → a.scopes[s]? = some scope → a.Opens t s scope
  inside : ∀ i ∈ done, ∀ c ∈ t.children i, a.Inside t i c

theorem sound_start (t : Tree) : start.Sound t [] where
  program := rfl
  owners := rfl
  lt_length := fun _ => Nat.one_pos
  opens := fun s scope h0 hs => by
    cases s with
    | zero => exact absurd rfl h0
    | succ s => cases hs
  inside := fun i hi => absurd hi List.not_mem_nil

variable {done : List NodeId} {j s : Nat} {scope : Scope}

/-- A scope other than the program's was opened in some turn. -/
theorem Sound.node_mem (h : a.Sound t done) (h0 : s ≠ 0) (hs : a.scopes[s]? = some scope) :
    scope.node ∈ done := by
  obtain ⟨s, rfl⟩ := Nat.exists_eq_succ_of_ne_zero h0
  have hmem : scope.node ∈ a.scopes.tail.map (·.node) := by
    refine List.mem_map_of_mem (List.mem_of_getElem? (i := s) ?_)
    rw [List.getElem?_tail, hs]
  rw [h.owners] at hmem
  exact (List.mem_filter.mp hmem).1

/-- The scope of a node that is no child of the one that has its turn is as it was. -/
theorem functionScope_visit (hj : j ∉ t.children i) (hlt : a.scopeOf j < a.scopes.length) :
    ((a.visit t i).placeOf j).functionScope = (a.placeOf j).functionScope := by
  rw [placeOf, scopeOf_visit_of_notMem hj, placeOf]
  exact congrArg Scope.functionScope (getD_of_extends (prefix_entered t a i) hlt)

theorem getElem?_visit (hs : s < a.scopes.length) :
    (a.visit t i).scopes[s]? = a.scopes[s]? := by
  obtain ⟨rest, hrest⟩ := prefix_entered t a i
  change (a.entered t i).2[s]? = _
  rw [← hrest, List.getElem?_append_left hs]

/-- What is known of a scope stays true while its node is put nowhere else. -/
theorem Opens.visit (h : a.Opens t s scope) (hnode : scope.node ∉ t.children i)
    (hlt : a.scopeOf scope.node < a.scopes.length) : (a.visit t i).Opens t s scope where
  kind_eq := h.kind_eq
  parent_eq := by rw [scopeOf_visit_of_notMem hnode, h.parent_eq]
  outer_lt := by
    rw [scopeOf_visit_of_notMem hnode]
    exact h.outer_lt
  functionScope_eq := by rw [functionScope_visit hnode hlt, h.functionScope_eq]

/-- The scope that a node opens lies in the one where the node lies. -/
theorem opens_opening (hself : i ∉ t.children i) (hlt : a.scopeOf i < a.scopes.length)
    (hkind : t.scopeKind? i = some kind) :
    (a.visit t i).Opens t a.scopes.length (a.opening i kind) where
  kind_eq := hkind
  parent_eq := congrArg some (scopeOf_visit_of_notMem hself).symm
  outer_lt := lt_of_eq_of_lt (scopeOf_visit_of_notMem hself) hlt
  functionScope_eq := by
    change _ = if kind == .function then _ else ((a.visit t i).placeOf i).functionScope
    rw [functionScope_visit hself hlt]
    rfl

/-- A scope that a turn leaves behind was there before, or is the one that the node has opened. -/
theorem visit_cases (hs : (a.visit t i).scopes[s]? = some scope) :
    a.scopes[s]? = some scope ∨
      ∃ kind, t.scopeKind? i = some kind ∧ s = a.scopes.length ∧ scope = a.opening i kind := by
  rcases Nat.lt_or_ge s a.scopes.length with hlt | hge
  · exact .inl (getElem?_visit hlt ▸ hs)
  · refine .inr ?_
    change (a.entered t i).2[s]? = _ at hs
    cases hkind : t.scopeKind? i with
    | none =>
      rw [entered_of_none hkind, List.getElem?_eq_none hge] at hs
      cases hs
    | some kind =>
      rw [entered_of_some hkind, List.getElem?_append_right hge] at hs
      obtain ⟨hlt, rfl⟩ := List.getElem?_eq_some_iff.mp hs
      refine ⟨kind, rfl, ?_, List.getElem_singleton _⟩
      exact Nat.le_antisymm (Nat.sub_eq_zero_iff_le.mp (Nat.lt_one_iff.mp hlt)) hge

theorem Inside.visit (h : a.Inside t j c) (hj : j ∉ t.children i) (hc : c ∉ t.children i)
    (hlt : a.scopeOf c < a.scopes.length) : (a.visit t i).Inside t j c := by
  unfold Inside at h ⊢
  rwa [scopeOf_visit_of_notMem hc, scopeOf_visit_of_notMem hj, getElem?_visit hlt]

/-- After its turn the children of a node are inside. -/
theorem inside_visit (hself : i ∉ t.children i) (hlt : a.scopeOf i < a.scopes.length)
    (hc : c ∈ t.children i) : (a.visit t i).Inside t i c := by
  unfold Inside
  rw [scopeOf_visit_of_mem hc, scopeOf_visit_of_notMem hself]
  cases hout : t.leavesOutside i c with
  | true => simp
  | false =>
    cases hkind : t.scopeKind? i with
    | none => simp [entered_of_none hkind, placeOf]
    | some kind =>
      have hpos : a.scopes.length ≠ 0 := Nat.ne_of_gt (Nat.lt_of_le_of_lt (Nat.zero_le _) hlt)
      change if _ then _ else _ ∧ ((a.entered t i).2[_]?).map _ = _
      simp [entered_of_some hkind, opening, hpos]

/-- A turn adds the node to those that own a scope, if it opens one. -/
theorem owners_visit (hpos : a.scopes ≠ []) : (a.visit t i).scopes.tail.map (·.node) =
    a.scopes.tail.map (·.node) ++ [i].filter fun i => (t.scopeKind? i).isSome := by
  change (a.entered t i).2.tail.map _ = _
  cases hkind : t.scopeKind? i with
  | none =>
    rw [entered_of_none hkind]
    simp [hkind]
  | some kind =>
    rw [entered_of_some hkind, List.tail_append_of_ne_nil hpos]
    simp [hkind, opening]

/-- **What a turn adds**, if neither the node nor one of its children had its turn before. -/
theorem Sound.visit (hn : t.InPreorder) (h : a.Sound t done) (hi : i ∉ done)
    (hchildren : ∀ c ∈ t.children i, c ∉ done) : (a.visit t i).Sound t (done ++ [i]) := by
  have hpos : 0 < a.scopes.length := Nat.lt_of_le_of_lt (Nat.zero_le _) (h.lt_length 0)
  have hself : i ∉ t.children i := fun hmem => Nat.lt_irrefl i (hn.child_bounds hmem).1
  have hdone : ∀ j ∈ done, j ∉ t.children i := fun j hj hmem => hchildren j hmem hj
  refine ⟨?_, ?_, fun j => ?_, fun s scope h0 hs => ?_, fun j hj c hc => ?_⟩
  · rw [List.head?_eq_getElem?, getElem?_visit hpos, ← List.head?_eq_getElem?, h.program]
  · rw [owners_visit (List.ne_nil_of_length_pos hpos), List.filter_append, h.owners]
  · by_cases hj : j ∈ t.children i
    · exact scopeOf_visit_lt (h.lt_length i) hj
    · rw [scopeOf_visit_of_notMem hj]
      exact Nat.lt_of_lt_of_le (h.lt_length j) (prefix_entered t a i).length_le
  · rcases visit_cases hs with hold | ⟨kind, hkind, rfl, rfl⟩
    · exact (h.opens s scope h0 hold).visit (hdone _ (h.node_mem h0 hold)) (h.lt_length _)
    · exact opens_opening hself (h.lt_length i) hkind
  · rcases List.mem_append.mp hj with hj | hj
    · -- A child has one parent, so it is no child of the node that has its turn.
      have hother : c ∉ t.children i := fun hmem => hi <| by
        obtain rfl := Option.some.inj ((hn.parent_of_mem i c hmem).symm.trans
          (hn.parent_of_mem j c hc))
        exact hj
      exact (h.inside j hj c hc).visit (hdone j hj) hother (h.lt_length c)
    · obtain rfl := List.mem_singleton.mp hj
      exact inside_visit hself (h.lt_length j) hc

end Assignment

/-! ### What the loop establishes -/

namespace Tree

variable {t : Tree} {start stop i : Nat} {l : List NodeId}

/-- What lies below the tiles of an interval is the interval. -/
theorem Tiles.flatMap_subtree (h : t.Tiles start stop l) :
    l.flatMap t.subtree = List.range' start (stop - start) := by
  induction l generalizing start with
  | nil =>
    obtain rfl : start = stop := h
    rw [Nat.sub_self]
    rfl
  | cons c rest ih =>
    obtain ⟨rfl, hlt, hrest⟩ := h
    have hle : t.stop start ≤ stop := hrest.le
    change List.range' start (t.stop start - start) ++ rest.flatMap t.subtree = _
    rw [ih hrest, show t.stop start = start + (t.stop start - start) by omega,
      Nat.add_sub_cancel_left, List.range'_append_1]
    congr 1
    omega

/-- A node stands before what lies within its children. -/
theorem InPreorder.subtree_eq (hn : t.InPreorder) (hi : i < t.nodes.size) :
    t.subtree i = i :: (t.children i).flatMap t.subtree := by
  have hlt := hn.lt_stop hi
  rw [(hn.tiles i hi).flatMap_subtree, ← List.range'_succ]
  change List.range' i (t.stop i - i) = _
  congr 1
  omega

/-- A turn leaves on the stack what lies below the node. -/
theorem InPreorder.perm_turn (hn : t.InPreorder) (hi : i < t.nodes.size) (stack : List NodeId) :
    ((i :: stack).flatMap t.subtree).Perm
      (i :: ((t.children i).reverse ++ stack).flatMap t.subtree) := by
  rw [List.flatMap_cons, hn.subtree_eq hi, List.flatMap_append]
  exact (((List.reverse_perm _).flatMap_right _).symm.append_right _).cons i

end Tree

namespace Assigns

variable {t : Tree} {stack done : List NodeId} {a a' : Assignment}

/-- **What the whole loop adds**: every node from those on the stack down has its turn, once. -/
theorem sound (hn : t.InPreorder) (h : Assigns t stack a a') (hsound : a.Sound t done)
    (hstack : ∀ i ∈ stack, i < t.nodes.size) (hnodup : (done ++ stack.flatMap t.subtree).Nodup) :
    ∃ visited, visited.Perm (stack.flatMap t.subtree) ∧ a'.Sound t (done ++ visited) := by
  induction h generalizing done with
  | done a => exact ⟨[], .nil, (List.append_nil done).symm ▸ hsound⟩
  | @turn i stack a a' h ih =>
    have hi := hstack i (.head _)
    have hperm := hn.perm_turn hi stack
    have hnext : (done ++ [i] ++ ((t.children i).reverse ++ stack).flatMap t.subtree).Nodup := by
      rw [List.append_assoc]
      exact (hperm.append_left done).nodup hnodup
    obtain ⟨hbefore, -, hapart⟩ := List.nodup_append.mp hnext
    have hself : i ∉ done := fun hmem =>
      (List.nodup_append.mp hbefore).2.2 i hmem i (.head _) rfl
    have hchildren : ∀ c ∈ t.children i, c ∉ done := fun c hc hmem => by
      refine hapart c (List.mem_append_left _ hmem) c (List.mem_flatMap.mpr ⟨c, ?_, ?_⟩) rfl
      · exact List.mem_append_left _ (List.mem_reverse.mpr hc)
      · exact hn.self_mem_subtree (hn.lt_size_of_mem hc)
    have hstack' : ∀ j ∈ (t.children i).reverse ++ stack, j < t.nodes.size := fun j hj => by
      rcases List.mem_append.mp hj with hj | hj
      · exact hn.lt_size_of_mem (List.mem_reverse.mp hj)
      · exact hstack j (.tail _ hj)
    obtain ⟨visited, hvisited, hsound'⟩ := ih (hsound.visit hn hself hchildren) hstack' hnext
    refine ⟨i :: visited, (hvisited.cons i).trans hperm.symm, ?_⟩
    rwa [List.append_assoc] at hsound'

end Assigns

/-! ### The loop and the walk -/

namespace Assignment

/-- What is known when the scopes below a node, or below siblings, have been opened in one walk:
`placed` says in which scope each node from `i` on lies. -/
def after (a : Assignment) (i : NodeId) (placed : List Scope × List ScopeId) : Assignment where
  scopes := placed.1
  scopeOf := fun j => (if i ≤ j then placed.2[j - i]? else none).getD (a.scopeOf j)

variable {a : Assignment} {i j : Nat} {placed placed' : List Scope × List ScopeId}

theorem scopeOf_after_of_lt (h : j < i) : (a.after i placed).scopeOf j = a.scopeOf j := by
  change (if i ≤ j then _ else none).getD _ = _
  rw [if_neg (Nat.not_le.mpr h), Option.getD_none]

theorem after_nil : a.after i (a.scopes, []) = a := by
  refine congrArg (Assignment.mk a.scopes) (funext fun j => ?_)
  change (if i ≤ j then none else none).getD (a.scopeOf j) = a.scopeOf j
  rw [ite_self]
  rfl

/-- A node that was not reached lies where it lay. -/
theorem placeOf_after_of_lt (h : j < i) (hextends : a.scopes <+: placed.1)
    (hlt : a.scopeOf j < a.scopes.length) : (a.after i placed).placeOf j = a.placeOf j := by
  rw [placeOf, scopeOf_after_of_lt h]
  exact congrArg (Outline.Place.mk _ ∘ Scope.functionScope) (getD_of_extends hextends hlt)

/-- What comes first in the walk may be placed last. -/
theorem after_after {n : Nat} (hn : placed'.2.length = n) :
    (a.after (i + n) placed).after i placed' = a.after i (placed'.1, placed'.2 ++ placed.2) := by
  refine congrArg (Assignment.mk placed'.1) (funext fun j => ?_)
  change (if i ≤ j then placed'.2[j - i]? else none).getD
    ((if i + n ≤ j then placed.2[j - (i + n)]? else none).getD (a.scopeOf j)) =
      (if i ≤ j then (placed'.2 ++ placed.2)[j - i]? else none).getD (a.scopeOf j)
  rcases Nat.lt_or_ge j i with hlt | hge
  · rw [if_neg (Nat.not_le.mpr hlt), if_neg (by omega), if_neg (Nat.not_le.mpr hlt)]
    rfl
  · obtain ⟨k, rfl⟩ := Nat.exists_eq_add_of_le hge
    rw [if_pos hge, if_pos hge, Nat.add_sub_cancel_left]
    rcases Nat.lt_or_ge k n with hk | hk
    · rw [if_neg (by omega), List.getElem?_append_left (hn.symm ▸ hk), Option.getD_none]
    · rw [if_pos (Nat.add_le_add_left hk i), List.getElem?_eq_none (hn.symm ▸ hk),
        List.getElem?_append_right (hn.symm ▸ hk), Nat.add_sub_add_left, Option.getD_none, hn]

/-- A node is placed before what is below it. -/
theorem after_visit {t : Tree} (hself : i ∉ t.children i)
    (hbounds : ∀ c ∈ t.children i, i < c ∧ c < i + 1 + placed.2.length) :
    (a.visit t i).after (i + 1) placed = a.after i (placed.1, a.scopeOf i :: placed.2) := by
  refine congrArg (Assignment.mk placed.1) (funext fun j => ?_)
  change (if i + 1 ≤ j then placed.2[j - (i + 1)]? else none).getD ((a.visit t i).scopeOf j) =
    (if i ≤ j then (a.scopeOf i :: placed.2)[j - i]? else none).getD (a.scopeOf j)
  rcases Nat.lt_trichotomy j i with hlt | rfl | hgt
  · have hout : j ∉ t.children i := fun hmem => by
      have := (hbounds j hmem).1
      omega
    rw [if_neg (by omega), if_neg (by omega), scopeOf_visit_of_notMem hout]
  · rw [if_neg (by omega), if_pos (Nat.le_refl j), Nat.sub_self, scopeOf_visit_of_notMem hself]
    rfl
  · obtain ⟨k, rfl⟩ := Nat.exists_eq_add_of_le (Nat.succ_le_of_lt hgt)
    rw [if_pos (Nat.le_add_right ..), if_pos (Nat.le_of_lt hgt), Nat.add_sub_cancel_left,
      show i.succ + k - i = k + 1 by omega, List.getElem?_cons_succ]
    by_cases hk : k < placed.2.length
    · rw [List.getElem?_eq_getElem hk]
      rfl
    · rw [scopeOf_visit_of_notMem fun hmem =>
        hk (Nat.lt_of_add_lt_add_left (hbounds _ hmem).2)]

end Assignment

namespace Outline

open Assignment

theorem HeldAt.label_eq {t : Tree} {source : Bytes} {parentId : Option NodeId} {i : NodeId}
    {o : Outline} (h : HeldAt t source parentId i o) : t.label i = o.label := by
  cases o with
  | node l children =>
    rw [Tree.label, Tree.type, Tree.span, Tree.field, h.node_eq]
    rfl

mutual

/-- The turns of a node and of all below it are one walk. -/
theorem assigns_place {t : Tree} {source : Bytes} {parentId : Option NodeId} {i : NodeId}
    {o : Outline} {stack : List NodeId} {a a' : Assignment}
    (hheld : HeldAt t source parentId i o) (hlt : a.scopeOf i < a.scopes.length)
    (h : Assigns t stack (a.after i (place (t.parentKind? i) (a.placeOf i) i a.scopes o)) a') :
    Assigns t (i :: stack) a a' := by
  cases o with
  | node l children =>
    have hlabel : t.label i = l := hheld.label_eq
    have hkind : t.kind i = (t.label i).kind := by rw [hlabel, Tree.kind, hheld.node_eq]
    have hchildren : t.children i = siblingIds (i + 1) children := by
      rw [Tree.children, hheld.node_eq]
    have hself : i ∉ t.children i := fun hmem => Nat.lt_irrefl i <| by
      rw [hchildren] at hmem
      exact (hheld.children.tiles.bounds hmem).1
    have hbounds : ∀ c ∈ t.children i, i < c ∧ c < i + 1 + sizeAll children := fun c hc => by
      rw [hchildren] at hc
      obtain ⟨hlow, hlt, hhigh⟩ := hheld.children.tiles.bounds hc
      exact ⟨hlow, Nat.lt_of_lt_of_le hlt hhigh⟩
    refine .turn (hchildren ▸ assigns_placeAll (a.placeOf i) (a.entered t i).1 hheld.children
      hkind ?_ ?_ ?_)
    · exact fun c hc => scopeOf_visit_lt hlt (hchildren.symm ▸ hc)
    · exact fun c hc => placeOf_visit_of_mem (hchildren.symm ▸ hc) hlt
    · rw [after_visit hself (by rwa [length_placeAll]), hlabel]
      rw [place, ← hlabel] at h
      exact hlabel ▸ h

theorem assigns_placeAll {t : Tree} {source : Bytes} {p i : NodeId} {os : List Outline}
    {stack : List NodeId} {a a' : Assignment} (outer inner : Place)
    (hheld : AllHeldAt t source p i os) (hkind : t.kind p = (t.label p).kind)
    (hlt : ∀ c ∈ siblingIds i os, a.scopeOf c < a.scopes.length)
    (hplace : ∀ c ∈ siblingIds i os,
      a.placeOf c = if t.leavesOutside p c then outer else inner)
    (h : Assigns t stack (a.after i (placeAll (t.label p) outer inner i a.scopes os)) a') :
    Assigns t ((siblingIds i os).reverse ++ stack) a a' := by
  cases os with
  | nil =>
    rw [placeAll, after_nil] at h
    exact h
  | cons o rest =>
    have hi : i ∈ siblingIds i (o :: rest) := .head _
    have hextends := prefix_placeAll (t.label p) outer inner (i + o.size) a.scopes rest
    have hpos : 0 < o.size := by
      cases o
      exact Nat.succ_pos _
    have hparent : t.parentKind? i = some (t.label p).kind := by
      rw [Tree.parentKind?, hheld.parent_eq hi, Option.map_some, hkind]
    -- The later siblings have their turn first.
    rw [siblingIds, List.reverse_cons, List.append_assoc]
    refine assigns_placeAll outer inner hheld.tail hkind ?_ ?_ ?_
    · exact fun c hc => hlt c (.tail _ hc)
    · exact fun c hc => hplace c (.tail _ hc)
    · refine assigns_place hheld.head ?_ ?_
      · rw [scopeOf_after_of_lt (Nat.lt_add_of_pos_right hpos)]
        exact Nat.lt_of_lt_of_le (hlt i hi) hextends.length_le
      · rw [hparent, placeOf_after_of_lt (Nat.lt_add_of_pos_right hpos) hextends (hlt i hi),
          hplace i hi, after_after (length_place ..)]
        rw [placeAll, ← hheld.head.label_eq] at h
        exact h

end

end Outline

namespace Tree

/-- The scopes of a tree, and where its nodes lie. -/
def assignment (t : Tree) : Assignment := ⟨t.scopes.toList, t.scopeOf⟩

/-- **The loop comes to an end**, with the scopes of the tree. -/
theorem assigns_iff (l : Language) (s : Bytes) (root : Concrete) {a : Assignment} :
    Assigns (ofConcrete l s root) [0] .start a ↔ a = (ofConcrete l s root).assignment := by
  obtain ⟨hheld, hsize⟩ := heldAt_ofConcrete l s root
  have hscope : ∀ j, (root.outline.scopes.2[j]?).getD 0 = (ofConcrete l s root).scopeOf j := by
    intro j
    have hlength : root.outline.scopes.2.length = root.outline.size := Outline.length_place ..
    rcases Nat.lt_or_ge j root.outline.size with hj | hj
    · rw [scopeOf, (node_ofConcrete l s root).2 j hj, List.getElem?_eq_getElem (hlength ▸ hj)]
      rfl
    · rw [scopeOf, node_of_size_le (hsize ▸ hj), List.getElem?_eq_none (hlength ▸ hj)]
      rfl
  have hafter : Assignment.start.after 0 root.outline.scopes =
      (ofConcrete l s root).assignment := by
    refine congrArg (Assignment.mk root.outline.scopes.1) (funext fun j => ?_)
    rw [← hscope j]
    rfl
  have hends : Assigns (ofConcrete l s root) [0] .start (ofConcrete l s root).assignment := by
    refine Outline.assigns_place hheld Nat.one_pos ?_
    rw [parentKind?, (inPreorder_ofConcrete l s root).parent_root, ← hafter]
    exact .done _
  exact ⟨fun h => h.unique hends, fun h => h ▸ hends⟩

/-- Every node has had its turn when the loop comes to an end. -/
theorem exists_sound (l : Language) (s : Bytes) (root : Concrete) :
    ∃ done, done.Perm (ofConcrete l s root).ids ∧
      (ofConcrete l s root).assignment.Sound (ofConcrete l s root) done := by
  have hends := (assigns_iff l s root).mpr rfl
  have hn := inPreorder_ofConcrete l s root
  generalize ofConcrete l s root = t at hends hn
  have hall : [0].flatMap t.subtree = t.ids := by
    rw [List.flatMap_singleton, ids, List.range_eq_range', ← hn.stop_root]
    rfl
  obtain ⟨done, hdone, hsound⟩ := hends.sound hn (Assignment.sound_start t)
    (fun i hi => List.mem_singleton.mp hi ▸ hn.size_pos) (by
      rw [List.nil_append, hall]
      exact List.nodup_range)
  exact ⟨done, hall ▸ hdone, hsound⟩

end Tree

end Declutter
