import Declutter.Proofs.Syntax.Nesting

/-!
# Scopes are lexical

When the loop has come to an end every node has had its turn.  So each node that opens a scope owns
one, and around a node are the scopes of the nodes around it, from the inside out, and then the
program's.  Only from the name of a declared function or class the way up leaves the scope of the
declaration out.

## Main definitions

* `Tree.Owns`, `Tree.ownScope?` — the scope of a node.
* `Tree.enclosing` — the nodes around a node that may have taken it in.
* `Tree.Lexical` — what lexical nesting is.

## Main results

* `Assignment.Sound.owns_unique`, `Assignment.Sound.exists_owns` — who owns a scope.
* `Assignment.Sound.scopeChain_eq` — what is around a node.
* `Tree.lexical_ofConcrete` — the scopes of the tree of a concrete tree are lexical.
-/

namespace Declutter

/-- A construct never opens the scope of a program. -/
theorem Label.scopeKind?_ne_program {l : Label} {parent : Option Kind} :
    l.scopeKind? parent ≠ some .program := by
  unfold scopeKind?
  generalize l.kind = k
  cases k
  case block =>
    dsimp only
    split <;> nofun
  all_goals nofun

namespace Tree

section

variable (t : Tree)

/-- Whether a scope other than the program's is the one that a node opens. -/
def Owns (i : NodeId) (s : ScopeId) : Prop :=
  s ≠ 0 ∧ s < t.scopes.size ∧ (t.scope s).node = i

/-- The first scope other than the program's that a node opens. -/
def ownScope? (i : NodeId) : Option ScopeId :=
  (List.range t.scopes.size).find? fun s => s != 0 && (t.scope s).node == i

/-- The nodes around a node, from the inside out, without the declarations whose name the way up
comes from. -/
def enclosing (i : NodeId) : List NodeId :=
  ((t.chain i).zip (t.ancestors i)).filterMap fun (c, p) =>
    if t.leavesOutside p c then none else some p

/-- Whether a scope is a function's or the program's, so that a `var` in it is declared there. -/
def isFunctionScope (s : ScopeId) : Bool :=
  (t.scope s).kind == .function || (t.scope s).kind == .program

/-- What lexical nesting is. -/
structure Lexical : Prop where
  scopeOf_lt : ∀ i < t.nodes.size, t.scopeOf i < t.scopes.size
  program : t.scopes[0]? = some ⟨.program, 0, none, 0⟩
  parent_lt : ∀ s < t.scopes.size, s ≠ 0 → ∃ p < s, (t.scope s).parent = some p
  owned : ∀ i < t.nodes.size, (t.scopeKind? i).isSome → ∃! s, t.Owns i s
  owner : ∀ i s, t.Owns i s → i < t.nodes.size ∧ t.scopeKind? i = some (t.scope s).kind
  scopeChain_parent : ∀ s < t.scopes.size,
    t.scopeChain s = s :: ((t.scope s).parent.map t.scopeChain).getD []
  /-- The scopes around a node are those of the nodes around it, and the program's. -/
  scopeChain_eq : ∀ i < t.nodes.size,
    t.scopeChain (t.scopeOf i) = (t.enclosing i).filterMap t.ownScope? ++ [0]
  functionScope_eq : ∀ s < t.scopes.size,
    (t.scopeChain s).find? t.isFunctionScope = some (t.functionScope s)

end

variable {t : Tree} {i s : Nat}

theorem getD_assignment (t : Tree) (s : ScopeId) :
    t.assignment.scopes.getD s default = t.scope s := by
  change t.scopes.toList.getD s default = t.scopes.getD s default
  rw [List.getD_eq_getElem?_getD, Array.getElem?_toList, Array.getD_eq_getD_getElem?]

theorem getElem?_assignment (hs : s < t.scopes.size) :
    t.assignment.scopes[s]? = some (t.scope s) := by
  change t.scopes.toList[s]? = _
  rw [Array.getElem?_toList, Array.getElem?_eq_getElem hs, scope, Array.getD_eq_getD_getElem?,
    Array.getElem?_eq_getElem hs]
  rfl

theorem ownScope?_of_owns (h : t.Owns i s) (hunique : ∀ r, t.Owns i r → r = s) :
    t.ownScope? i = some s := by
  cases hfound : t.ownScope? i with
  | none =>
    have := List.find?_eq_none.mp hfound s (List.mem_range.mpr h.2.1)
    simp [h.1, h.2.2] at this
  | some r =>
    have hr := List.find?_some hfound
    simp only [Bool.and_eq_true, bne_iff_ne, ne_eq, beq_iff_eq] at hr
    rw [hunique r ⟨hr.1, List.mem_range.mp (List.mem_of_find?_eq_some hfound), hr.2⟩]

theorem ownScope?_eq_none (h : ∀ s, ¬ t.Owns i s) : t.ownScope? i = none := by
  refine List.find?_eq_none.mpr fun s hs hfound => ?_
  simp only [Bool.and_eq_true, bne_iff_ne, ne_eq, beq_iff_eq] at hfound
  exact h s ⟨hfound.1, List.mem_range.mp hs, hfound.2⟩

theorem InPreorder.enclosing_of_parent (hn : t.InPreorder) {c p : Nat}
    (hp : t.parent? c = some p) :
    t.enclosing c = if t.leavesOutside p c then t.enclosing p else p :: t.enclosing p := by
  rw [enclosing, hn.chain_of_parent hp, hn.ancestors_of_parent hp, List.zip_cons_cons,
    List.filterMap_cons]
  cases hout : t.leavesOutside p c with
  | true => simp only [if_true, enclosing, hout]
  | false => simp only [Bool.false_eq_true, if_false, enclosing, hout]

end Tree

namespace Assignment.Sound

variable {t : Tree} {done : List NodeId} (h : t.assignment.Sound t done) {i c p r s : Nat}
include h

theorem opens_scope (h0 : s ≠ 0) (hs : s < t.scopes.size) :
    t.assignment.Opens t s (t.scope s) :=
  h.opens s _ h0 (Tree.getElem?_assignment hs)

/-- A node that owns a scope had its turn, and opens such a scope. -/
theorem of_owns (hs : t.Owns i s) : i ∈ done ∧ t.scopeKind? i = some (t.scope s).kind := by
  obtain ⟨h0, hlt, rfl⟩ := hs
  exact ⟨h.node_mem h0 (Tree.getElem?_assignment hlt), (h.opens_scope h0 hlt).kind_eq⟩

theorem getElem?_owners (hs : s + 1 < t.scopes.size) :
    (done.filter fun i => (t.scopeKind? i).isSome)[s]? = some (t.scope (s + 1)).node := by
  rw [← h.owners, List.getElem?_map, List.getElem?_tail, Tree.getElem?_assignment hs]
  rfl

/-- **No node owns two scopes**, if none has two turns. -/
theorem owns_unique (hdone : done.Nodup) (hr : t.Owns i r) (hs : t.Owns i s) : r = s := by
  obtain ⟨hr0, hr, hir⟩ := hr
  obtain ⟨hs0, hs, his⟩ := hs
  obtain ⟨r, rfl⟩ := Nat.exists_eq_succ_of_ne_zero hr0
  obtain ⟨s, rfl⟩ := Nat.exists_eq_succ_of_ne_zero hs0
  have hget := h.getElem?_owners hr
  have hlt := (List.getElem?_eq_some_iff.mp hget).1
  refine congrArg Nat.succ ((List.getElem?_inj hlt (hdone.filter _)).mp ?_)
  rw [hget, h.getElem?_owners hs]
  exact congrArg some (hir.trans his.symm)

/-- **A node that opens a scope owns one**, once it had its turn. -/
theorem exists_owns (hi : i ∈ done) (hkind : (t.scopeKind? i).isSome) : ∃ s, t.Owns i s := by
  have hmem : i ∈ t.assignment.scopes.tail.map (·.node) := by
    rw [h.owners]
    exact List.mem_filter.mpr ⟨hi, hkind⟩
  obtain ⟨s, hs⟩ := List.mem_iff_getElem?.mp hmem
  obtain ⟨hlt, -⟩ := List.getElem?_eq_some_iff.mp hs
  have hsize : s + 1 < t.scopes.size := by
    rw [List.length_map, List.length_tail] at hlt
    exact Nat.add_lt_of_lt_sub hlt
  rw [h.owners, h.getElem?_owners hsize] at hs
  exact ⟨s + 1, Nat.succ_ne_zero s, hsize, Option.some.inj hs⟩

/-- A child lies in the scope that its parent owns, or in the one where its parent lies. -/
theorem child_cases (hp : p ∈ done) (hc : c ∈ t.children p) :
    (t.leavesOutside p c = true ∨ t.scopeKind? p = none) ∧ t.scopeOf c = t.scopeOf p ∨
      t.leavesOutside p c = false ∧ t.Owns p (t.scopeOf c) := by
  have hinside := h.inside p hp c hc
  unfold Inside at hinside
  split at hinside
  · rename_i hout
    rw [Bool.or_eq_true, Option.isNone_iff_eq_none] at hout
    exact .inl ⟨hout, hinside⟩
  · rename_i hin
    rw [Bool.not_eq_true, Bool.or_eq_false_iff] at hin
    have hlt : t.scopeOf c < t.scopes.size := h.lt_length c
    obtain ⟨h0, hnode⟩ := hinside
    change (t.assignment.scopes[t.scopeOf c]?).map _ = _ at hnode
    rw [Tree.getElem?_assignment hlt] at hnode
    exact .inr ⟨hin.1, h0, hlt, Option.some.inj hnode⟩

variable (hnest : t.Nested)
include hnest

/-- The first scope around a scope that is a function's or the program's is its function scope. -/
theorem find?_isFunctionScope (hs : s < t.scopes.size) :
    (t.scopeChain s).find? t.isFunctionScope = some (t.functionScope s) := by
  induction s using Nat.strongRecOn with
  | ind s ih =>
    by_cases h0 : s = 0
    · subst h0
      have hprogram : t.scope 0 = ⟨.program, 0, none, 0⟩ := by
        have := h.program
        rw [List.head?_eq_getElem?, Tree.getElem?_assignment hs] at this
        exact Option.some.inj this
      have hfound : t.isFunctionScope 0 = true := by
        rw [Tree.isFunctionScope, hprogram]
        rfl
      rw [hnest.scopeChain_zero, List.find?_cons_of_pos hfound, hnest.program.2.2]
    · have hopens := h.opens_scope h0 hs
      have hscope := hopens.functionScope_eq
      rw [hnest.scopeChain_of_opened h0 hs]
      by_cases hkind : (t.scope s).kind = .function
      · rw [List.find?_cons_of_pos (by rw [Tree.isFunctionScope, hkind]; rfl)]
        rw [hkind] at hscope
        exact congrArg some hscope.symm
      · have hprogram : (t.scope s).kind ≠ .program := fun heq =>
          Label.scopeKind?_ne_program (heq ▸ hopens.kind_eq)
        have houter : t.functionScope s = t.functionScope (t.scopeOf (t.scope s).node) := by
          rw [if_neg (by simpa using hkind)] at hscope
          exact hscope.trans (congrArg Scope.functionScope (t.getD_assignment _))
        rw [List.find?_cons_of_neg (by simp [Tree.isFunctionScope, hkind, hprogram]), houter]
        exact ih _ hopens.outer_lt (Nat.lt_trans hopens.outer_lt hs)

variable (hn : t.InPreorder) (hdone : done.Perm t.ids)
include hn hdone

/-- **What is around a node** are the scopes of the nodes around it, from the inside out, and then
the program's. -/
theorem scopeChain_eq (hi : i < t.nodes.size) :
    t.scopeChain (t.scopeOf i) = (t.enclosing i).filterMap t.ownScope? ++ [0] := by
  refine hn.of_parent (P := fun i =>
    t.scopeChain (t.scopeOf i) = (t.enclosing i).filterMap t.ownScope? ++ [0]) ?_ ?_ hi
  · rw [hnest.scopeOf_root, hnest.scopeChain_zero, Tree.enclosing, Tree.ancestors, hn.parent_root]
    rfl
  · intro p c hc ih
    have hp : p ∈ done :=
      hdone.mem_iff.mpr (List.mem_range.mpr (Tree.lt_size_of_mem_children hc))
    have hparent := hn.parent_of_mem p c hc
    rw [hn.enclosing_of_parent hparent]
    rcases h.child_cases hp hc with ⟨hout, hscope⟩ | ⟨hin, howns⟩
    · rw [hscope, ih]
      split
      · rfl
      · -- The parent opens no scope.
        rename_i hin
        have hkind := hout.resolve_left hin
        have hnone : t.ownScope? p = none := Tree.ownScope?_eq_none fun s hs => by
          have hsome := (h.of_owns hs).2
          rw [hkind] at hsome
          cases hsome
        rw [List.filterMap_cons_none hnone]
    · have hsome := Tree.ownScope?_of_owns howns fun r hr =>
        h.owns_unique (hdone.nodup_iff.mpr List.nodup_range) hr howns
      rw [if_neg (by rw [hin]; exact Bool.false_ne_true), List.filterMap_cons_some hsome,
        hnest.scopeChain_of_opened howns.1 howns.2.1, howns.2.2, ih]
      rfl

/-- What the turns of all nodes establish is lexical nesting. -/
theorem lexical : t.Lexical where
  scopeOf_lt i _ := h.lt_length i
  program := by
    rw [← h.program, List.head?_eq_getElem?]
    exact Array.getElem?_toList.symm
  parent_lt s hs h0 := ⟨_, (h.opens_scope h0 hs).outer_lt, (h.opens_scope h0 hs).parent_eq⟩
  owned i hi hkind := by
    obtain ⟨s, hs⟩ := h.exists_owns (hdone.mem_iff.mpr (List.mem_range.mpr hi)) hkind
    exact ⟨s, hs, fun r hr => h.owns_unique (hdone.nodup_iff.mpr List.nodup_range) hr hs⟩
  owner i s hs := by
    obtain ⟨hi, hkind⟩ := h.of_owns hs
    exact ⟨List.mem_range.mp (hdone.mem_iff.mp hi), hkind⟩
  scopeChain_parent s hs := by
    by_cases h0 : s = 0
    · rw [h0, hnest.scopeChain_zero, hnest.program.1]
      rfl
    · rw [hnest.scopeChain_of_opened h0 hs, (h.opens_scope h0 hs).parent_eq]
      rfl
  scopeChain_eq i hi := h.scopeChain_eq hnest hn hdone hi
  functionScope_eq s hs := h.find?_isFunctionScope hnest hs

end Assignment.Sound

/-- A scope lies in one that was opened earlier. -/
theorem Tree.Lexical.lt_of_parent {t : Tree} (h : t.Lexical) {r s : ScopeId}
    (hs : s < t.scopes.size) (hparent : (t.scope s).parent = some r) : r < s := by
  by_cases h0 : s = 0
  · rw [h0, scope, Array.getD_eq_getD_getElem?, h.program] at hparent
    cases hparent
  · obtain ⟨p, hlt, hp⟩ := h.parent_lt s hs h0
    rwa [Option.some.inj (hparent.symm.trans hp)]

/-- **The scopes of the tree of a concrete tree are lexical.** -/
theorem Tree.lexical_ofConcrete (l : Language) (s : Bytes) (root : Concrete) :
    (ofConcrete l s root).Lexical := by
  obtain ⟨done, hdone, hsound⟩ := exists_sound l s root
  exact hsound.lexical (nested_ofConcrete l s root) (inPreorder_ofConcrete l s root) hdone

end Declutter
