import Declutter.Binding.Declared
import Declutter.Proofs.Expression.Place

/-!
# Statements

The statements that consist of one expression, how they are written, and where a name stands in
them.

## Main definitions

* `Statement.expr`, `Statement.names` — the expression of a statement, and the names in it.
* `Tree.DenotesStatement` — whether a node is written as a statement.

## Main results

* `Machine.run_substitute` — statements of one form do the same if their expressions do.
* `Tree.DenotesStatement.exists_context` — the place of a name in a statement.
-/

namespace Declutter

namespace Statement

/-- The expression that a statement evaluates. -/
def expr : Statement → Expr
  | expression e | «return» e | declare _ e => e

/-- The names that a statement mentions. -/
def names : Statement → List NodeId
  | expression e | «return» e => e.names
  | declare n e => n :: e.names

theorem names_expr_subset (s : Statement) : s.expr.names ⊆ s.names := by
  cases s with
  | expression e | «return» e => exact List.Subset.refl _
  | declare n e => exact List.subset_cons_self _ _

/-- A statement with a value in the place of a name mentions nothing else than both. -/
theorem mem_names_substitute {s : Statement} {usage n : NodeId} {value : Expr}
    (h : n ∈ (s.substitute usage value).names) : n ∈ s.names ∨ n ∈ value.names := by
  cases s with
  | expression e | «return» e => exact Expr.mem_names_substitute h
  | declare m e =>
    rcases List.mem_cons.mp h with rfl | h
    · exact .inl (.head _)
    · exact (Expr.mem_names_substitute h).imp_left (.tail _)

end Statement

namespace Machine

variable {Val Event : Type} {M : Machine Val Event} {key key' : NodeId → Key}

/-- A statement depends only on what the names that it mentions refer to. -/
theorem run_key {s : Statement} {state : State Val Event} (h : ∀ n ∈ s.names, key n = key' n) :
    M.run key s state = M.run key' s state := by
  cases s with
  | expression e | «return» e => exact eval_key state h
  | declare n e =>
    rw [run, run, eval_key state fun m hm => h m (.tail _ hm), h n (.head _)]

/-- Statements of one form do the same if their expressions do. -/
theorem run_substitute {s : Statement} {usage : NodeId} {value : Expr}
    {state state' : State Val Event}
    (h : M.Same (M.eval key (.substitute usage value s.expr) state) (M.eval key s.expr state')) :
    M.Same (M.run key (s.substitute usage value) state) (M.run key s state') := by
  cases s with
  | expression e | «return» e => exact h
  | declare n e =>
    refine ⟨h.1, ?_⟩
    have hassign := h.2.assign (key n) (M.eval key (.substitute usage value e) state).1
    have hvalue : (M.eval key (.substitute usage value e) state).1 = (M.eval key e state').1 := h.1
    rw [hvalue] at hassign
    rw [Statement.substitute, run, run, hvalue]
    exact hassign

end Machine

/-! ### How statements are written -/

namespace Tree

/-- Whether a node is written as a statement. -/
def DenotesStatement (t : Tree) (i : NodeId) : Statement → Prop
  | .expression e => t.kind i = .expressionStatement ∧ ∃ c, t.children i = [c] ∧ t.Denotes c e
  | .return e => t.kind i = .returnStatement ∧ ∃ c, t.children i = [c] ∧ t.Denotes c e
  | .declare n e =>
    t.kind i = .variableDeclaration ∧ (t.keyword i = some "const" ∨ t.keyword i = some "let") ∧
      ∃ d c, t.children i = [d] ∧ t.kind d = .declarator ∧ t.children d = [n, c] ∧
        t.hasField n "name" = true ∧ t.kind n = .identifier ∧ t.children n = [] ∧
        t.hasField c "value" = true ∧ t.Denotes c e

def decidableDenotesStatement (t : Tree) (i : NodeId) :
    (s : Statement) → Decidable (t.DenotesStatement i s)
  | .expression e =>
    inferInstanceAs (Decidable (t.kind i = .expressionStatement ∧
      ∃ c, t.children i = [c] ∧ t.Denotes c e))
  | .return e =>
    inferInstanceAs (Decidable (t.kind i = .returnStatement ∧
      ∃ c, t.children i = [c] ∧ t.Denotes c e))
  | .declare n e =>
    decidable_of_iff (t.kind i = .variableDeclaration ∧
      (t.keyword i = some "const" ∨ t.keyword i = some "let") ∧
      ∃ d, t.children i = [d] ∧ t.kind d = .declarator ∧ ∃ m c, t.children d = [m, c] ∧ m = n ∧
        t.hasField n "name" = true ∧ t.kind n = .identifier ∧ t.children n = [] ∧
        t.hasField c "value" = true ∧ t.Denotes c e) (by simp [DenotesStatement])

instance (t : Tree) (i : NodeId) (s : Statement) : Decidable (t.DenotesStatement i s) :=
  decidableDenotesStatement t i s

variable {t : Tree} {i u n : NodeId} {s : Statement}

/-- The names of a statement lie within it, and are written as identifiers. -/
theorem DenotesStatement.bounds (hn : t.InPreorder) (h : t.DenotesStatement i s)
    (hmem : n ∈ s.names) : (i ≤ n ∧ n < t.stop i) ∧ t.kind n = .identifier := by
  have hname : ∀ {c : NodeId} {e : Expr}, t.Denotes c e → n ∈ e.names →
      (c ≤ n ∧ n < t.stop c) ∧ t.kind n = .identifier := fun hd hm =>
    ⟨hd.bounds hn hm, (hd.mem_visited (enters_all hn) hm).2⟩
  cases s with
  | expression e | «return» e =>
    obtain ⟨-, c, hc, hd⟩ := h
    obtain ⟨hb, hk⟩ := hname hd hmem
    exact ⟨hn.within_parent (by rw [hc]; exact .head _) hb, hk⟩
  | declare m e =>
    obtain ⟨-, -, d, c, hi, -, hc, -, hkind, -, -, hd⟩ := h
    have hdm : d ∈ t.children i := by rw [hi]; exact .head _
    rcases List.mem_cons.mp hmem with rfl | hmem
    · -- The name that is declared.
      have hlt := hn.lt_stop (lt_size_of_kind (i := n) (by rw [hkind]; decide))
      exact ⟨hn.within_parent hdm (hn.within_parent (by rw [hc]; exact .head _)
        ⟨Nat.le_refl n, hlt⟩), hkind⟩
    · obtain ⟨hb, hk⟩ := hname hd hmem
      exact ⟨hn.within_parent hdm (hn.within_parent (by rw [hc]; simp) hb), hk⟩

/-- **The place of a name** in a statement that does not declare it. -/
theorem DenotesStatement.exists_context (hn : t.InPreorder) (hu : t.IsRead u)
    (h : t.DenotesStatement i s) (hiu : i ≤ u ∧ u < t.stop i)
    (hdeclared : ∀ n e, s = .declare n e → u ≠ n) :
    ∃ d : Context, s.expr = d.plug (.name u) ∧ t.Locates u i d := by
  cases s with
  | expression e | «return» e =>
    obtain ⟨hkind, c, hc, hd⟩ := h
    have hi : i < t.nodes.size := lt_size_of_kind (by rw [hkind]; decide)
    obtain ⟨x, hx⟩ := hu.exists_through hn (by rw [hkind]; decide) hi hiu
    obtain rfl : x = c := by simpa [hc] using hx.mem
    obtain ⟨d, heq, hplace⟩ := hd.exists_context hn hu hx.within
    exact ⟨d, heq, hplace.only hn hu.lt_size hx⟩
  | declare m e =>
    obtain ⟨hkind, -, d, c, hi, hdkind, hc, -, hmkind, hmc, -, hd⟩ := h
    have hisize : i < t.nodes.size := lt_size_of_kind (by rw [hkind]; decide)
    obtain ⟨x, hx⟩ := hu.exists_through hn (by rw [hkind]; decide) hisize hiu
    obtain rfl : x = d := by simpa [hi] using hx.mem
    have hxsize := hn.lt_size_of_mem hx.mem
    obtain ⟨y, hy⟩ := hu.exists_through hn (by rw [hdkind]; decide) hxsize hx.within
    have hcases : y = m ∨ y = c := by simpa [hc] using hy.mem
    rcases hcases with rfl | rfl
    · -- The usage is not the name that is declared.
      have huy := IsRead.eq_of_childless hn (hn.lt_size_of_mem hy.mem) hmc hy.within
      exact absurd huy (hdeclared y e rfl)
    · obtain ⟨d, heq, hplace⟩ := hd.exists_context hn hu hy.within
      exact ⟨d, heq, (hplace.only hn hu.lt_size hy).only hn hu.lt_size hx⟩

/-- The name that a statement declares is a declared name. -/
theorem DenotesStatement.exists_declared (hn : t.InPreorder) {e : Expr}
    (h : t.DenotesStatement i (.declare n e)) : ∃ new ∈ t.declared, new.nameNode = n := by
  obtain ⟨hkind, -, d, c, hi, hdkind, hc, hname, hnkind, -⟩ := h
  have hsize : i < t.nodes.size := lt_size_of_kind (by rw [hkind]; decide)
  have hnsize : n < t.nodes.size := lt_size_of_kind (by rw [hnkind]; decide)
  have hchild : t.child? d "name" = some n := by
    rw [child?, hc]
    exact List.find?_cons_of_pos hname
  have hleaf : n ∈ t.patternNames n := by
    refine List.mem_filter.mpr
      ⟨(hn.mem_subtree_iff hnsize).mpr ⟨Nat.le_refl n, hn.lt_stop hnsize⟩, ?_⟩
    rw [isNameLeaf, hnkind, pathUp_self]
    simp
  have hvariables : ∃ new ∈ t.declaredVariables i, new.nameNode = n := by
    unfold declaredVariables
    dsimp only
    rw [hi, List.filter_cons_of_pos (by rw [hdkind]; rfl), List.flatMap_cons, hchild]
    exact ⟨_, List.mem_append_left _ (List.mem_map_of_mem hleaf), rfl⟩
  obtain ⟨new, hnew, heq⟩ := hvariables
  refine ⟨new, List.mem_flatMap.mpr ⟨i, List.mem_range.mpr hsize, ?_⟩, heq⟩
  rw [declaredAt, hkind]
  exact hnew

end Tree

end Declutter
