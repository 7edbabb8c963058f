import Declutter.Proofs.Expression.Context
import Declutter.Proofs.Syntax.Walk

/-!
# Expressions as they are written

Which nodes of a program are written as expressions of the core, and what the questions that the
analyses ask of a node say about its expression: an answer that is on the safe side for the node is
one for the expression.

## Main definitions

* `Tree.Denotes` — whether a node is written as an expression.

## Main results

* `Tree.Denotes.names_subset` — a walk through an expression meets its names.
* `Tree.Denotes.effectless` — a walk that meets no effect shows that there is none.
-/

namespace Declutter

/-- The kinds of the nodes that have parts in the core. -/
def Kind.isCompound : Kind → Bool
  | .parenthesized | .unary | .binary | .ternary | .assignment | .call | .arguments => true
  | _ => false

namespace Tree

mutual

/-- Whether a node is written as an expression. -/
def Denotes (t : Tree) (i : NodeId) : Expr → Prop
  | .literal text =>
    t.kind i = .literal ∧ t.text i = text ∧ ∀ n ∈ t.subtree i, n ≠ i → t.isReferenceNode n = false
  | .name n => t.kind i = .identifier ∧ t.children i = [] ∧ i = n
  | .parenthesized e => t.kind i = .parenthesized ∧ ∃ c, t.children i = [c] ∧ t.Denotes c e
  | .unary op e =>
    t.kind i = .unary ∧ t.operator i = some op ∧ op ≠ "delete" ∧
      ∃ c, t.children i = [c] ∧ t.Denotes c e
  | .binary op left right =>
    t.kind i = .binary ∧ t.operator i = some op ∧ ∃ l r, t.children i = [l, r] ∧
      t.hasField r "right" = true ∧ t.Denotes l left ∧ t.Denotes r right
  | .ternary condition consequence alternative =>
    t.kind i = .ternary ∧ ∃ c a b, t.children i = [c, a, b] ∧
      t.hasField a "consequence" = true ∧ t.hasField b "alternative" = true ∧
      t.Denotes c condition ∧ t.Denotes a consequence ∧ t.Denotes b alternative
  | .assign target e =>
    t.kind i = .assignment ∧ ∃ c, t.children i = [target, c] ∧
      t.hasField target "left" = true ∧ t.kind target = .identifier ∧ t.children target = [] ∧
      t.Denotes c e
  | .call callee text optional arguments =>
    t.kind i = .call ∧ t.calleeName i = text ∧ t.optionalLink i = optional ∧
      ∃ a, t.children i = [callee, a] ∧ t.hasField callee "function" = true ∧
        t.kind callee = .identifier ∧ t.children callee = [] ∧
        t.hasField a "arguments" = true ∧ t.kind a = .arguments ∧
        t.DenotesAll (t.children a) arguments

/-- Whether some nodes are written as some expressions, one by one. -/
def DenotesAll (t : Tree) : List NodeId → List Expr → Prop
  | [], [] => True
  | i :: is, e :: es => t.Denotes i e ∧ t.DenotesAll is es
  | _, _ => False

end

/-! ### Whether a node is written so can be decided -/

section

variable {α : Type}

instance decidableExistsOne {p : α → Prop} [DecidablePred p] :
    (l : List α) → Decidable (∃ a, l = [a] ∧ p a)
  | [a] => decidable_of_iff (p a) (by simp)
  | [] | _ :: _ :: _ => .isFalse (by simp)

instance decidableExistsTwo {p : α → α → Prop} [∀ a, DecidablePred (p a)] :
    (l : List α) → Decidable (∃ a b, l = [a, b] ∧ p a b)
  | [a, b] =>
    decidable_of_iff (p a b)
      ⟨fun h => ⟨a, b, rfl, h⟩, fun ⟨_, _, heq, h⟩ => by cases heq; exact h⟩
  | [] | [_] | _ :: _ :: _ :: _ => .isFalse (by simp)

instance decidableExistsThree {p : α → α → α → Prop} [∀ a b, DecidablePred (p a b)] :
    (l : List α) → Decidable (∃ a b c, l = [a, b, c] ∧ p a b c)
  | [a, b, c] =>
    decidable_of_iff (p a b c)
      ⟨fun h => ⟨a, b, c, rfl, h⟩, fun ⟨_, _, _, heq, h⟩ => by cases heq; exact h⟩
  | [] | [_] | [_, _] | _ :: _ :: _ :: _ :: _ => .isFalse (by simp)

end

mutual

/-- The decision follows the expression, which says how many children there are to be. -/
def decidableDenotes (t : Tree) : (e : Expr) → (i : NodeId) → Decidable (t.Denotes i e)
  | .literal text, i =>
    inferInstanceAs (Decidable (t.kind i = .literal ∧ t.text i = text ∧
      ∀ n ∈ t.subtree i, n ≠ i → t.isReferenceNode n = false))
  | .name n, i =>
    inferInstanceAs (Decidable (t.kind i = .identifier ∧ t.children i = [] ∧ i = n))
  | .parenthesized e, i =>
    have := decidableDenotes t e
    inferInstanceAs (Decidable (t.kind i = .parenthesized ∧
      ∃ c, t.children i = [c] ∧ t.Denotes c e))
  | .unary op e, i =>
    have := decidableDenotes t e
    inferInstanceAs (Decidable (t.kind i = .unary ∧ t.operator i = some op ∧ op ≠ "delete" ∧
      ∃ c, t.children i = [c] ∧ t.Denotes c e))
  | .binary op left right, i =>
    have := decidableDenotes t left
    have := decidableDenotes t right
    inferInstanceAs (Decidable (t.kind i = .binary ∧ t.operator i = some op ∧
      ∃ l r, t.children i = [l, r] ∧
        t.hasField r "right" = true ∧ t.Denotes l left ∧ t.Denotes r right))
  | .ternary condition consequence alternative, i =>
    have := decidableDenotes t condition
    have := decidableDenotes t consequence
    have := decidableDenotes t alternative
    inferInstanceAs (Decidable (t.kind i = .ternary ∧ ∃ c a b, t.children i = [c, a, b] ∧
      t.hasField a "consequence" = true ∧ t.hasField b "alternative" = true ∧
      t.Denotes c condition ∧ t.Denotes a consequence ∧ t.Denotes b alternative))
  | .assign target e, i =>
    have := decidableDenotes t e
    decidable_of_iff (t.kind i = .assignment ∧ ∃ n c, t.children i = [n, c] ∧ n = target ∧
      t.hasField target "left" = true ∧ t.kind target = .identifier ∧ t.children target = [] ∧
      t.Denotes c e) (by simp [Denotes])
  | .call callee text optional arguments, i =>
    have := decidableDenotesAll t arguments
    decidable_of_iff (t.kind i = .call ∧ t.calleeName i = text ∧ t.optionalLink i = optional ∧
      ∃ f a, t.children i = [f, a] ∧ f = callee ∧ t.hasField callee "function" = true ∧
        t.kind callee = .identifier ∧ t.children callee = [] ∧
        t.hasField a "arguments" = true ∧ t.kind a = .arguments ∧
        t.DenotesAll (t.children a) arguments) (by simp [Denotes])

def decidableDenotesAll (t : Tree) :
    (es : List Expr) → (is : List NodeId) → Decidable (t.DenotesAll is es)
  | [], [] => .isTrue trivial
  | e :: es, i :: is =>
    have := decidableDenotes t e i
    have := decidableDenotesAll t es is
    inferInstanceAs (Decidable (t.Denotes i e ∧ t.DenotesAll is es))
  | [], _ :: _ | _ :: _, [] => .isFalse id

end

instance (t : Tree) (i : NodeId) (e : Expr) : Decidable (t.Denotes i e) := decidableDenotes t e i

/-! ### The nodes of an expression -/

theorem lt_size_of_kind {t : Tree} {i : Nat} (h : t.kind i ≠ .program) : i < t.nodes.size := by
  by_contra hge
  rw [kind, node_of_size_le (Nat.le_of_not_lt hge)] at h
  exact h rfl

namespace Denotes

variable {t : Tree} {i : NodeId} {e : Expr}

theorem kind_mem (h : t.Denotes i e) :
    t.kind i ∈ [Kind.literal, .identifier, .parenthesized, .unary, .binary, .ternary, .assignment,
      .call] := by
  cases e with
  | literal _ | name _ | parenthesized _ | unary _ _ | binary _ _ _ | ternary _ _ _ | assign _ _
  | call _ _ _ _ =>
    rw [h.1]
    decide

theorem lt_size (h : t.Denotes i e) : i < t.nodes.size := by
  refine lt_size_of_kind fun hkind => ?_
  have := h.kind_mem
  rw [hkind] at this
  exact absurd this (by decide)

end Denotes

/-! ### Walks through an expression -/

/-- Whether a walk through a numbered tree enters the nodes that have parts. -/
structure Enters (t : Tree) (closed : NodeId → Bool) : Prop where
  numbered : t.InPreorder
  isOpen : ∀ m, (t.kind m).isCompound = true → closed m = false

variable {t : Tree} {closed : NodeId → Bool} {met : List NodeId}

/-- A pure call of a name is listed by the text of the name. -/
theorem contains_of_isPureCall {pure : List String} {i f : NodeId} (hkind : t.kind i = .call)
    (hf : t.child? i "function" = some f) (hname : t.kind f = .identifier)
    (h : t.isPureCall pure i = true) : pure.contains (t.calleeName i) = true := by
  unfold isPureCall at h
  dsimp only at h
  split at h
  · cases h
  split at h
  · assumption
  split at h
  · -- The name of a method would make the callee an access.
    rename_i hmember
    rw [callee?, hkind, beq_self_eq_true, if_pos rfl, hf, Option.any_some, hname] at hmember
    exact absurd hmember (by decide)
  · cases h

/-- A walk through a node with parts goes through each of them. -/
theorem Enters.visited_child (hw : t.Enters closed) {i c : NodeId}
    (hi : (t.kind i).isCompound = true) (hmet : t.visited closed i ⊆ met)
    (hc : c ∈ t.children i) : t.visited closed c ⊆ met :=
  List.Subset.trans (hw.numbered.visited_subset (hw.isOpen i hi) hc) hmet

mutual

/-- **A walk meets all names of an expression** if it enters the nodes that have parts. -/
theorem Denotes.names_subset (hw : t.Enters closed) : ∀ {i : NodeId} {e : Expr}, t.Denotes i e →
    t.visited closed i ⊆ met → e.names ⊆ met.filter (t.kind · == .identifier)
  | _, .literal _, _, _ => List.nil_subset _
  | i, .name n, h, hmet => by
    have hi := hmet (hw.numbered.self_mem_visited h.lt_size)
    obtain ⟨hkind, -, heq⟩ := h
    rw [Expr.names, ← heq, List.cons_subset]
    exact ⟨List.mem_filter.mpr ⟨hi, by rw [hkind]; rfl⟩, List.nil_subset _⟩
  | i, .parenthesized e, ⟨hkind, c, hc, h⟩, hmet =>
    names_subset hw (e := e) h
      (hw.visited_child (by rw [hkind]; rfl) hmet (by rw [hc]; exact .head _))
  | i, .unary op e, ⟨hkind, _, _, c, hc, h⟩, hmet =>
    names_subset hw (e := e) h
      (hw.visited_child (by rw [hkind]; rfl) hmet (by rw [hc]; exact .head _))
  | i, .binary op e f, ⟨hkind, _, l, r, hc, _, hl, hr⟩, hmet => by
    have hchild : ∀ c ∈ [l, r], t.visited closed c ⊆ met := fun c hm =>
      hw.visited_child (by rw [hkind]; rfl) hmet (hc ▸ hm)
    exact List.append_subset.mpr
      ⟨names_subset hw hl (hchild l (by simp)), names_subset hw hr (hchild r (by simp))⟩
  | i, .ternary e f g, ⟨hkind, c, a, b, hc, _, _, hd, ha, hb⟩, hmet => by
    have hchild : ∀ d ∈ [c, a, b], t.visited closed d ⊆ met := fun d hm =>
      hw.visited_child (by rw [hkind]; rfl) hmet (hc ▸ hm)
    exact List.append_subset.mpr
      ⟨List.append_subset.mpr
        ⟨names_subset hw hd (hchild c (by simp)), names_subset hw ha (hchild a (by simp))⟩,
        names_subset hw hb (hchild b (by simp))⟩
  | i, .assign n e, ⟨hkind, c, hc, _, hname, _, h⟩, hmet => by
    have hchild : ∀ d ∈ [n, c], t.visited closed d ⊆ met := fun d hm =>
      hw.visited_child (by rw [hkind]; rfl) hmet (hc ▸ hm)
    have hn : n ∈ met := hchild n (by simp)
      (hw.numbered.self_mem_visited (lt_size_of_kind (by rw [hname]; decide)))
    exact List.cons_subset.mpr ⟨List.mem_filter.mpr ⟨hn, by rw [hname]; rfl⟩,
      names_subset hw h (hchild c (by simp))⟩
  | i, .call f _ _ es, ⟨hkind, _, _, a, hc, _, hname, _, _, ha, hes⟩, hmet => by
    have hchild : ∀ d ∈ [f, a], t.visited closed d ⊆ met := fun d hm =>
      hw.visited_child (by rw [hkind]; rfl) hmet (hc ▸ hm)
    have hf : f ∈ met := hchild f (by simp)
      (hw.numbered.self_mem_visited (lt_size_of_kind (by rw [hname]; decide)))
    exact List.cons_subset.mpr ⟨List.mem_filter.mpr ⟨hf, by rw [hname]; rfl⟩,
      namesAll_subset hw hes fun c hc =>
        hw.visited_child (by rw [ha]; rfl) (hchild a (by simp)) hc⟩

theorem Denotes.namesAll_subset (hw : t.Enters closed) : ∀ {is : List NodeId} {es : List Expr},
    t.DenotesAll is es → (∀ c ∈ is, t.visited closed c ⊆ met) →
      Expr.namesAll es ⊆ met.filter (t.kind · == .identifier)
  | [], [], _, _ => List.nil_subset _
  | _ :: _, _ :: _, ⟨h, hs⟩, hmet =>
    List.append_subset.mpr ⟨names_subset hw h (hmet _ (.head _)),
      namesAll_subset hw hs fun c hc => hmet c (.tail _ hc)⟩

end

/-- The names of an expression are met, and are written as identifiers. -/
theorem Denotes.mem_visited (hw : t.Enters closed) {i n : NodeId} {e : Expr} (h : t.Denotes i e)
    (hn : n ∈ e.names) : n ∈ t.visited closed i ∧ t.kind n = .identifier := by
  have hmem := List.mem_filter.mp (h.names_subset hw (List.Subset.refl _) hn)
  exact ⟨hmem.1, by simpa using hmem.2⟩

mutual

/-- **An expression has no effects** if a walk through it meets no assignment, and pure calls
only. -/
theorem Denotes.effectless (hw : t.Enters closed) {pure : List String}
    (hmet : ∀ m ∈ met, t.kind m ≠ .assignment ∧ (t.kind m = .call → t.isPureCall pure m = true)) :
    ∀ {i : NodeId} {e : Expr}, t.Denotes i e → t.visited closed i ⊆ met → e.Effectless pure
  | _, .literal _, _, _ | _, .name _, _, _ => trivial
  | i, .parenthesized e, ⟨hkind, c, hc, h⟩, hsub =>
    effectless hw hmet (e := e) h
      (hw.visited_child (by rw [hkind]; rfl) hsub (by rw [hc]; exact .head _))
  | i, .unary op e, ⟨hkind, _, _, c, hc, h⟩, hsub =>
    effectless hw hmet (e := e) h
      (hw.visited_child (by rw [hkind]; rfl) hsub (by rw [hc]; exact .head _))
  | i, .binary op e f, ⟨hkind, _, l, r, hc, _, hl, hr⟩, hsub => by
    have hchild : ∀ c ∈ [l, r], t.visited closed c ⊆ met := fun c hm =>
      hw.visited_child (by rw [hkind]; rfl) hsub (hc ▸ hm)
    exact ⟨effectless hw hmet hl (hchild l (by simp)), effectless hw hmet hr (hchild r (by simp))⟩
  | i, .ternary e f g, ⟨hkind, c, a, b, hc, _, _, hd, ha, hb⟩, hsub => by
    have hchild : ∀ d ∈ [c, a, b], t.visited closed d ⊆ met := fun d hm =>
      hw.visited_child (by rw [hkind]; rfl) hsub (hc ▸ hm)
    exact ⟨effectless hw hmet hd (hchild c (by simp)), effectless hw hmet ha (hchild a (by simp)),
      effectless hw hmet hb (hchild b (by simp))⟩
  | i, .assign n e, h, hsub => by
    -- The walk would have met the assignment.
    have hi := hsub (hw.numbered.self_mem_visited h.lt_size)
    exact absurd h.1 (hmet i hi).1
  | i, .call f text _ es, h, hsub => by
    have hi := hsub (hw.numbered.self_mem_visited h.lt_size)
    obtain ⟨hkind, htext, -, a, hc, hfield, hname, -, -, ha, hes⟩ := h
    have hcallee : t.child? i "function" = some f := by
      rw [child?, hc]
      exact List.find?_cons_of_pos hfield
    refine ⟨?_, effectlessAll hw hmet hes fun c hm => hw.visited_child (by rw [ha]; rfl)
      (hw.visited_child (by rw [hkind]; rfl) hsub (by rw [hc]; simp)) hm⟩
    rw [← htext]
    exact contains_of_isPureCall hkind hcallee hname ((hmet i hi).2 hkind)

theorem Denotes.effectlessAll (hw : t.Enters closed) {pure : List String}
    (hmet : ∀ m ∈ met, t.kind m ≠ .assignment ∧ (t.kind m = .call → t.isPureCall pure m = true)) :
    ∀ {is : List NodeId} {es : List Expr}, t.DenotesAll is es →
      (∀ c ∈ is, t.visited closed c ⊆ met) → Expr.EffectlessAll pure es
  | [], [], _, _ => trivial
  | _ :: _, _ :: _, ⟨h, hs⟩, hsub =>
    ⟨effectless hw hmet h (hsub _ (.head _)),
      effectlessAll hw hmet hs fun c hc => hsub c (.tail _ hc)⟩

end

/-! ### What the analyses say -/

theorem enters_all (hn : t.InPreorder) : t.Enters fun _ => false := ⟨hn, fun _ _ => rfl⟩

theorem mem_subtree_of_mem_visited (hn : t.InPreorder) {i m : NodeId} (hi : i < t.nodes.size)
    (hm : m ∈ t.visited closed i) : m ∈ t.subtree i := by
  obtain ⟨hle, hlt, -⟩ := (hn.mem_visited_iff hi).mp hm
  exact (hn.mem_subtree_iff hi).mpr ⟨hle, hlt⟩

/-- An expression without side effects has none. -/
theorem Denotes.effectless_of_hasSideEffects (hn : t.InPreorder) {i : NodeId} {e : Expr}
    {pure : List String} (h : t.Denotes i e) (hpure : t.hasSideEffects pure i = false) :
    e.Effectless pure := by
  refine h.effectless (enters_all hn) (fun m hm => ?_) (List.Subset.refl _)
  rw [hasSideEffects, List.any_eq_false] at hpure
  have hat := hpure m (mem_subtree_of_mem_visited hn h.lt_size hm)
  refine ⟨fun hkind => ?_, fun hkind => ?_⟩
  · rw [isEffectfulAt, hkind] at hat
    exact absurd rfl hat
  · rw [isEffectfulAt, hkind] at hat
    simp only [Bool.or_eq_true, not_or, beq_self_eq_true, Bool.true_or, Bool.true_and,
      Bool.not_eq_true', Bool.not_eq_false] at hat
    exact hat.2

/-- A trivially pure expression has no effects. -/
theorem Denotes.effectless_of_isTriviallyPure (hn : t.InPreorder) {i : NodeId} {e : Expr}
    {pure : List String} (h : t.Denotes i e) (htrivial : t.isTriviallyPure i = true) :
    e.Effectless pure := by
  -- The walk stays out of functions, but the core has none.
  have hw : t.Enters (t.kind · == .function) := by
    refine ⟨hn, fun m hm => ?_⟩
    cases hkind : t.kind m <;> rw [hkind] at hm <;> first | rfl | cases hm
  refine h.effectless hw (fun m hm => ?_) (List.Subset.refl _)
  have hat := List.all_eq_true.mp htrivial m hm
  refine ⟨fun hkind => ?_, fun hkind => ?_⟩
  · rw [isTrivialAt, hkind] at hat
    simp [Kind.isTrivial] at hat
  · rw [isTrivialAt, hkind] at hat
    simp [Kind.isTrivial] at hat

/-- An expression that reads only what is stable mentions only stable names. -/
theorem Denotes.isStableName (hn : t.InPreorder) {i n : NodeId} {e : Expr}
    {lookup : NodeId → Option BindingKind} (h : t.Denotes i e)
    (hstable : t.readsOnlyStable lookup i = true) (hmem : n ∈ e.names) :
    t.isStableName lookup n = true := by
  -- Nor does the core have anything at which this walk stops before the names.
  have hw : t.Enters t.endsRead := by
    refine ⟨hn, fun m hm => ?_⟩
    rw [endsRead]
    cases hkind : t.kind m <;> rw [hkind] at hm <;> first | rfl | cases hm
  obtain ⟨hvisited, hkind⟩ := h.mem_visited hw hmem
  have hat := List.all_eq_true.mp hstable n hvisited
  rw [isStableAt, hkind] at hat
  exact hat

end Tree

end Declutter
