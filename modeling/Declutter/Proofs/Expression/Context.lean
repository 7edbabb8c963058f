import Declutter.Proofs.Expression.Core
import Mathlib.Tactic.Tauto

/-!
# Places in an expression

A context is an expression with a hole.  It tells what is evaluated before the hole is reached, and
whether the hole is reached only under a condition; and this decides whether a value may be
evaluated in the hole, or in advance.

## Main definitions

* `Context`, `Context.plug` — an expression with a hole, and the expression with the hole filled.
* `Context.before`, `Context.IsConditional` — what comes before the hole.
* `Context.Admits` — the conditions under which an evaluation may move to the hole.

## Main results

* `Context.eval_plug` — evaluating in the hole is the same as evaluating in advance.
-/

namespace Declutter

/-- An expression with a hole. -/
inductive Context where
  | hole
  | parenthesized (c : Context)
  | unary (operator : String) (c : Context)
  | left (operator : String) (c : Context) (right : Expr)
  | right (operator : String) (left : Expr) (c : Context)
  | condition (c : Context) (consequence alternative : Expr)
  | consequence (condition : Expr) (c : Context) (alternative : Expr)
  | alternative (condition consequence : Expr) (c : Context)
  | assign (target : NodeId) (c : Context)
  | argument (callee : NodeId) (text : String) (optional : Bool) (earlier : List Expr)
      (c : Context) (later : List Expr)
  deriving Repr, Inhabited

namespace Context

/-- A context with its hole filled. -/
def plug (e : Expr) : Context → Expr
  | hole => e
  | parenthesized c => .parenthesized (c.plug e)
  | unary op c => .unary op (c.plug e)
  | left op c r => .binary op (c.plug e) r
  | right op l c => .binary op l (c.plug e)
  | condition c a b => .ternary (c.plug e) a b
  | consequence d c b => .ternary d (c.plug e) b
  | alternative d a c => .ternary d a (c.plug e)
  | assign n c => .assign n (c.plug e)
  | argument f text optional earlier c later =>
    .call f text optional (earlier ++ c.plug e :: later)

/-- The names that a context mentions. -/
def names : Context → List NodeId
  | hole => []
  | parenthesized c | unary _ c => c.names
  | left _ c r => c.names ++ r.names
  | right _ l c => l.names ++ c.names
  | condition c a b => c.names ++ a.names ++ b.names
  | consequence d c b => d.names ++ c.names ++ b.names
  | alternative d a c => d.names ++ a.names ++ c.names
  | assign n c => n :: c.names
  | argument f _ _ earlier c later =>
    f :: (Expr.namesAll earlier ++ (c.names ++ Expr.namesAll later))

/-- What is evaluated before the hole. -/
def before : Context → List Expr
  | hole => []
  | parenthesized c | unary _ c | left _ c _ | condition c _ _ | assign _ c => c.before
  | right _ l c => l :: c.before
  | consequence d c _ | alternative d _ c => d :: c.before
  | argument f _ _ earlier c _ => .name f :: (earlier ++ c.before)

/-- Whether the hole may not be reached. -/
def IsConditional : Context → Prop
  | hole => False
  | parenthesized c | unary _ c | left _ c _ | condition c _ _ | assign _ c => c.IsConditional
  | right op _ c => isShortCircuit op = true ∨ c.IsConditional
  | consequence .. | alternative .. => True
  | argument _ _ optional _ c _ => optional = true ∨ c.IsConditional

end Context

namespace Expr

theorem namesAll_append (es fs : List Expr) : namesAll (es ++ fs) = namesAll es ++ namesAll fs := by
  induction es with
  | nil => rfl
  | cons e es ih => rw [List.cons_append, namesAll, namesAll, ih, List.append_assoc]

theorem substituteAll_append (usage : NodeId) (value : Expr) (es fs : List Expr) :
    substituteAll usage value (es ++ fs) =
      substituteAll usage value es ++ substituteAll usage value fs := by
  induction es with
  | nil => rfl
  | cons e es ih => rw [List.cons_append, substituteAll, substituteAll, ih, List.cons_append]

mutual

/-- An expression that does not mention the name stays as it is. -/
theorem substitute_of_notMem {usage : NodeId} {value : Expr} : ∀ {e : Expr}, usage ∉ e.names →
    substitute usage value e = e
  | literal _, _ => rfl
  | name n, h => if_neg fun (heq : n = usage) => h (heq ▸ .head _)
  | parenthesized e, h => congrArg parenthesized (substitute_of_notMem (e := e) h)
  | unary op e, h => congrArg (unary op) (substitute_of_notMem (e := e) h)
  | binary op l r, h => by
    rw [names, List.mem_append, not_or] at h
    rw [substitute, substitute_of_notMem h.1, substitute_of_notMem h.2]
  | ternary c a b, h => by
    rw [names, List.mem_append, List.mem_append, not_or, not_or] at h
    rw [substitute, substitute_of_notMem h.1.1, substitute_of_notMem h.1.2,
      substitute_of_notMem h.2]
  | assign n e, h => by
    rw [names, List.mem_cons, not_or] at h
    rw [substitute, substitute_of_notMem h.2]
  | call f text optional es, h => by
    rw [names, List.mem_cons, not_or] at h
    rw [substitute, substituteAll_of_notMem h.2]

theorem substituteAll_of_notMem {usage : NodeId} {value : Expr} : ∀ {es : List Expr},
    usage ∉ namesAll es → substituteAll usage value es = es
  | [], _ => rfl
  | e :: es, h => by
    rw [namesAll, List.mem_append, not_or] at h
    rw [substituteAll, substitute_of_notMem h.1, substituteAll_of_notMem h.2]

end

mutual

/-- A substitution mentions nothing but what the expression and the value mention. -/
theorem mem_names_substitute {usage n : NodeId} {value : Expr} : ∀ {e : Expr},
    n ∈ (substitute usage value e).names → n ∈ e.names ∨ n ∈ value.names
  | literal _, h => .inl h
  | name m, h => by
    rw [substitute] at h
    split at h
    · exact .inr h
    · exact .inl h
  | parenthesized e, h => mem_names_substitute (e := e) h
  | unary _ e, h => mem_names_substitute (e := e) h
  | binary op l r, h => by
    rw [names, List.mem_append]
    rcases List.mem_append.mp h with h | h
    · exact (mem_names_substitute h).imp_left .inl
    · exact (mem_names_substitute h).imp_left .inr
  | ternary c a b, h => by
    rw [names, List.mem_append, List.mem_append]
    rcases List.mem_append.mp h with h | h
    · rcases List.mem_append.mp h with h | h
      · exact (mem_names_substitute h).imp_left fun h => .inl (.inl h)
      · exact (mem_names_substitute h).imp_left fun h => .inl (.inr h)
    · exact (mem_names_substitute h).imp_left .inr
  | assign m e, h => by
    rcases List.mem_cons.mp h with rfl | h
    · exact .inl (.head _)
    · exact (mem_names_substitute h).imp_left (.tail _)
  | call f _ _ es, h => by
    rcases List.mem_cons.mp h with rfl | h
    · exact .inl (.head _)
    · exact (mem_namesAll_substitute h).imp_left (.tail _)

theorem mem_namesAll_substitute {usage n : NodeId} {value : Expr} : ∀ {es : List Expr},
    n ∈ namesAll (substituteAll usage value es) → n ∈ namesAll es ∨ n ∈ value.names
  | e :: es, h => by
    rw [namesAll, List.mem_append]
    rcases List.mem_append.mp h with h | h
    · exact (mem_names_substitute h).imp_left .inl
    · exact (mem_namesAll_substitute h).imp_left .inr

end

end Expr

namespace Context

/-- The names of a filled context are its own and those of the filling. -/
theorem mem_names_plug {e : Expr} {n : NodeId} (c : Context) :
    n ∈ (c.plug e).names ↔ n ∈ c.names ∨ n ∈ e.names := by
  induction c with
  | hole => simp [plug, names]
  | parenthesized c ih | unary _ c ih => exact ih
  | left _ c r ih | right _ l c ih | condition c a b ih | consequence d c b ih
  | alternative d a c ih | assign m c ih =>
    simp only [plug, names, Expr.names, List.mem_append, List.mem_cons, ih]
    tauto
  | argument f text optional earlier c later ih =>
    simp only [plug, names, Expr.names, Expr.namesAll_append, Expr.namesAll, List.mem_append,
      List.mem_cons, ih]
    tauto

/-- Where the name is not mentioned elsewhere, filling the hole is substituting for it. -/
theorem substitute_plug {usage : NodeId} {value : Expr} {c : Context} (h : usage ∉ c.names) :
    Expr.substitute usage value (c.plug (.name usage)) = c.plug value := by
  induction c with
  | hole => exact if_pos rfl
  | parenthesized c ih => exact congrArg Expr.parenthesized (ih h)
  | unary op c ih => exact congrArg (Expr.unary op) (ih h)
  | left op c r ih =>
    rw [names, List.mem_append, not_or] at h
    rw [plug, Expr.substitute, ih h.1, Expr.substitute_of_notMem h.2, plug]
  | right op l c ih =>
    rw [names, List.mem_append, not_or] at h
    rw [plug, Expr.substitute, ih h.2, Expr.substitute_of_notMem h.1, plug]
  | condition c a b ih =>
    rw [names, List.mem_append, List.mem_append, not_or, not_or] at h
    rw [plug, Expr.substitute, ih h.1.1, Expr.substitute_of_notMem h.1.2,
      Expr.substitute_of_notMem h.2, plug]
  | consequence d c b ih =>
    rw [names, List.mem_append, List.mem_append, not_or, not_or] at h
    rw [plug, Expr.substitute, ih h.1.2, Expr.substitute_of_notMem h.1.1,
      Expr.substitute_of_notMem h.2, plug]
  | alternative d a c ih =>
    rw [names, List.mem_append, List.mem_append, not_or, not_or] at h
    rw [plug, Expr.substitute, ih h.2, Expr.substitute_of_notMem h.1.1,
      Expr.substitute_of_notMem h.1.2, plug]
  | assign n c ih =>
    rw [names, List.mem_cons, not_or] at h
    rw [plug, Expr.substitute, ih h.2, plug]
  | argument f text optional earlier c later ih =>
    rw [names, List.mem_cons, List.mem_append, List.mem_append, not_or, not_or, not_or] at h
    rw [plug, Expr.substitute, Expr.substituteAll_append, Expr.substituteAll, ih h.2.2.1,
      Expr.substituteAll_of_notMem h.2.1, Expr.substituteAll_of_notMem h.2.2.2, plug]

/-! ### Moving an evaluation -/

variable {Val Event : Type} {M : Machine Val Event} {key : NodeId → Key}

/-- Whether the evaluation of a value may move to the hole of a context: nothing before the hole has
effects; a value with effects does not move past a condition, and what it moves past mentions only
stable names to which it does not assign. -/
structure Admits (M : Machine Val Event) (key : NodeId → Key) (c : Context) (value : Expr) :
    Prop where
  hidden : ∀ n ∈ c.names, key n ≠ M.hidden
  effectless : ∀ e ∈ c.before, e.Effectless M.pure
  conditional : c.IsConditional → value.Effectless M.pure
  reads : value.Effectless M.pure ∨
    ∀ e ∈ c.before, ∀ n ∈ e.names, M.isStable (key n) = true ∧ ∀ m ∈ value.targets, key m ≠ key n

section

variable {value : Expr} {s : State Val Event} {c : Context}

/-- A value without effects in advance changes nothing but the hidden name. -/
theorem agree_declared (h : value.Effectless M.pure) :
    s.Agree M.hidden (M.declared key value s) := by
  unfold Machine.declared
  rw [M.eval_of_effectless s h]
  exact s.agree_assign _

/-- A name that is mentioned before the hole has the same value before and after. -/
theorem Admits.env_eq (h : c.Admits M key value) {e : Expr} (he : e ∈ c.before) {n : NodeId}
    (hn : n ∈ e.names) (hhidden : key n ≠ M.hidden) :
    s.env (key n) = (M.declared key value s).env (key n) := by
  rcases h.reads with heffectless | hreads
  · exact (agree_declared heffectless).env _ hhidden
  · obtain ⟨hstable, htargets⟩ := hreads e he n hn
    have hkept : (M.eval key value s).2.env (key n) = s.env (key n) :=
      M.eval_env (.inr hstable) s htargets
    exact hkept.symm.trans (Function.update_of_ne hhidden ..).symm

theorem Admits.inner {d : Context} (h : c.Admits M key value) (hnames : d.names ⊆ c.names)
    (hbefore : d.before ⊆ c.before) (hconditional : d.IsConditional → c.IsConditional) :
    d.Admits M key value where
  hidden n hn := h.hidden n (hnames hn)
  effectless e he := h.effectless e (hbefore he)
  conditional hd := h.conditional (hconditional hd)
  reads := h.reads.imp_right fun hreads e he => hreads e (hbefore he)

/-- An operand before the hole has the same value before and after, and no effects. -/
theorem Admits.operand (h : c.Admits M key value) {e : Expr} (he : e ∈ c.before)
    (hnames : e.names ⊆ c.names) :
    (M.eval key e s).1 = (M.eval key e (M.declared key value s)).1 ∧ (M.eval key e s).2 = s ∧
      (M.eval key e (M.declared key value s)).2 = M.declared key value s := by
  have heffectless := h.effectless e he
  refine ⟨?_, M.eval_of_effectless s heffectless, M.eval_of_effectless _ heffectless⟩
  exact M.eval_congr s _ heffectless fun n hn => h.env_eq he hn (h.hidden n (hnames hn))

/-- So do the arguments before the hole. -/
theorem Admits.operands (h : c.Admits M key value) (es : List Expr) (hes : es ⊆ c.before)
    (hnames : Expr.namesAll es ⊆ c.names) :
    (M.evalAll key es s).1 = (M.evalAll key es (M.declared key value s)).1 ∧
      (M.evalAll key es s).2 = s ∧
      (M.evalAll key es (M.declared key value s)).2 = M.declared key value s := by
  induction es with
  | nil => exact ⟨rfl, rfl, rfl⟩
  | cons e es ih =>
    rw [Expr.namesAll, List.append_subset] at hnames
    rw [List.cons_subset] at hes
    obtain ⟨hvalue, hstate, hstate'⟩ := h.operand (s := s) hes.1 hnames.1
    obtain ⟨hvalues, hstates, hstates'⟩ := ih hes.2 hnames.2
    rw [Machine.evalAll, Machine.evalAll, hstate, hstate', hvalue, hvalues]
    exact ⟨rfl, hstates, hstates'⟩

/-- When the hole is not reached, it does not matter that the value was evaluated in advance. -/
theorem Admits.agree (h : c.Admits M key value) (hconditional : c.IsConditional) :
    s.Agree M.hidden (M.declared key value s) := agree_declared (h.conditional hconditional)

/-- **Evaluating in the hole is the same as evaluating in advance** and reading the hidden name in
the hole. -/
theorem eval_plug {hole : NodeId} (hhole : key hole = M.hidden)
    (h : c.Admits M key value) :
    M.Same (M.eval key (c.plug value) s)
      (M.eval key (c.plug (.name hole)) (M.declared key value s)) := by
  induction c with
  | hole =>
    -- On one side the value itself, on the other the name that holds it.
    refine ⟨?_, State.agree_assign _ _⟩
    rw [plug, plug, Machine.eval, hhole]
    simp [Machine.declared, State.assign]
  | parenthesized c ih => exact ih (h.inner (fun _ hn => hn) (fun _ he => he) id)
  | unary op c ih =>
    have hc := ih (h.inner (fun _ hn => hn) (fun _ he => he) id)
    exact ⟨congrArg (M.unary op) hc.1, hc.2⟩
  | left op c r ih =>
    -- The right side comes after the hole; it does not see the hidden name.
    have hc := ih (h.inner (List.subset_append_left _ _) (fun _ he => he) id)
    have hr := M.eval_agree (e := r) (fun n hn => h.hidden n (List.mem_append_right _ hn)) hc.2
    rw [plug, plug, Machine.eval, Machine.eval]
    dsimp only
    rw [hc.1]
    split
    · exact hc
    · exact ⟨congrArg (M.combine op _) hr.1, hr.2⟩
  | right op l c ih =>
    have hc := ih (h.inner (List.subset_append_right _ _) (List.subset_cons_self _ _) .inr)
    obtain ⟨hl, hstate, hstate'⟩ := h.operand (s := s) (.head _) (List.subset_append_left _ _)
    rw [plug, plug, Machine.eval, Machine.eval]
    dsimp only
    rw [hstate, hstate', hl]
    split
    · -- The hole is not reached, so the operator is one that may pass over its right side.
      rename_i hstops
      have hshort : isShortCircuit op = true := by
        rw [Machine.stopsAt, Bool.and_eq_true] at hstops
        exact hstops.1
      refine ⟨hl, ?_⟩
      rw [hstate, hstate']
      exact h.agree (.inl hshort)
    · exact ⟨congrArg (M.combine op _) hc.1, hc.2⟩
  | condition c a b ih =>
    have hc := ih (h.inner
      (fun _ hn => List.mem_append_left _ (List.mem_append_left _ hn)) (fun _ he => he) id)
    rw [plug, plug, Machine.eval, Machine.eval, hc.1]
    split
    · exact M.eval_agree (fun n hn => h.hidden n
        (List.mem_append_left _ (List.mem_append_right _ hn))) hc.2
    · exact M.eval_agree (fun n hn => h.hidden n (List.mem_append_right _ hn)) hc.2
  | consequence d c b ih =>
    have hc := ih (h.inner
      (fun _ hn => List.mem_append_left _ (List.mem_append_right _ hn)) (List.subset_cons_self _ _)
      fun _ => trivial)
    obtain ⟨hd, hstate, hstate'⟩ := h.operand (e := d) (s := s) (.head _)
      fun _ hn => List.mem_append_left _ (List.mem_append_left _ hn)
    rw [plug, plug, Machine.eval, Machine.eval, hstate, hstate', hd]
    split
    · exact hc
    · -- The other result is chosen: the value was evaluated in advance for nothing.
      exact M.eval_agree (fun n hn => h.hidden n (List.mem_append_right _ hn)) (h.agree trivial)
  | alternative d a c ih =>
    have hc := ih (h.inner (List.subset_append_right _ _) (List.subset_cons_self _ _)
      fun _ => trivial)
    obtain ⟨hd, hstate, hstate'⟩ := h.operand (e := d) (s := s) (.head _)
      fun _ hn => List.mem_append_left _ (List.mem_append_left _ hn)
    rw [plug, plug, Machine.eval, Machine.eval, hstate, hstate', hd]
    split
    · exact M.eval_agree (fun n hn => h.hidden n
        (List.mem_append_left _ (List.mem_append_right _ hn))) (h.agree trivial)
    · exact hc
  | assign n c ih =>
    have hc := ih (h.inner (List.subset_cons_self _ _) (fun _ he => he) id)
    rw [plug, plug, Machine.eval, Machine.eval, hc.1]
    exact ⟨rfl, hc.2.assign _ _⟩
  | argument f text optional earlier c later ih =>
    have hc := ih (h.inner
      (fun _ hn => List.mem_cons_of_mem _ (List.mem_append_right _ (List.mem_append_left _ hn)))
      (fun _ he => List.mem_cons_of_mem _ (List.mem_append_right _ he)) .inr)
    have hlater := M.evalAll_agree later (fun n hn => h.hidden n
      (List.mem_cons_of_mem _ (List.mem_append_right _ (List.mem_append_right _ hn)))) hc.2
    have hcallee : s.env (key f) = (M.declared key value s).env (key f) :=
      h.env_eq (e := .name f) (.head _) (.head _) (h.hidden f (.head _))
    obtain ⟨hearlier, hstate, hstate'⟩ := h.operands (s := s) earlier
      (fun _ he => List.mem_cons_of_mem _ (List.mem_append_left _ he))
      fun _ hn => List.mem_cons_of_mem _ (List.mem_append_left _ hn)
    rw [plug, plug, Machine.eval, Machine.eval]
    dsimp only
    rw [hcallee]
    split
    · -- An optional call of nothing, which does not evaluate its arguments.
      rename_i hskipped
      rw [Bool.and_eq_true] at hskipped
      exact ⟨rfl, h.agree (.inl hskipped.1)⟩
    · rw [M.evalAll_append, M.evalAll_append, hstate, hstate', hearlier]
      dsimp only [Machine.evalAll]
      rw [hc.1, hlater.1]
      exact M.call_agree _ _ _ hlater.2

end

end Context

end Declutter
