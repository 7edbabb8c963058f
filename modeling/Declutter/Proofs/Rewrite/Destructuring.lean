import Declutter.Proofs.Rewrite.Inlining

/-!
# Inlining into the target of a destructuring

What a pattern takes apart is written behind the pattern, but evaluated before the default values
and the computed keys in it.  So a value that moves to such a place moves past the right-hand side
of the pattern.  The way of the evaluation to the usage does not show that: on it lies what is
written to the left, and of the right-hand side nothing is asked.

A place in a pattern counts as conditional, so only a trivially pure value moves there.  This is
enough if the right-hand side has no effects, or if the value mentions only stable names to which
the right-hand side does not assign.  Otherwise the right-hand side may change what the value reads.

## Main definitions

* `Tree.Destructures` — where a value is taken apart.
* `Machine.Defers` — whether an expression may be evaluated after another one.

## Main results

* `BindingTable.inline_into_target` — a single-use binding that is read in a target.
* `BindingTable.default_value_changed` — a right-hand side that changes what the value reads.
-/

namespace Declutter

namespace Tree

/-- Whether `p` is a declarator or an assignment that takes the value of `r` apart by the pattern
`target`. -/
def Destructures (t : Tree) (p target r : NodeId) : Prop :=
  t.kind target = .pattern ∧
    ((t.kind p = .declarator ∧ t.child? p "name" = some target ∧ t.child? p "value" = some r) ∨
      (t.kind p = .assignment ∧ t.child? p "left" = some target ∧ t.child? p "right" = some r))

instance (t : Tree) (p target r : NodeId) : Decidable (t.Destructures p target r) :=
  inferInstanceAs (Decidable (_ ∧ _))

namespace Destructures

variable {t : Tree} {p target r : NodeId}

theorem mem_children (h : t.Destructures p target r) :
    target ∈ t.children p ∧ r ∈ t.children p := by
  rcases h.2 with ⟨-, htarget, hr⟩ | ⟨-, htarget, hr⟩
  · exact ⟨(mem_of_child? htarget).1, (mem_of_child? hr).1⟩
  · exact ⟨(mem_of_child? htarget).1, (mem_of_child? hr).1⟩

/-- The pattern is not its own value: the two have different roles. -/
theorem ne (h : t.Destructures p target r) : target ≠ r := by
  rintro rfl
  rcases h.2 with ⟨-, htarget, hr⟩ | ⟨-, htarget, hr⟩
  · have hname := (mem_of_child? htarget).2
    have hvalue := (mem_of_child? hr).2
    simp_all [hasField]
  · have hleft := (mem_of_child? htarget).2
    have hright := (mem_of_child? hr).2
    simp_all [hasField]

/-- The construct is no list of statements. -/
theorem isStatementList_eq_false (h : t.Destructures p target r) :
    (t.kind p).isStatementList = false := by
  rcases h.2 with ⟨hkind, -⟩ | ⟨hkind, -⟩
  · rw [hkind]
    rfl
  · rw [hkind]
    rfl

/-- A part of a pattern is evaluated only under a condition. -/
theorem isConditionalAt (h : t.Destructures p target r) (c : NodeId) :
    t.isConditionalAt c target = true := by
  rw [Tree.isConditionalAt, h.1]
  rfl

end Destructures

/-- Where a statement and what stands before it in the list contain a node and a construct contains
it too, either the construct lies in the statement or all of the list lies in the construct. -/
theorem InPreorder.within_or_within {t : Tree} (hn : t.InPreorder) {i next u j : Nat}
    (h : t.nextStatement? i = some next) (hu : u < t.nodes.size)
    (hnext : next ≤ u ∧ u < t.stop next) (hj : j < u ∧ u < t.stop j) :
    (j < i ∧ i < t.stop j) ∨ (next ≤ j ∧ j < t.stop next) := by
  rcases Nat.lt_or_ge j next with hlt | hge
  · -- The parent of both statements lies in the construct.
    have hsize : j < t.nodes.size := Nat.lt_trans hj.1 hu
    obtain ⟨q, hmem, hjq⟩ := hn.exists_parent_within (t.stop j - j) (Nat.le_refl _) hsize hlt
      (Nat.lt_of_le_of_lt hnext.1 hj.2)
    obtain ⟨p, pre, post, hp, -, -, hsub⟩ := hn.exists_of_nextStatement h
    have hpnext := hn.mem_children_iff.mp (hsub.subset (show next ∈ _ by simp))
    obtain rfl : p = q := Option.some.inj (hpnext.symm.trans (hn.parent_of_mem q next hmem))
    have hi := hn.child_bounds (hn.mem_children_iff.mpr hp)
    have hnb := hn.child_bounds hmem
    have hpj := Nat.lt_trans hnb.1 (Nat.lt_of_le_of_lt hnext.1 hj.2)
    have hstop := hn.stop_le_stop hsize hjq hpj
    exact .inl ⟨by omega, by omega⟩
  · exact .inr ⟨hge, by omega⟩

end Tree

/-! ### Evaluation after another expression -/

namespace Machine

variable {Val Event : Type}

/-- Whether an initial value may be evaluated after an expression instead of before it, where the
names in it refer to what `keyAfter` says: the expression does the same as behind the declaration of
the hidden name, and the value comes out as the hidden name would have had it, without effects. -/
def Defers (M : Machine Val Event) (key keyAfter : NodeId → Key) (init e : Expr)
    (state : State Val Event) : Prop :=
  let before := M.eval key e (M.declared key init state)
  let after := M.eval key e state
  M.Same after before ∧ M.eval keyAfter init after.2 = (before.2.env M.hidden, after.2)

variable {M : Machine Val Event} {key keyAfter : NodeId → Key} {init e : Expr}

/-- **A value without effects may be evaluated later**, if the expression in between does not
mention the hidden name and leaves the names in the value alone. -/
theorem defers (state : State Val Event) (hinit : init.Effectless M.pure)
    (hhidden : ∀ n ∈ e.names, key n ≠ M.hidden) (hkey : ∀ n ∈ init.names, keyAfter n = key n)
    (hkept : ∀ n ∈ init.names, (M.eval key e state).2.env (key n) = state.env (key n)) :
    M.Defers key keyAfter init e state := by
  have hagree : state.Agree M.hidden (M.declared key init state) := Context.agree_declared hinit
  have hsame := M.eval_agree hhidden hagree
  refine ⟨hsame, ?_⟩
  -- Nothing changes the hidden name once it is declared.
  have hvalue : (M.eval key e (M.declared key init state)).2.env M.hidden =
      (M.eval key init state).1 := by
    rw [M.eval_env (.inl rfl) _ fun n hn => hhidden n (Expr.mem_names_of_mem_targets hn)]
    exact Function.update_self ..
  rw [M.eval_key _ hkey, hvalue]
  refine Prod.ext ?_ (M.eval_of_effectless _ hinit)
  exact M.eval_congr _ _ hinit hkept

end Machine

namespace BindingTable

variable {b : BindingTable} {t : Tree} {policy : InlinePolicy} {i : BindingId}
  {declaration declarator value next : NodeId} {u : Usage} {path : EvaluationPath}

/-- The way from a usage in a target goes through the target and what is around it, unless the
declaration stands in the target as well. -/
theorem SingleUse.steps_of_target
    (hs : b.SingleUse t policy i declaration declarator value u next path) (hn : t.InPreorder)
    (hu : u.node < t.nodes.size) {p target r : NodeId} (hd : t.Destructures p target r)
    (htarget : target ∈ t.ancestors u.node) :
    t.isWithin declaration target = true ∨
      (target, p) ∈ t.steps u.node next ∧ ∃ c, (c, target) ∈ t.steps u.node next := by
  have hnext := (hn.isWithin_iff hu).mp hs.within_next
  have hbelow := Tree.lt_of_mem_ancestors htarget
  have hbounds := (hn.mem_chain_iff hu).mp (List.mem_cons_of_mem _ htarget)
  have hp := hn.parent_of_mem p target hd.mem_children.1
  obtain ⟨q, pre, post, hq, -, -, hsub⟩ := hn.exists_of_nextStatement hs.next_eq
  rcases hn.within_or_within hs.next_eq hu hnext ⟨hbelow, hbounds.2⟩ with hin | hin
  · have hsize := hn.lt_size_of_mem (hsub.subset (show declaration ∈ _ by simp))
    exact .inl ((hn.isWithin_iff hsize).mpr ⟨Nat.le_of_lt hin.1, hin.2⟩)
  · -- The pattern is not the statement itself, as it does not stand in a list.
    have hne : next ≠ target := by
      intro heq
      have hqnext := hn.parent_of_mem q next (hsub.subset (by simp))
      obtain rfl : p = q := Option.some.inj (hp.symm.trans (heq ▸ hqnext))
      have hlisted := hs.listed
      rw [Tree.isListed, Tree.parentKind?, hq, Option.map_some, Option.any_some,
        hd.isStatementList_eq_false] at hlisted
      cases hlisted
    obtain ⟨p', hp', hle⟩ := hn.exists_parent_within (t.stop next - next) (Nat.le_refl _)
      (Nat.lt_of_le_of_lt hnext.1 hu) (Nat.lt_of_le_of_ne hin.1 hne) hin.2
    obtain rfl : p = p' := Option.some.inj (hp.symm.trans (hn.parent_of_mem p' target hp'))
    obtain ⟨c, hc, hcu⟩ := hn.exists_child (Nat.lt_trans hbelow hu) hbelow hbounds.2
    exact .inr ⟨(hn.mem_steps_iff hu hnext).mpr ⟨hd.mem_children.1, hbounds, hle⟩,
      c, (hn.mem_steps_iff hu hnext).mpr ⟨hc, hcu, hin.1⟩⟩

/-- A value without effects may be evaluated after what stands beside the usage, if this does not
change the names in the value. -/
theorem SingleUse.defers (hs : b.SingleUse t policy i declaration declarator value u next path)
    (hb : b.Accounted t) (hn : t.InPreorder) (hu : u.node < t.nodes.size) {c p r : NodeId}
    (hstep : (c, p) ∈ t.steps u.node next) (hrp : r ∈ t.children p) (hne : r ≠ c) {init e : Expr}
    (hinit : t.Denotes value init) (heffectless : init.Effectless policy.pure)
    (hr : t.Denotes r e) (hkept : t.hasSideEffects policy.pure r = false ∨
      ∀ n ∈ init.names, b.isStableKey (b.key t n) = true ∧
        ∀ m ∈ e.targets, b.key t m ≠ b.key t n)
    {Val Event : Type} (I : Interpretation Val Event) (state : State Val Event) :
    (b.machine I policy i).Defers (b.key t) (b.keyAfter t value u.node) init e state := by
  have hnext := (hn.isWithin_iff hu).mp hs.within_next
  obtain ⟨hc, hcu, hnp⟩ := (hn.mem_steps_iff hu hnext).mp hstep
  have hhidden : ∀ n ∈ e.names, b.key t n ≠ .bound i := by
    intro n hmem hkey
    have hnb := hn.within_parent hrp (hr.bounds hn hmem)
    have hpb := Nat.lt_trans (hn.child_bounds hc).1 (Nat.lt_of_le_of_lt hcu.1 hnext.2)
    have hstop := hn.stop_le_stop (Nat.lt_of_le_of_lt hnext.1 hu) hnp hpb
    -- The usage is the only name of the binding in the statement, and stands in another child.
    obtain rfl := hs.eq_usage hb hn
      ⟨Nat.le_trans hnp hnb.1, Nat.lt_of_lt_of_le hnb.2 hstop⟩ hkey
    exact hr.notMem_names hn hrp ⟨hc, hcu⟩ hne hmem
  have hkeys : ∀ n ∈ init.names, b.keyAfter t value u.node n = b.key t n := fun n hmem =>
    hs.keyAfter_eq hn (hinit.mem_visited (Tree.enters_all hn) hmem).2
  refine Machine.defers state heffectless hhidden hkeys fun n hmem => ?_
  rcases hkept with hpure | hstable
  · have hsame : ((b.machine I policy i).eval (b.key t) e state).2 = state :=
      Machine.eval_of_effectless state (hr.effectless_of_hasSideEffects hn hpure)
    rw [hsame]
  · obtain ⟨hstableKey, htargets⟩ := hstable n hmem
    exact Machine.eval_env (.inr hstableKey) state htargets

end BindingTable

/-- **A single-use binding that is read in the target of a destructuring.**  Unless the declaration
stands in the target as well, its initial value is trivially pure, the right-hand side is not on the
way to the usage, as it is written behind it, and the value may be evaluated after the right-hand
side, if this has no side effects or else does not assign to the names in the value, all of which
are stable. -/
theorem BindingTable.inline_into_target (l : Language) (source : Bytes) (root : Concrete)
    (policy : InlinePolicy) {i : BindingId} {declaration value next : NodeId} {u : Usage}
    {path : EvaluationPath} {p target r : NodeId} :
    let t := Tree.ofConcrete l source root
    let b := ofTree t
    b.isSingleUse t policy i = true →
    (b.binding i).declaration = some declaration → (b.binding i).initializer = some value →
    (b.binding i).usages = [u] → t.nextStatement? declaration = some next →
    t.evaluationPath? u.node next = some path →
    t.Destructures p target r → target ∈ t.ancestors u.node →
    t.isWithin declaration target = true ∨
      t.isTriviallyPure value = true ∧ (u.node < r → r ∉ path.preceding) ∧
        ∀ init e, t.Denotes value init → t.Denotes r e →
          (t.hasSideEffects policy.pure r = false ∨
            ∀ n ∈ init.names, b.isStableKey (b.key t n) = true ∧
              ∀ m ∈ e.targets, b.key t m ≠ b.key t n) →
          ∀ {Val Event : Type} (I : Interpretation Val Event) (state : State Val Event),
            (b.machine I policy i).Defers (b.key t) (b.keyAfter t value u.node) init e state := by
  intro t b hsingle hdeclaration hvalue husages hnext hpath hd htarget
  have hn : t.InPreorder := Tree.inPreorder_ofConcrete l source root
  have hb : b.Accounted t := accounted_ofTree t
  obtain ⟨declarator, hs⟩ :=
    singleUse_of_parts hsingle hdeclaration hvalue husages hnext hpath
  have hu := (hs.isReferenceNode hb).1
  rcases hs.steps_of_target hn hu hd htarget with hin | ⟨hstep, c, hinner⟩
  · exact .inl hin
  have htrivial := hs.isTriviallyPure_of_step hinner (hd.isConditionalAt c)
  refine .inr ⟨htrivial, fun hlt hmem => ?_, fun init e hinit hr hkept Val Event I state => ?_⟩
  · -- What lies on the way ends before the usage.
    rw [(Tree.evaluationPath?_eq_some hs.path_eq).1] at hmem
    obtain ⟨c, _, -, hc, hcu, hbefore⟩ :=
      Tree.exists_step_of_mem_preceding hn hu ((hn.isWithin_iff hu).mp hs.within_next) hmem
    obtain ⟨hr, hstop⟩ := Tree.stop_le_of_mem_evaluatedBefore hn hc hbefore
    have hend := Nat.lt_of_lt_of_le (hn.child_bounds hr).2.1 (Nat.le_trans hstop hcu)
    exact absurd hlt (Nat.lt_asymm hend)
  · exact hs.defers hb hn hu hstep hd.mem_children.2 hd.ne.symm hinit
      (hinit.effectless_of_isTriviallyPure hn htrivial) hr hkept I state

/-! ### Two programs -/

namespace Sample

/-- A constant is the default value of a part of what a call returns. -/
def constantDefault : Bytes := Utf8.encode "const v = NaN;\nconst \x7ba = v\x7d = f(2);\n"

/-- The tree of `const \x7ba = v\x7d` at `k`, with a value. -/
def destructuringOf (k : Nat) (value : Concrete) : Concrete :=
  construct "lexical_declaration" k (value.head.stop + 1) [
    token "const" k (some "kind"),
    construct "variable_declarator" (k + 6) value.head.stop [
      construct "object_pattern" (k + 6) (k + 13) [
        token "\x7b" (k + 6),
        construct "object_assignment_pattern" (k + 7) (k + 12) [
          construct "shorthand_property_identifier_pattern" (k + 7) (k + 8) [] (some "left"),
          token "=" (k + 9),
          nameTree (k + 11) (some "right")],
        token "\x7d" (k + 12)]
        (some "name"),
      token "=" (k + 14),
      value],
    token ";" value.head.stop]

/-- The tree of `constantDefault`. -/
def constantDefaultTree : Concrete :=
  construct "program" 0 37 [
    constantTree 0 (construct "identifier" 10 13 [] (some "value")),
    destructuringOf 15 (callTree (nameTree 31 (some "function")) [construct "number" 33 34 []]
      (some "value"))]

/-- The right-hand side of the pattern assigns to the name that is the default value. -/
def reassigning : Bytes := Utf8.encode "let y;\nconst v = y;\nconst \x7ba = v\x7d = (y = 5);\n"

/-- The tree of `reassigning`. -/
def reassigningTree : Concrete :=
  construct "program" 0 45 [
    construct "lexical_declaration" 0 6 [
      token "let" 0 (some "kind"),
      construct "variable_declarator" 4 5 [nameTree 4 (some "name")],
      token ";" 5],
    constantTree 7 (nameTree 17 (some "value")),
    destructuringOf 20 (construct "parenthesized_expression" 36 43 [
      token "(" 36,
      construct "assignment_expression" 37 42 [
        nameTree 37 (some "left"),
        token "=" 39,
        construct "number" 41 42 [] (some "right")],
      token ")" 42]
      (some "value"))]

end Sample

/-- The constant moves past the call, which does not change it. -/
theorem BindingTable.sample_inline_into_target :
    let t := Tree.ofConcrete .javascript Sample.constantDefault Sample.constantDefaultTree
    let b := ofTree t
    b.isSingleUse t Sample.policy 0 = true ∧ t.hasSideEffects Sample.policy.pure 11 = true ∧
      t.isTriviallyPure 4 = true ∧
      (b.machine Sample.numbers Sample.policy 0).Defers (b.key t) (b.keyAfter t 4 10) (.name 4)
        (.call 12 "f" false [.literal "2"]) Sample.zeros := by
  intro t b
  have hfacts : b.isSingleUse t Sample.policy 0 = true ∧
      (b.binding 0).declaration = some 1 ∧ (b.binding 0).initializer = some 4 ∧
      (b.binding 0).usages = [⟨10, false, true⟩] ∧ t.nextStatement? 1 = some 5 ∧
      t.evaluationPath? 10 5 = some ⟨[9], true⟩ ∧
      t.Destructures 6 7 11 ∧ 7 ∈ t.ancestors 10 ∧ t.isWithin 1 7 = false ∧
      t.Denotes 4 (.name 4) ∧ t.Denotes 11 (.call 12 "f" false [.literal "2"]) ∧
      b.isStableKey (b.key t 4) = true ∧ t.hasSideEffects Sample.policy.pure 11 = true := by
    decide +kernel
  obtain ⟨hsingle, hdeclaration, hvalue, husages, hnext, hpath, hd, htarget, hapart, hinit, hr,
    hstable, heffects⟩ := hfacts
  rcases inline_into_target .javascript _ _ _ hsingle hdeclaration hvalue husages hnext hpath hd
    htarget with hin | ⟨htrivial, -, hdefers⟩
  · exact absurd (hapart.symm.trans hin) Bool.false_ne_true
  · refine ⟨hsingle, heffects, htrivial, hdefers _ _ hinit hr (.inr fun n hn => ?_) _ _⟩
    obtain rfl : n = 4 := List.mem_singleton.mp hn
    exact ⟨hstable, fun m hm => nomatch hm⟩

/-- **The exception.**  The right-hand side assigns to the name that the initial value reads: the
binding is single-use, but its value was to be the old one, and is now the new one. -/
theorem BindingTable.default_value_changed :
    let t := Tree.ofConcrete .javascript Sample.reassigning Sample.reassigningTree
    let b := ofTree t
    let e := Expr.parenthesized (.assign 16 (.literal "5"))
    b.isSingleUse t Sample.policy 1 = true ∧ t.Destructures 9 10 14 ∧ 10 ∈ t.ancestors 13 ∧
      t.hasSideEffects Sample.policy.pure 14 = true ∧ t.Denotes 7 (.name 7) ∧ t.Denotes 14 e ∧
      ¬ (b.machine Sample.numbers Sample.policy 1).Defers (b.key t) (b.keyAfter t 7 13) (.name 7) e
        Sample.zeros := by
  intro t b e
  have hfacts : b.isSingleUse t Sample.policy 1 = true ∧ t.Destructures 9 10 14 ∧
      10 ∈ t.ancestors 13 ∧ t.hasSideEffects Sample.policy.pure 14 = true ∧
      t.Denotes 7 (.name 7) ∧ t.Denotes 14 e := by
    decide +kernel
  obtain ⟨hsingle, hd, htarget, heffects, hinit, hr⟩ := hfacts
  refine ⟨hsingle, hd, htarget, heffects, hinit, hr, fun h => ?_⟩
  have hvalue := congrArg Prod.fst h.2
  revert hvalue
  decide +kernel

end Declutter
