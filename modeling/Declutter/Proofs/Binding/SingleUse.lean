import Declutter.Binding.SingleUse
import Declutter.Proofs.Binding.Accounting
import Mathlib.Tactic.Common

/-!
# What is known of a single-use binding

A binding is single-use when none of the reasons to leave it alone applies.  Read the other way
round, each reason that does not apply is a fact about the binding, and these facts are all that
the rewrite may rely on.

## Main definitions

* `BindingTable.SingleUse` — the facts about a single-use binding.

## Main results

* `BindingTable.singleUse_of_isSingleUse` — a single-use binding has them.
-/

namespace Declutter.BindingTable

/-- What is known of a binding that is single-use: its declaration, its initial value, its one
usage, the next statement, and the way of the evaluation to the usage. -/
structure SingleUse (b : BindingTable) (t : Tree) (policy : InlinePolicy) (i : BindingId)
    (declaration declarator value : NodeId) (u : Usage) (next : NodeId) (path : EvaluationPath) :
    Prop where
  kind_eq : (b.binding i).kind = .const ∨ (b.binding i).kind = .let
  declaration_eq : (b.binding i).declaration = some declaration
  declarator_eq : (b.binding i).declarator = some declarator
  initializer_eq : (b.binding i).initializer = some value
  listed : t.isListed declaration = true
  one_declarator : t.declaratorCount declaration = 1
  name_kind : t.kind (b.binding i).nameNode = .identifier
  name_eq : t.child? declarator "name" = some (b.binding i).nameNode
  usages_eq : (b.binding i).usages = [u]
  isWrite_eq : u.isWrite = false
  plainRead : u.plainRead = true
  next_eq : t.nextStatement? declaration = some next
  within_next : t.isWithin u.node next = true
  path_eq : t.evaluationPath? u.node next = some path
  /-- A value that is evaluated only under a condition is trivially pure. -/
  conditional : path.conditional = true → t.isTriviallyPure value = true
  /-- Nothing evaluated before has an effect. -/
  effects : ∀ e ∈ path.preceding, t.hasSideEffects policy.pure e = false
  /-- What is evaluated before reads only stable names, unless the value is without effects. -/
  reads : t.isTriviallyPure value = true ∨ t.hasSideEffects policy.pure value = false ∨
    ∀ e ∈ path.preceding, t.readsOnlyStable b.kindOf? e = true
  not_shadowed : b.isShadowedAt t value u.node = false

variable {b : BindingTable} {t : Tree} {policy : InlinePolicy} {i : BindingId}

/-- The place where a binding is read is a name. -/
theorem Accounted.isReferenceNode_of_soleRead (hb : b.Accounted t) {u : NodeId}
    (h : b.soleRead? i = some u) : u < t.nodes.size ∧ t.isReferenceNode u = true := by
  obtain ⟨usage, husage, rfl⟩ := Option.map_eq_some_iff.mp h
  have hread : usage ∈ (b.binding i).reads := List.mem_of_mem_head? husage
  exact (hb.usage usage (List.mem_filter.mp hread).1).2

/-- The one usage is the place where the binding is read. -/
theorem SingleUse.soleRead_eq {declaration declarator value next : NodeId} {u : Usage}
    {path : EvaluationPath} (h : b.SingleUse t policy i declaration declarator value u next path) :
    b.soleRead? i = some u.node := by
  rw [soleRead?, Binding.reads, h.usages_eq, List.filter_cons_of_pos (by simp [h.isWrite_eq])]
  rfl

/-- The usage is a name. -/
theorem SingleUse.isReferenceNode {declaration declarator value next : NodeId} {u : Usage}
    {path : EvaluationPath} (h : b.SingleUse t policy i declaration declarator value u next path)
    (hb : b.Accounted t) : u.node < t.nodes.size ∧ t.isReferenceNode u.node = true :=
  hb.isReferenceNode_of_soleRead h.soleRead_eq

/-- What the form of a declaration tells when it is no reason against inlining. -/
theorem shape_of_exclusion {declaration declarator : NodeId}
    (h : b.shapeExclusion? t i declaration declarator = none) :
    t.isListed declaration = true ∧ t.declaratorCount declaration = 1 ∧
      t.kind (b.binding i).nameNode = .identifier ∧
      t.child? declarator "name" = some (b.binding i).nameNode ∧
      (b.binding i).initializer.isSome ∧ (b.binding i).writes = [] := by
  unfold shapeExclusion? at h
  dsimp only at h
  split at h
  · cases h
  split at h
  · cases h
  rename_i hlisted
  split at h
  · cases h
  rename_i hcount
  split at h
  · cases h
  rename_i hname
  split at h
  · cases h
  rename_i hvalue
  split at h
  · cases h
  split at h
  · cases h
  rename_i hwrites
  simp only [Bool.or_eq_true, bne_iff_ne, ne_eq, not_or, not_not] at hname
  exact ⟨by simpa using hlisted, by simpa using hcount, hname.1, hname.2,
    by simpa [Option.isSome_iff_ne_none] using hvalue, by simpa using hwrites⟩

/-- What the order of evaluation tells when it is no reason against inlining. -/
theorem order_of_exclusion {value usage next : NodeId}
    (h : b.orderExclusion? t policy value usage next = none) :
    ∃ path, t.evaluationPath? usage next = some path ∧
      (path.conditional = true → t.isTriviallyPure value = true) ∧
      (∀ e ∈ path.preceding, t.hasSideEffects policy.pure e = false) ∧
      (t.isTriviallyPure value = true ∨ t.hasSideEffects policy.pure value = false ∨
        ∀ e ∈ path.preceding, t.readsOnlyStable b.kindOf? e = true) := by
  unfold orderExclusion? at h
  split at h
  · cases h
  rename_i path hpath
  dsimp only at h
  split at h
  · cases h
  rename_i hconditional
  -- What is asked of each expression on the way, before what follows for all of them.
  have hearlier : ∀ e ∈ path.preceding, t.hasSideEffects policy.pure e = false ∧
      ((t.isTriviallyPure value || !t.hasSideEffects policy.pure value) = true ∨
        t.readsOnlyStable b.kindOf? e = true) := by
    intro e he
    have hnone := List.findSome?_eq_none_iff.mp h e he
    unfold precedenceExclusion? at hnone
    split at hnone
    · cases hnone
    split at hnone
    · cases hnone
    rename_i heffect hread
    refine ⟨by simpa using heffect, ?_⟩
    cases hpure : (t.isTriviallyPure value || !t.hasSideEffects policy.pure value) with
    | true => exact .inl rfl
    | false => exact .inr (by simpa [hpure] using hread)
  refine ⟨path, hpath, ?_, fun e he => (hearlier e he).1, ?_⟩
  · intro hc
    simpa [hc] using hconditional
  · cases htrivial : t.isTriviallyPure value with
    | true => exact .inl rfl
    | false =>
      cases heffects : t.hasSideEffects policy.pure value with
      | false => exact .inr (.inl rfl)
      | true =>
        refine .inr (.inr fun e he => (hearlier e he).2.resolve_left ?_)
        simp [htrivial, heffects]

/-- **A single-use binding** has all that is known of one. -/
theorem singleUse_of_isSingleUse (h : b.isSingleUse t policy i = true) :
    ∃ declaration declarator value u next path,
      b.SingleUse t policy i declaration declarator value u next path := by
  unfold isSingleUse at h
  rw [Bool.and_eq_true, beq_iff_eq] at h
  obtain ⟨hcandidate, hnone⟩ := h
  unfold exclusion? at hnone
  dsimp only at hnone
  split at hnone
  · rename_i declaration declarator hdeclaration hdeclarator
    obtain ⟨hshape, hvalue⟩ := Option.or_eq_none_iff.mp hnone
    obtain ⟨hlisted, hcount, hkind, hname, hsome, hwrites⟩ := shape_of_exclusion hshape
    obtain ⟨value, hvalueEq⟩ := Option.isSome_iff_exists.mp hsome
    rw [hvalueEq, Option.bind_some] at hvalue
    unfold usageExclusion? at hvalue
    split at hvalue
    · rename_i u husages
      split at hvalue
      · rename_i hplain
        -- A usage that writes was ruled out with the form of the declaration.
        have hwrite : u.isWrite = false := by
          rw [Binding.writes, husages] at hwrites
          cases hu : u.isWrite with
          | false => rfl
          | true => simp [hu] at hwrites
        unfold moveExclusion? at hvalue
        split at hvalue
        · cases hvalue
        rename_i next hnext
        obtain ⟨hnext, hwithin⟩ := Option.filter_eq_some_iff.mp hnext
        split at hvalue
        · cases hvalue
        split at hvalue
        · cases hvalue
        obtain ⟨horder, hrest⟩ := Option.or_eq_none_iff.mp hvalue
        obtain ⟨path, hpath, hconditional, heffects, hreads⟩ := order_of_exclusion horder
        split at hrest
        · cases hrest
        rename_i hshadow
        refine ⟨declaration, declarator, value, u, next, path, ?_⟩
        refine ⟨by simpa [isCandidate] using hcandidate, hdeclaration, hdeclarator, hvalueEq,
          hlisted, hcount, hkind, hname, husages, hwrite, hplain, hnext, hwithin, hpath,
          hconditional, heffects, hreads, by simpa using hshadow⟩
      · cases hvalue
    · cases hvalue
  · cases hnone

/-- The facts about a single-use binding of which the parts are known. -/
theorem singleUse_of_parts {declaration value next : NodeId} {u : Usage} {path : EvaluationPath}
    (h : b.isSingleUse t policy i = true)
    (hdeclaration : (b.binding i).declaration = some declaration)
    (hvalue : (b.binding i).initializer = some value) (husages : (b.binding i).usages = [u])
    (hnext : t.nextStatement? declaration = some next)
    (hpath : t.evaluationPath? u.node next = some path) :
    ∃ declarator, b.SingleUse t policy i declaration declarator value u next path := by
  obtain ⟨_, declarator, _, _, _, _, hs⟩ := singleUse_of_isSingleUse h
  obtain rfl := Option.some.inj (hdeclaration.symm.trans hs.declaration_eq)
  obtain rfl := Option.some.inj (hvalue.symm.trans hs.initializer_eq)
  obtain rfl := List.singleton_inj.mp (husages.symm.trans hs.usages_eq)
  obtain rfl := Option.some.inj (hnext.symm.trans hs.next_eq)
  obtain rfl := Option.some.inj (hpath.symm.trans hs.path_eq)
  exact ⟨declarator, hs⟩

/-- A single-use binding is read somewhere. -/
theorem exists_soleRead (h : b.isSingleUse t policy i = true) : ∃ u, b.soleRead? i = some u := by
  obtain ⟨_, _, _, u, _, _, hu⟩ := singleUse_of_isSingleUse h
  exact ⟨u.node, hu.soleRead_eq⟩

end Declutter.BindingTable
