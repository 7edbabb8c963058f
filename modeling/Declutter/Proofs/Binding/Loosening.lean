import Declutter.Proofs.Analysis.Exemption

/-!
# Policies that allow more

A policy lists the calls that are trusted and limits the depth of a value.  The list is used with
opposite signs: nothing that is evaluated before the usage may have an effect, and more is asked of
it where the value itself has one.  A longer list finds fewer effects in both places, so it removes
reasons against a binding and adds none.

## Main definitions

* `InlinePolicy.Within` — whether one policy allows no more than another.
* `Exclusion.hingesOnPolicy` — whether a reason can go away with the policy.
* `Exclusion.Carries` — whether a reason is kept, or is one of those.

## Main results

* `Tree.hasSideEffects_anti` — a longer list of pure calls finds fewer effects.
* `BindingTable.carries_exclusion` — a policy that allows more keeps all other reasons, and finds
  no new ones.
* `BindingTable.singleUse_grows` — it keeps every single-use binding.
-/

namespace Declutter

/-- Whether a policy allows no more than another one: it trusts no further calls, and no greater
depth, with the same marker. -/
structure InlinePolicy.Within (p q : InlinePolicy) : Prop where
  pure : p.pure ⊆ q.pure
  maxDepth : p.maxDepth ≤ q.maxDepth
  marker : p.marker = q.marker

theorem InlinePolicy.within_iff {p q : InlinePolicy} : p.Within q ↔
    (∀ f ∈ p.pure, f ∈ q.pure) ∧ p.maxDepth ≤ q.maxDepth ∧ p.marker = q.marker :=
  ⟨fun h => ⟨h.pure, h.maxDepth, h.marker⟩, fun ⟨h₁, h₂, h₃⟩ => ⟨h₁, h₂, h₃⟩⟩

instance (p q : InlinePolicy) : Decidable (p.Within q) :=
  decidable_of_iff _ InlinePolicy.within_iff.symm

/-- Whether a reason to leave a binding alone hinges on the pure calls or on the depth. -/
def Exclusion.hingesOnPolicy : Exclusion → Bool
  | tooComplex | effectBefore | mutableReadBefore => true
  | _ => false

/-- Whether a verdict is kept, or was a reason that hinges on the policy. -/
def Exclusion.Carries (before after : Option Exclusion) : Prop :=
  after = before ∨ ∃ e, before = some e ∧ e.hingesOnPolicy = true

/-! ### Effects -/

namespace Tree

variable {t : Tree} {i : NodeId} {pure pure' : List String}

/-- A call that is listed stays listed in a longer list. -/
theorem isPureCall_mono (h : pure ⊆ pure') (hi : t.isPureCall pure i = true) :
    t.isPureCall pure' i = true := by
  have hcontains : ∀ s, pure.contains s = true → pure'.contains s = true := fun s hs =>
    List.contains_iff_mem.mpr (h (List.contains_iff_mem.mp hs))
  unfold isPureCall at hi ⊢
  dsimp only at hi ⊢
  split at hi
  · cases hi
  rename_i hname
  rw [if_neg hname]
  split at hi
  · rename_i hlisted
    rw [if_pos (hcontains _ hlisted)]
  split at hi
  · -- The method is listed; the whole callee may now be listed as well.
    rename_i hmember
    rw [if_pos hmember, hcontains _ hi, ite_self]
  · cases hi

theorem isEffectfulAt_anti (h : pure ⊆ pure') (hi : t.isEffectfulAt pure' i = true) :
    t.isEffectfulAt pure i = true := by
  simp only [isEffectfulAt, Bool.or_eq_true, Bool.and_eq_true, Bool.not_eq_true'] at hi ⊢
  refine hi.imp_right fun ⟨hcall, himpure⟩ => ⟨hcall, ?_⟩
  by_contra hpure
  rw [Bool.not_eq_false] at hpure
  exact absurd (himpure.symm.trans (isPureCall_mono h hpure)) (by decide)

/-- **A longer list of pure calls finds fewer effects.** -/
theorem hasSideEffects_anti (h : pure ⊆ pure') (hi : t.hasSideEffects pure i = false) :
    t.hasSideEffects pure' i = false := by
  rw [hasSideEffects, List.any_eq_false] at hi ⊢
  exact fun n hn heffect => hi n hn (isEffectfulAt_anti h heffect)

end Tree

/-! ### Verdicts -/

namespace Exclusion

variable {before after : Option Exclusion}

theorem Carries.refl (before : Option Exclusion) : Carries before before := .inl rfl

theorem Carries.of_hinging {e : Exclusion} (h : e.hingesOnPolicy = true) :
    Carries (some e) after := .inr ⟨e, rfl, h⟩

/-- Where there was no reason, there is none. -/
theorem Carries.eq_none (h : Carries none after) : after = none := by
  obtain h | ⟨e, he, -⟩ := h
  · exact h
  · cases he

/-- The first of two reasons is carried over when both are, the second one only where the first one
does not apply. -/
theorem Carries.or {before' after' : Option Exclusion} (h : Carries before after)
    (h' : before = none → Carries before' after') :
    Carries (before.or before') (after.or after') := by
  cases before with
  | none =>
    rw [h.eq_none]
    exact h' rfl
  | some e =>
    obtain rfl | ⟨e', he, hhinges⟩ := h
    · exact .refl _
    · obtain rfl := Option.some.inj he
      exact .of_hinging hhinges

end Exclusion

namespace BindingTable

open Exclusion

variable {b : BindingTable} {t : Tree} {p q : InlinePolicy} {i : BindingId}

/-- What is asked of an expression that is evaluated before the usage.  It is asked less under the
wider policy, for the value may have lost its effects there. -/
theorem carries_precedenceExclusion (h : p.Within q) {pure pure' : Bool}
    (hpure : pure = true → pure' = true) (e : NodeId) :
    Carries (b.precedenceExclusion? t p pure e) (b.precedenceExclusion? t q pure' e) := by
  unfold precedenceExclusion?
  cases heffect : t.hasSideEffects p.pure e with
  | true => exact .of_hinging rfl
  | false =>
    rw [Tree.hasSideEffects_anti h.pure heffect, if_neg Bool.false_ne_true,
      if_neg Bool.false_ne_true]
    cases hread : t.readsOnlyStable b.kindOf? e with
    | true => rw [Bool.not_true, Bool.and_false, Bool.and_false]; exact .refl _
    | false =>
      cases pure with
      | true => rw [hpure rfl]; exact .refl _
      | false => exact .of_hinging rfl

/-- The first reason along a list of expressions. -/
theorem carries_findSome {f g : NodeId → Option Exclusion} {es : List NodeId}
    (h : ∀ e ∈ es, Carries (f e) (g e)) : Carries (es.findSome? f) (es.findSome? g) := by
  induction es with
  | nil => exact .refl _
  | cons e es ih =>
    rw [List.forall_mem_cons] at h
    have hor : ∀ f : NodeId → Option Exclusion,
        (e :: es).findSome? f = (f e).or (es.findSome? f) := fun f => by
      rw [List.findSome?_cons]
      cases f e <;> rfl
    rw [hor f, hor g]
    exact h.1.or fun _ => ih h.2

/-- The order of evaluation.  Whether the usage is reached, and under which condition, does not
depend on the policy. -/
theorem carries_orderExclusion (h : p.Within q) (value usage next : NodeId) :
    Carries (b.orderExclusion? t p value usage next) (b.orderExclusion? t q value usage next) := by
  unfold orderExclusion?
  cases t.evaluationPath? usage next with
  | none => exact .refl _
  | some path =>
    dsimp only
    split
    · exact .refl _
    · refine carries_findSome fun e _ => carries_precedenceExclusion h (fun hpure => ?_) e
      simp only [Bool.or_eq_true, Bool.not_eq_true'] at hpure ⊢
      exact hpure.imp_right (Tree.hasSideEffects_anti h.pure)

/-- Moving the value: a value that was not too deep is not too deep under the wider policy. -/
theorem carries_moveExclusion (h : p.Within q) (declaration value usage : NodeId) :
    Carries (b.moveExclusion? t p declaration value usage)
      (b.moveExclusion? t q declaration value usage) := by
  unfold moveExclusion?
  cases (t.nextStatement? declaration).filter (t.isWithin usage) with
  | none => exact .refl _
  | some next =>
    dsimp only
    split
    · exact .of_hinging rfl
    rename_i hdepth
    rw [if_neg fun hq => hdepth (Nat.lt_of_le_of_lt h.maxDepth hq), h.marker]
    split
    · exact .refl _
    · exact (carries_orderExclusion h value usage next).or fun _ => .refl _

theorem carries_usageExclusion (h : p.Within q) (declaration value : NodeId) :
    Carries (b.usageExclusion? t p i declaration value)
      (b.usageExclusion? t q i declaration value) := by
  unfold usageExclusion?
  split
  · split
    · exact carries_moveExclusion h declaration value _
    · exact .refl _
  · exact .refl _

/-- **A policy that allows more keeps every reason that does not hinge on the policy**, and finds
none where there was none. -/
theorem carries_exclusion (h : p.Within q) (i : BindingId) :
    Carries (b.exclusion? t p i) (b.exclusion? t q i) := by
  unfold exclusion?
  dsimp only
  split
  · refine (Carries.refl _).or fun _ => ?_
    cases (b.binding i).initializer with
    | none => exact .refl _
    | some value => exact carries_usageExclusion h _ value
  · exact .refl _

/-- **A policy that allows more only adds candidates.**  A binding that is single-use stays so, and
the bindings that are keep their order.  The reason to leave another one alone stays the same,
unless it is the depth of the value, or an effect or a mutable read before the usage. -/
theorem singleUse_grows (t : Tree) (p q : InlinePolicy) (h : p.Within q) :
    let b := ofTree t
    (∀ i, b.isSingleUse t p i = true → b.isSingleUse t q i = true) ∧
      (b.singleUse t p).Sublist (b.singleUse t q) ∧
      ∀ i, b.exclusion? t q i = b.exclusion? t p i ∨
        b.exclusion? t p i = some .tooComplex ∨ b.exclusion? t p i = some .effectBefore ∨
        b.exclusion? t p i = some .mutableReadBefore := by
  intro b
  have hmono : ∀ i, b.isSingleUse t p i = true → b.isSingleUse t q i = true := by
    intro i hi
    rw [isSingleUse, Bool.and_eq_true, beq_iff_eq] at hi ⊢
    have hcarries : Carries (b.exclusion? t p i) (b.exclusion? t q i) := carries_exclusion h i
    rw [hi.2] at hcarries
    exact ⟨hi.1, hcarries.eq_none⟩
  refine ⟨hmono, List.monotone_filter_right _ hmono, fun i => ?_⟩
  refine (carries_exclusion h i).imp_right ?_
  rintro ⟨e, he, hhinges⟩
  cases e <;> simp_all [hingesOnPolicy]

end BindingTable

namespace Sample

/-- Two constants, the first one with the result of a call. -/
def trusting : Bytes := Utf8.encode "const a = f();\nuse(a);\nconst b = 1;\nuse(b);\n"

/-- The tree of `trusting`. -/
def trustingTree : Concrete :=
  construct "program" 0 44 [
    construct "lexical_declaration" 0 14 [
      token "const" 0 (some "kind"),
      construct "variable_declarator" 6 13 [
        construct "identifier" 6 7 [] (some "name"), token "=" 8,
        construct "call_expression" 10 13 [
          construct "identifier" 10 11 [] (some "function"),
          construct "arguments" 11 13 [token "(" 11, token ")" 12] (some "arguments")]
          (some "value")],
      token ";" 13],
    usage 15 20 (construct "identifier" 19 20 []),
    constant 23, usage 36 41 (construct "identifier" 40 41 [])]

/-- A policy that trusts no call. -/
def strict : InlinePolicy := ⟨[], 2, "simplify-ignore"⟩

/-- A policy that trusts one call, and a greater depth. -/
def lenient : InlinePolicy := ⟨["f"], 5, "simplify-ignore"⟩

end Sample

/-- Where the call is trusted, the constant that has its result is single-use as well: the name of
the function `use` is read before it. -/
theorem sample_singleUse_grows :
    let t := Tree.ofConcrete .javascript Sample.trusting Sample.trustingTree
    let b := BindingTable.ofTree t
    Sample.strict.Within Sample.lenient ∧
      b.exclusion? t Sample.strict 0 = some .mutableReadBefore ∧
      b.singleUse t Sample.strict = [1] ∧ b.singleUse t Sample.lenient = [0, 1] ∧
      b.isSingleUse t Sample.lenient 1 = true ∧
      (b.singleUse t Sample.strict).Sublist (b.singleUse t Sample.lenient) := by
  intro t b
  have hwithin : Sample.strict.Within Sample.lenient := by decide
  obtain ⟨hmono, hsublist, -⟩ :=
    BindingTable.singleUse_grows t Sample.strict Sample.lenient hwithin
  have hsingle : b.isSingleUse t Sample.strict 1 = true := by decide +kernel
  refine ⟨hwithin, ?_, ?_, ?_, hmono 1 hsingle, hsublist⟩
  · decide +kernel
  · decide +kernel
  · decide +kernel

end Declutter
