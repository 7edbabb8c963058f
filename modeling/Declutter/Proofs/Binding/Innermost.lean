import Declutter.Proofs.Binding.Resolution
import Declutter.Proofs.Syntax.Lexical

/-!
# The innermost declaration of a name

A name is looked up scope by scope, from the inside out, until one of them declares it.  Every scope
lies in one that was opened earlier, so the search comes to an end; and the scopes that it meets are
those of the constructs around.  What it finds is thus declared in the innermost of them that
declares the name at all.

## Main definitions

* `BindingTable.Resolves` — the search for a name.
* `BindingTable.Declares` — whether a binding declares a name in a scope.
* `BindingTable.Innermost` — whether a binding is the innermost one of a name.

## Main results

* `BindingTable.resolves_iff` — the search ends, with what the name means.
* `BindingTable.resolve?_eq_some_iff_innermost` — what a name means is its innermost binding.
* `BindingTable.lexical_and_innermost` — scopes are lexical, and a name means its innermost binding.
-/

namespace Declutter.BindingTable

variable {b : BindingTable} {t : Tree} {name : String} {i s : Nat}

/-- The search for a name from a scope on: a scope that has a binding of the name ends it, and from
any other one it goes on to the scope around. -/
inductive Resolves (b : BindingTable) (t : Tree) (name : String) :
    ScopeId → Option BindingId → Prop
  | here {s : ScopeId} {i : BindingId} (h : b.inScope? name s = some i) :
      Resolves b t name s (some i)
  | around {s outer : ScopeId} {found : Option BindingId} (h : b.inScope? name s = none)
      (hparent : (t.scope s).parent = some outer) (hfound : Resolves b t name outer found) :
      Resolves b t name s found
  | nowhere {s : ScopeId} (h : b.inScope? name s = none) (hparent : (t.scope s).parent = none) :
      Resolves b t name s none

/-- The search ends in one way only. -/
theorem Resolves.unique {found found' : Option BindingId} (h : b.Resolves t name s found)
    (h' : b.Resolves t name s found') : found = found' := by
  induction h with
  | here h =>
    cases h' with
    | here h' => exact h.symm.trans h'
    | around h' | nowhere h' =>
      rw [h] at h'
      cases h'
  | around h hparent _ ih =>
    cases h' with
    | here h' =>
      rw [h] at h'
      cases h'
    | around _ hparent' hfound' =>
      obtain rfl := Option.some.inj (hparent.symm.trans hparent')
      exact ih hfound'
    | nowhere _ hparent' =>
      rw [hparent] at hparent'
      cases hparent'
  | nowhere h hparent =>
    cases h' with
    | here h' =>
      rw [h] at h'
      cases h'
    | around _ hparent' =>
      rw [hparent] at hparent'
      cases hparent'
    | nowhere => rfl

/-- **The search for a name ends**, and finds what the name means. -/
theorem resolves_iff (h : t.Lexical) (hs : s < t.scopes.size) {found : Option BindingId} :
    b.Resolves t name s found ↔ found = b.resolve? t name s := by
  have hends : b.Resolves t name s (b.resolve? t name s) := by
    induction s using Nat.strongRecOn with
    | ind s ih =>
      rw [resolve?, h.scopeChain_parent s hs, List.findSome?_cons]
      cases hhere : b.inScope? name s with
      | some i => exact .here hhere
      | none =>
        cases hparent : (t.scope s).parent with
        | none => exact .nowhere hhere hparent
        | some outer =>
          have hlt : outer < s := h.lt_of_parent hs hparent
          exact .around hhere hparent (ih outer hlt (Nat.lt_trans hlt hs))
  exact ⟨fun hfound => hfound.unique hends, fun hfound => hfound ▸ hends⟩

/-! ### What the search finds -/

/-- Whether a binding declares a name in a scope. -/
structure Declares (b : BindingTable) (name : String) (s : ScopeId) (i : BindingId) : Prop where
  lt_size : i < b.bindings.size
  scope_eq : (b.binding i).scope = s
  name_eq : (b.binding i).name = name

/-- Whether a binding is the innermost one of a name as seen from a scope: of the bindings in its
scope it is the last one, and no scope further inside has any. -/
def Innermost (b : BindingTable) (t : Tree) (name : String) (s : ScopeId) (i : BindingId) : Prop :=
  ∃ inner r outer, t.scopeChain s = inner ++ r :: outer ∧ b.Declares name r i ∧
    (∀ j, b.Declares name r j → j ≤ i) ∧ ∀ q ∈ inner, ∀ j, ¬ b.Declares name q j

theorem inScope?_eq_some_iff_declares :
    b.inScope? name s = some i ↔ b.Declares name s i ∧ ∀ j, b.Declares name s j → j ≤ i := by
  rw [inScope?_eq_some_iff]
  constructor
  · rintro ⟨hi, ⟨hscope, hname⟩, hlast⟩
    refine ⟨⟨hi, hscope, hname⟩, fun j hj => Nat.le_of_not_lt fun hij => ?_⟩
    exact hlast j hij hj.lt_size ⟨hj.scope_eq, hj.name_eq⟩
  · rintro ⟨hi, hlast⟩
    refine ⟨hi.lt_size, ⟨hi.scope_eq, hi.name_eq⟩, fun j hij hj hboth => ?_⟩
    exact Nat.not_lt.mpr (hlast j ⟨hj, hboth.1, hboth.2⟩) hij

theorem inScope?_eq_none_iff_declares :
    b.inScope? name s = none ↔ ∀ j, ¬ b.Declares name s j := by
  rw [inScope?, List.find?_eq_none]
  constructor
  · intro hnone j hj
    have hout := hnone j (List.mem_reverse.mpr (List.mem_range.mpr hj.lt_size))
    rw [hj.scope_eq, hj.name_eq] at hout
    simp at hout
  · intro hnone j hj hboth
    rw [Bool.and_eq_true, beq_iff_eq, beq_iff_eq] at hboth
    exact hnone j ⟨List.mem_range.mp (List.mem_reverse.mp hj), hboth.1, hboth.2⟩

/-- **What a name means is its innermost binding.** -/
theorem resolve?_eq_some_iff_innermost :
    b.resolve? t name s = some i ↔ b.Innermost t name s i := by
  simp only [resolve?, List.findSome?_eq_some_iff, inScope?_eq_some_iff_declares,
    inScope?_eq_none_iff_declares, Innermost, and_assoc]

/-- A name means nothing if no scope around declares it. -/
theorem resolve?_eq_none_iff_declares :
    b.resolve? t name s = none ↔ ∀ r ∈ t.scopeChain s, ∀ j, ¬ b.Declares name r j := by
  simp only [resolve?, List.findSome?_eq_none_iff, inScope?_eq_none_iff_declares]

/-- **Scopes are lexical, and a name means its innermost binding.**  The loop that opens the scopes
of a program comes to an end and nests them as its constructs are nested; so from every scope the
search for a name comes to an end, and finds the innermost binding of the name, or nothing if no
scope around declares it. -/
theorem lexical_and_innermost (l : Language) (source : Bytes) (root : Concrete) :
    (∀ a, Assigns (.ofConcrete l source root) [0] .start a ↔
      a = (Tree.ofConcrete l source root).assignment) ∧
    (Tree.ofConcrete l source root).Lexical ∧
    ∀ (b : BindingTable) (name : String), ∀ s < (Tree.ofConcrete l source root).scopes.size,
      (∀ found, b.Resolves (.ofConcrete l source root) name s found ↔
        found = b.resolve? (.ofConcrete l source root) name s) ∧
      (∀ i, b.resolve? (.ofConcrete l source root) name s = some i ↔
        b.Innermost (.ofConcrete l source root) name s i) ∧
      (b.resolve? (.ofConcrete l source root) name s = none ↔
        ∀ r ∈ (Tree.ofConcrete l source root).scopeChain s, ∀ j, ¬ b.Declares name r j) := by
  have hlexical := Tree.lexical_ofConcrete l source root
  refine ⟨fun a => Tree.assigns_iff l source root, hlexical, fun b name s hs => ⟨?_, ?_, ?_⟩⟩
  · exact fun found => resolves_iff hlexical hs
  · exact fun i => resolve?_eq_some_iff_innermost
  · exact resolve?_eq_none_iff_declares

end Declutter.BindingTable
