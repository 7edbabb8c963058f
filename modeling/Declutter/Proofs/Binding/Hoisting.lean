import Declutter.Proofs.Analysis.Passes
import Declutter.Proofs.Binding.Visibility

/-!
# Hoisting

All names are declared before the first reference is looked up, so a reference may stand before the
declaration of its name; only the names in the heads of loops are declared when their turn comes.  A
reference is therefore looked up in a table that lacks the heads of loops behind it, and means what
it would mean in the finished table exactly if that is no such name.

## Main definitions

* `BindingTable.IsLaterHead` — the names in the heads of loops that come behind a node.

## Main results

* `BindingTable.nameNode_of_later` — which names are declared between the turns of two nodes.
* `BindingTable.reference_means_visible` — what a reference means, and what it would mean in the
  finished table.
-/

namespace Declutter

namespace BindingTable

variable {t : Tree} {i j k n : Nat}

/-! ### The names that are declared late -/

/-- Whether a binding of a program is a name in the head of a loop, as all others are declared
before the first reference is looked up, and stands behind a node. -/
def IsLaterHead (t : Tree) (n : NodeId) (j : BindingId) : Prop :=
  (ofDeclared t).bindings.size ≤ j ∧ n < ((ofTree t).binding j).nameNode

instance (t : Tree) (n : NodeId) (j : BindingId) : Decidable (IsLaterHead t n j) :=
  inferInstanceAs (Decidable (_ ∧ _))

/-- A name that was added from the turn of one node to the turn of another is a name in the head of
a loop, and its own turn came in between. -/
theorem nameNode_of_later (h : n ≤ k) (hj : (before t n).bindings.size ≤ j)
    (hj' : j < (before t k).bindings.size) :
    n ≤ ((before t k).binding j).nameNode ∧ ((before t k).binding j).nameNode < k ∧
      ∃ keyword, (((before t k).binding j).nameNode, keyword) ∈ t.allLoopHeadNames := by
  induction k, h using Nat.le_induction with
  | base => omega
  | succ k hk ih =>
    rw [before_succ] at hj' ⊢
    -- A binding that was there one turn before has kept its name.
    have hold (hlt : j < (before t k).bindings.size) :
        n ≤ (((before t k).visit t t.allLoopHeadNames k).binding j).nameNode ∧
          (((before t k).visit t t.allLoopHeadNames k).binding j).nameNode < k + 1 ∧
          ∃ keyword, ((((before t k).visit t t.allLoopHeadNames k).binding j).nameNode, keyword) ∈
            t.allLoopHeadNames := by
      rw [((extends_visit _ t _ k).visible hlt).2.2]
      obtain ⟨hle, hlt', hhead⟩ := ih hlt
      exact ⟨hle, Nat.lt_succ_of_lt hlt', hhead⟩
    obtain heq | ⟨-, -, ⟨keyword, hkeyword, heq⟩ | ⟨-, i, -, -, heq⟩⟩ :=
      (before t k).visit_cases t t.allLoopHeadNames k
    · exact hold (by rwa [heq] at hj')
    · have hsize : ((before t k).declare (t.keywordBinding (.ofKeyword keyword) k)).bindings.size =
          (before t k).bindings.size + 1 := Array.size_push _
      by_cases hlast : j = (before t k).bindings.size
      · rw [heq, binding_declare, if_pos hlast]
        obtain ⟨front, back, hsplit, -⟩ := List.lookup_eq_some_iff.mp hkeyword
        have hmem : (k, keyword) ∈ t.allLoopHeadNames.reverse := by simp [hsplit]
        exact ⟨hk, Nat.lt_succ_self k, keyword, List.mem_reverse.mp hmem⟩
      · rw [heq, hsize] at hj'
        exact hold (by omega)
    · have hsize : ((before t k).refer i (t.usageAt k)).bindings.size =
          (before t k).bindings.size := Array.size_modify
      exact hold (by rwa [heq, hsize] at hj')

/-- Such a name does stand in the head of a loop. -/
theorem IsLaterHead.mem_allLoopHeadNames (h : IsLaterHead t n j)
    (hj : j < (ofTree t).bindings.size) :
    ∃ keyword, (((ofTree t).binding j).nameNode, keyword) ∈ t.allLoopHeadNames :=
  (nameNode_of_later (Nat.zero_le t.nodes.size) h.1 hj).2.2

/-- When the turn of a node comes, a binding of the program has been declared unless it is a name in
the head of a loop that comes behind the node. -/
theorem lt_size_before_iff (hn : n < t.nodes.size) (hj : j < (ofTree t).bindings.size)
    (hne : ((ofTree t).binding j).nameNode ≠ n) :
    j < (before t n).bindings.size ↔ ¬ IsLaterHead t n j := by
  have hext : (before t n).Extends (ofTree t) := before_extends t (Nat.le_of_lt hn)
  constructor
  · intro hlt hlater
    obtain ⟨-, hbehind, -⟩ := nameNode_of_later (Nat.zero_le n) hlater.1 hlt
    rw [← (hext.visible hlt).2.2] at hbehind
    exact absurd hlater.2 (Nat.not_lt_of_lt hbehind)
  · intro hearly
    by_contra hge
    have hge : (before t n).bindings.size ≤ j := Nat.le_of_not_lt hge
    obtain ⟨hle, -, -⟩ := nameNode_of_later (Nat.le_of_lt hn) hge hj
    have hdeclared : (ofDeclared t).bindings.size ≤ (before t n).bindings.size :=
      (before_extends t (Nat.zero_le n)).size_le
    exact hearly ⟨Nat.le_trans hdeclared hge, Nat.lt_of_le_of_ne hle (Ne.symm hne)⟩

/-! ### Looking up a name -/

/-- A name that means nothing later meant nothing before. -/
theorem Extends.resolve_none {b b' : BindingTable} (h : b.Extends b') {name : String}
    {s : ScopeId} (hnone : b'.resolve? t name s = none) : b.resolve? t name s = none := by
  rw [resolve?, List.findSome?_eq_none_iff] at hnone ⊢
  intro s' hs'
  exact h.inScope_none (hnone s' hs')

/-- **What a reference means, and what its name means in the finished table.**  A reference is a
usage of what it means.  It means what its name means in the finished table, as seen from where it
stands, unless that is declared in the head of a loop behind it; then it means something else. -/
theorem reference_means_visible (hn : n < t.nodes.size) (hlooked : t.isLookedUp n = true)
    (hfree : ∀ j < (ofTree t).bindings.size, ((ofTree t).binding j).nameNode ≠ n) :
    let visible := (ofTree t).resolve? t (t.text n) (t.scopeOf n)
    (∀ i, (ofTree t).of? n = some i ↔ t.usageAt n ∈ ((ofTree t).binding i).usages) ∧
      ((ofTree t).of? n = visible ↔ ∀ j ∈ visible, ¬ IsLaterHead t n j) ∧
      ∀ j ∈ visible, IsLaterHead t n j →
        ∃ keyword, (((ofTree t).binding j).nameNode, keyword) ∈ t.allLoopHeadNames := by
  intro visible
  have haccounts := accounted_ofTree t
  have hext : (before t n).Extends (ofTree t) := before_extends t (Nat.le_of_lt hn)
  refine ⟨fun i => ⟨fun hi => ?_, fun hu => haccounts.of_usage _ hu⟩, ?_,
    fun j hj hlater => hlater.mem_allLoopHeadNames (lt_size_of_resolve hj)⟩
  · obtain ⟨u, hu, hun⟩ := haccounts.exists_usage hi hfree
    obtain ⟨husage, -, -⟩ := haccounts.usage u hu
    rwa [husage, hun] at hu
  rw [of?_eq_resolve hn hlooked hfree]
  cases hvisible : visible with
  | none =>
    have hbefore : (before t n).resolve? t (t.text n) (t.scopeOf n) = none :=
      hext.resolve_none hvisible
    simp [hbefore]
  | some j =>
    have hj : j < (ofTree t).bindings.size := lt_size_of_resolve hvisible
    have hdeclared := lt_size_before_iff hn hj (hfree j hj)
    constructor
    · intro hthen j' hj'
      obtain rfl : j = j' := Option.some.inj hj'
      exact hdeclared.mp (lt_size_of_resolve hthen)
    · intro hearly
      exact hext.resolve (hdeclared.mpr (hearly j rfl)) hvisible

end BindingTable

/-! ### A program -/

namespace Sample

/-- A function uses two names of the program that it declares itself: one behind the usage, and one
in the head of a loop behind it. -/
def hoisting : Bytes := Utf8.encode (
  "const v = 1, w = 2;\nfunction g(s) \x7b\n  f(v, w);\n  for (var v of s) \x7b\x7d\n" ++
  "  var w;\n\x7d\n")

/-- The tree of `hoisting`. -/
def hoistingTree : Concrete :=
  construct "program" 0 80 [
    construct "lexical_declaration" 0 19 [
      token "const" 0 (some "kind"),
      construct "variable_declarator" 6 11 [
        nameTree 6 (some "name"), token "=" 8, construct "number" 10 11 [] (some "value")],
      token "," 11,
      construct "variable_declarator" 13 18 [
        nameTree 13 (some "name"), token "=" 15, construct "number" 17 18 [] (some "value")],
      token ";" 18],
    construct "function_declaration" 20 79 [
      token "function" 20,
      nameTree 29 (some "name"),
      construct "formal_parameters" 30 33 [token "(" 30, nameTree 31, token ")" 32]
        (some "parameters"),
      construct "statement_block" 34 79 [
        token "\x7b" 34,
        statementTree
          (callTree (nameTree 38 (some "function")) [nameTree 40, token "," 41, nameTree 43]),
        construct "for_in_statement" 49 68 [
          token "for" 49, token "(" 53, token "var" 54 (some "kind"),
          nameTree 58 (some "left"), token "of" 60 (some "operator"),
          nameTree 63 (some "right"), token ")" 64,
          construct "statement_block" 66 68 [token "\x7b" 66, token "\x7d" 67] (some "body")],
        construct "variable_declaration" 71 77 [
          token "var" 71,
          construct "variable_declarator" 75 76 [nameTree 75 (some "name")],
          token ";" 76],
        token "\x7d" 78]
        (some "body")]]

end Sample

open BindingTable

/-- The variable that is declared behind its usage is the one of the function. -/
theorem BindingTable.sample_hoisted :
    let t := Tree.ofConcrete .javascript Sample.hoisting Sample.hoistingTree
    let b := ofTree t
    t.text 18 = "w" ∧ (b.binding 4).name = "w" ∧ (b.binding 4).nameNode = 25 ∧
      b.of? 18 = some 4 ∧ t.usageAt 18 ∈ (b.binding 4).usages := by
  intro t b
  have hfacts : t.text 18 = "w" ∧ (b.binding 4).name = "w" ∧ (b.binding 4).nameNode = 25 ∧
      18 < t.nodes.size ∧ t.isLookedUp 18 = true ∧
      (∀ j < b.bindings.size, (b.binding j).nameNode ≠ 18) ∧
      b.resolve? t (t.text 18) (t.scopeOf 18) = some 4 ∧ ¬ IsLaterHead t 18 4 := by
    decide +kernel
  obtain ⟨htext, hname, hnode, hn, hlooked, hfree, hvisible, hearly⟩ := hfacts
  obtain ⟨husage, hmeans, -⟩ := reference_means_visible hn hlooked hfree
  have hof : b.of? 18 = some 4 := by
    rw [← hvisible]
    refine hmeans.mpr fun j hj => ?_
    obtain rfl : 4 = j := Option.some.inj (hvisible.symm.trans hj)
    exact hearly
  exact ⟨htext, hname, hnode, hof, (husage 4).mp hof⟩

/-- **The exception.**  The usage of the variable in the head of the loop counts for the constant of
the program, which a call of the function never reads. -/
theorem BindingTable.sample_later_head :
    let t := Tree.ofConcrete .javascript Sample.hoisting Sample.hoistingTree
    let b := ofTree t
    t.text 17 = "v" ∧ b.of? 17 = some 0 ∧ (b.binding 0).usages = [t.usageAt 17] ∧
      b.resolve? t (t.text 17) (t.scopeOf 17) = some 5 ∧ (b.binding 5).nameNode = 20 ∧
      (b.binding 5).usages = [] ∧ IsLaterHead t 17 5 := by
  decide +kernel

end Declutter
