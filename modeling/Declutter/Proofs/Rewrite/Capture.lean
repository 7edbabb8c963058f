import Declutter.Config.Basic
import Declutter.Proofs.Binding.Declaration
import Declutter.Proofs.Binding.Visibility
import Declutter.Proofs.Rewrite.Inlining

/-!
# Names in a value that moves

An initial value that moves to the place of a usage takes its names along, and there they are looked
up from the scope of the usage.  What the declaration and the next statement have around them is
common to both places; so a name changes its meaning exactly where a scope that is opened in the next
statement shows it, or where it means what the head of a loop declares only after the value.

All identifiers and shorthand properties of a single-use binding are compared at both places.  The
shorthand names of a pattern that is assigned to are not: these may be captured.

## Main definitions

* `BindingTable.FreeReference` — the references in a value whose declarations stay behind.

## Main results

* `BindingTable.FreeReference.of?_eq_findSome` — a free reference means what the scopes around the
  value show.
* `BindingTable.names_of_inlined_value` — when a name keeps its meaning.
* `BindingTable.captured_pattern_name` — a pattern whose name is captured.
-/

namespace Declutter

namespace BindingTable

/-- Whether a node is a reference in a value to something that is not declared in the value
itself. -/
structure FreeReference (b : BindingTable) (t : Tree) (value n : NodeId) : Prop where
  mem : n ∈ t.subtree value
  lookedUp : t.isLookedUp n = true
  outside : ∀ j ∈ b.of? n, t.isWithin (b.binding j).nameNode value = false

instance (b : BindingTable) (t : Tree) (value n : NodeId) :
    Decidable (b.FreeReference t value n) :=
  decidable_of_iff (n ∈ t.subtree value ∧ t.isLookedUp n = true ∧
      ∀ j ∈ b.of? n, t.isWithin (b.binding j).nameNode value = false)
    ⟨fun ⟨hmem, hlooked, houtside⟩ => ⟨hmem, hlooked, houtside⟩,
      fun h => ⟨h.mem, h.lookedUp, h.outside⟩⟩

/-- A scope that shows a binding is the scope of the binding, also later. -/
theorem Extends.scope_of_inScope {b b' : BindingTable} (h : b.Extends b') {name : String}
    {s : ScopeId} {j : BindingId} (hshown : b.inScope? name s = some j) :
    j < b'.bindings.size ∧ (b'.binding j).scope = s := by
  obtain ⟨hj, ⟨hscope, -⟩, -⟩ := inScope?_eq_some_iff.mp hshown
  exact ⟨Nat.lt_of_lt_of_le hj h.size_le, (h.visible hj).2.1.trans hscope⟩

/-- A reference and the value in which it stands are nodes of the tree. -/
theorem FreeReference.lt_size {b : BindingTable} {t : Tree} {value n : NodeId}
    (hfree : b.FreeReference t value n) (hn : t.InPreorder) :
    n < t.nodes.size ∧ value < t.nodes.size := by
  have hsize := hn.lt_size_of_mem_subtree hfree.mem
  exact ⟨hsize, Nat.lt_of_le_of_lt (List.left_le_of_mem_range' hfree.mem) hsize⟩

section

variable {t : Tree} (h : t.Nested) (hn : t.InPreorder) {value n u next : Nat}
include h hn

/-- A free reference declares nothing. -/
theorem FreeReference.nameNode_ne (hfree : (ofTree t).FreeReference t value n) :
    ∀ j < (ofTree t).bindings.size, ((ofTree t).binding j).nameNode ≠ n := by
  intro j hj heq
  obtain ⟨k, -, hof, hname⟩ := (named_ofTree h hn).owned j hj
  rw [heq] at hof hname
  have houtside := hfree.outside k hof
  rw [hname, hn.isWithin_of_mem_subtree hfree.mem] at houtside
  cases houtside

/-- **A free reference** means what the scopes around the value showed when its turn came: the
scopes within the value show none of its name. -/
theorem FreeReference.of?_eq_findSome (hfree : (ofTree t).FreeReference t value n) :
    (ofTree t).of? n =
      (t.scopeChain (t.scopeOf value)).findSome? ((before t n).inScope? (t.text n)) := by
  have hsize := (hfree.lt_size hn).1
  have hext : (before t n).Extends (ofTree t) := before_extends t (Nat.le_of_lt hsize)
  obtain ⟨inner, hchain, hinner⟩ :=
    h.scopeChain_eq_append hn hsize (hn.isWithin_of_mem_subtree hfree.mem)
  have hof := of?_eq_resolve hsize hfree.lookedUp (hfree.nameNode_ne h hn)
  rw [resolve?, hchain, List.findSome?_append] at hof
  have hnone : inner.findSome? ((before t n).inScope? (t.text n)) = none := by
    by_contra hsome
    obtain ⟨j, hj⟩ := Option.ne_none_iff_exists'.mp hsome
    obtain ⟨s, hs, hshown⟩ := List.exists_of_findSome?_eq_some hj
    rw [hj] at hof
    -- The declaration would lie in the construct of the scope, and so in the value.
    obtain ⟨hlt, rfl⟩ := hext.scope_of_inScope hshown
    have hplaced := (named_ofTree h hn).placed j hlt
    have hmoved := hn.isWithin_trans hplaced.lt_size hplaced.within (hinner _ hs)
    rw [hfree.outside j hof] at hmoved
    cases hmoved
  rw [hof, hnone, Option.none_or]

/-- The scopes around a node are opened by constructs that contain it, so by none within a construct
apart from it. -/
theorem isWithin_eq_false_of_mem_scopeChain (hvalue : value < t.nodes.size)
    (happart : t.isWithin value next = false) {s : ScopeId}
    (hs : s ∈ t.scopeChain (t.scopeOf value)) : t.isWithin (t.scope s).node next = false := by
  by_contra hin
  have hcontains := h.isWithin_of_mem_scopeChain hn hvalue s hs
  have hwithin := hn.isWithin_trans hvalue hcontains (by simpa using hin)
  rw [happart] at hwithin
  cases hwithin

/-- A binding of a scope in a construct apart from the value is not what a free reference in the
value means. -/
theorem FreeReference.findSome_eq_none (hfree : (ofTree t).FreeReference t value n)
    (happart : t.isWithin value next = false) {inner : List ScopeId}
    (hinner : ∀ s ∈ inner, t.isWithin (t.scope s).node next = true)
    (hmeans : ∀ j, inner.findSome? ((ofTree t).inScope? (t.text n)) = some j →
      (ofTree t).of? n = some j) :
    inner.findSome? ((ofTree t).inScope? (t.text n)) = none := by
  obtain ⟨hsize, hvalue⟩ := hfree.lt_size hn
  have hext : (before t n).Extends (ofTree t) := before_extends t (Nat.le_of_lt hsize)
  by_contra hsome
  obtain ⟨j, hj⟩ := Option.ne_none_iff_exists'.mp hsome
  have hhere := hmeans j hj
  rw [hfree.of?_eq_findSome h hn] at hhere
  -- The scope of the binding would be among those around the value.
  obtain ⟨s, hs, hthere⟩ := List.exists_of_findSome?_eq_some hj
  obtain ⟨r, hr, hshown⟩ := List.exists_of_findSome?_eq_some hhere
  obtain ⟨-, rfl⟩ := (Extends.refl _).scope_of_inScope hthere
  obtain ⟨-, rfl⟩ := hext.scope_of_inScope hshown
  have hin := hinner _ hs
  rw [isWithin_eq_false_of_mem_scopeChain h hn hvalue happart hr] at hin
  cases hin

/-- **When a name keeps its meaning** at a usage in another statement: no scope that this statement
opens around the usage shows it, and what is shown further out was known when the turn of the
reference came. -/
theorem FreeReference.of?_eq_resolve_iff (hfree : (ofTree t).FreeReference t value n)
    (hu : u < t.nodes.size) (hnext : t.isWithin u next = true)
    (hscope : t.scopeOf next = t.scopeOf value) (happart : t.isWithin value next = false) :
    (ofTree t).of? n = (ofTree t).resolve? t (t.text n) (t.scopeOf u) ↔
      (∀ s ∈ t.scopeChain (t.scopeOf u), t.isWithin (t.scope s).node next = true →
        (ofTree t).inScope? (t.text n) s = none) ∧
      ∀ j ∈ (ofTree t).resolve? t (t.text n) (t.scopeOf u), j < (before t n).bindings.size := by
  obtain ⟨hsize, hvalue⟩ := hfree.lt_size hn
  have hext : (before t n).Extends (ofTree t) := before_extends t (Nat.le_of_lt hsize)
  have hof := hfree.of?_eq_findSome h hn
  obtain ⟨inner, hchain, hinner⟩ := h.scopeChain_eq_append hn hu hnext
  rw [hscope] at hchain
  have hresolve : (ofTree t).resolve? t (t.text n) (t.scopeOf u) =
      (inner.findSome? ((ofTree t).inScope? (t.text n))).or
        ((t.scopeChain (t.scopeOf value)).findSome? ((ofTree t).inScope? (t.text n))) := by
    rw [resolve?, hchain, List.findSome?_append]
  constructor
  · intro heq
    have hnone := hfree.findSome_eq_none h hn happart hinner fun j hj => by
      rw [heq, hresolve, hj, Option.some_or]
    refine ⟨fun s hs hin => ?_, fun j hj => ?_⟩
    · rw [hchain] at hs
      rcases List.mem_append.mp hs with hs | hs
      · exact List.findSome?_eq_none_iff.mp hnone s hs
      · rw [isWithin_eq_false_of_mem_scopeChain h hn hvalue happart hs] at hin
        cases hin
    · rw [← heq, hof] at hj
      obtain ⟨s, -, hshown⟩ := List.exists_of_findSome?_eq_some hj
      exact (inScope?_eq_some_iff.mp hshown).1
  · rintro ⟨hunshown, hknown⟩
    have hnone : inner.findSome? ((ofTree t).inScope? (t.text n)) = none :=
      List.findSome?_eq_none_iff.mpr fun s hs =>
        hunshown s (hchain ▸ List.mem_append_left _ hs) (hinner s hs)
    rw [hnone, Option.none_or] at hresolve
    rw [hresolve] at hknown ⊢
    rw [hof]
    cases hlater : (t.scopeChain (t.scopeOf value)).findSome?
        ((ofTree t).inScope? (t.text n)) with
    | none =>
      refine List.findSome?_eq_none_iff.mpr fun s hs => ?_
      exact hext.inScope_none (List.findSome?_eq_none_iff.mp hlater s hs)
    | some j => exact hext.findSome (hknown j hlater) hlater

end

/-! ### Single-use bindings -/

section

variable {t : Tree} {policy : InlinePolicy} {i : BindingId}
  {declaration declarator value next : NodeId} {u : Usage} {path : EvaluationPath}

/-- An initial value lies in the scope of its declaration, as the next statement does. -/
theorem SingleUse.scopeOf_eq
    (hs : (ofTree t).SingleUse t policy i declaration declarator value u next path)
    (h : t.Nested) (hn : t.InPreorder) :
    t.scopeOf value = t.scopeOf declaration ∧ t.scopeOf next = t.scopeOf declaration := by
  refine ⟨?_, ?_⟩
  · obtain ⟨declarator, hdeclarator, hvalue, -⟩ :=
      exists_declarator_of_initializer hs.declaration_eq hs.initializer_eq
    exact hdeclarator.scopeOf_part h hn (Tree.mem_of_child? hvalue).1
  · obtain ⟨p, pre, post, hparent, -, -, hsub⟩ := hn.exists_of_nextStatement hs.next_eq
    have hlisted := hs.listed
    rw [Tree.isListed, Tree.parentKind?, hparent, Option.map_some, Option.any_some] at hlisted
    exact h.scopeOf_sibling (hsub.subset (by simp)) (hsub.subset (by simp))
      (Kind.isNamedOutside_of_isStatementList hlisted)

/-- An identifier or a shorthand property means the same at the usage. -/
theorem SingleUse.of?_eq_resolve
    (hs : (ofTree t).SingleUse t policy i declaration declarator value u next path) {n : NodeId}
    (hfree : (ofTree t).FreeReference t value n)
    (htype : t.type n ≠ "shorthand_property_identifier_pattern") :
    (ofTree t).of? n = (ofTree t).resolve? t (t.text n) (t.scopeOf u.node) := by
  have hcompared := List.any_eq_false.mp hs.not_shadowed n hfree.mem
  have hreference : (t.kind n == .identifier || t.kind n == .shorthandProperty) = true := by
    have href := Tree.isReferenceNode_of_isLookedUp hfree.lookedUp
    rw [Tree.isReferenceNode, Bool.or_eq_true] at href
    exact href.resolve_right fun heq => htype (beq_iff_eq.mp heq)
  have hstays : ((ofTree t).of? n).any
      (fun here => t.isWithin ((ofTree t).binding here).nameNode value) = false := by
    rw [Option.any_eq_false]
    exact fun j hj => by rw [hfree.outside j hj]
  simpa [hreference, hstays] using hcompared

end

/-- **The names in the value of a single-use binding.**  A reference in the value, to something that
the value does not declare itself, means the same when it is looked up from the usage, if it is no
shorthand name of a pattern.  A reference of any form keeps its meaning exactly if no scope that the
next statement opens around the usage shows its name, and what the usage sees was known when the
turn of the reference came. -/
theorem names_of_inlined_value (l : Language) (source : Bytes) (root : Concrete)
    (policy : InlinePolicy) (i : BindingId)
    (hsingle : (ofTree (.ofConcrete l source root)).isSingleUse (.ofConcrete l source root)
      policy i = true) :
    let t := Tree.ofConcrete l source root
    let b := ofTree t
    ∃ declaration value u next, (b.binding i).declaration = some declaration ∧
      (b.binding i).initializer = some value ∧ (b.binding i).usages = [u] ∧
      t.nextStatement? declaration = some next ∧ t.isWithin u.node next = true ∧
      ∀ n, b.FreeReference t value n →
        let there := b.resolve? t (t.text n) (t.scopeOf u.node)
        (t.type n ≠ "shorthand_property_identifier_pattern" → b.of? n = there) ∧
        (b.of? n = there ↔
          (∀ s ∈ t.scopeChain (t.scopeOf u.node), t.isWithin (t.scope s).node next = true →
            b.inScope? (t.text n) s = none) ∧
          ∀ j ∈ there, j < (before t n).bindings.size) := by
  intro t b
  have h : t.Nested := Tree.nested_ofConcrete l source root
  have hn : t.InPreorder := Tree.inPreorder_ofConcrete l source root
  obtain ⟨declaration, declarator, value, u, next, path, hs⟩ := singleUse_of_isSingleUse hsingle
  refine ⟨declaration, value, u, next, hs.declaration_eq, hs.initializer_eq, hs.usages_eq,
    hs.next_eq, hs.within_next, fun n hfree => ⟨hs.of?_eq_resolve hfree, ?_⟩⟩
  have hu : u.node < t.nodes.size :=
    ((accounted_ofTree t).usage u (by rw [hs.usages_eq]; exact .head _)).2.1
  obtain ⟨hvalue, hnext⟩ := hs.scopeOf_eq h hn
  have hsize := (hfree.lt_size hn).2
  have happart : t.isWithin value next = false := by
    have hdeclared := isWithin_initializer hn hs.declaration_eq hs.initializer_eq
    have hdisjoint := hn.disjoint_next hs.next_eq ((hn.isWithin_iff hsize).mp hdeclared)
    rw [← hn.isWithin_iff hsize] at hdisjoint
    simpa using hdisjoint
  exact hfree.of?_eq_resolve_iff h hn hu hs.within_next (hnext.trans hvalue.symm) happart

end BindingTable

/-! ### Two programs -/

namespace Sample

/-- The initial value assigns to a name in a pattern; behind it, a block declares a name of one
letter, whose initial value is the usage. -/
def destructuring (inner : String) : Bytes := Utf8.encode (
  "let x;\nconst v = (\x7bx\x7d = o);\n\x7b let " ++ inner ++ " = v; \x7d\n")

/-- The tree of such a program. -/
def destructuringTree : Concrete :=
  construct "program" 0 43 [
    construct "lexical_declaration" 0 6 [
      token "let" 0 (some "kind"),
      construct "variable_declarator" 4 5 [construct "identifier" 4 5 [] (some "name")],
      token ";" 5],
    construct "lexical_declaration" 7 27 [
      token "const" 7 (some "kind"),
      construct "variable_declarator" 13 26 [
        construct "identifier" 13 14 [] (some "name"),
        token "=" 15,
        construct "parenthesized_expression" 17 26 [
          token "(" 17,
          construct "assignment_expression" 18 25 [
            construct "object_pattern" 18 21 [
              token "\x7b" 18, construct "shorthand_property_identifier_pattern" 19 20 [],
              token "\x7d" 20]
              (some "left"),
            token "=" 22,
            construct "identifier" 24 25 [] (some "right")],
          token ")" 25]
          (some "value")],
      token ";" 26],
    construct "statement_block" 28 42 [
      token "\x7b" 28,
      construct "lexical_declaration" 30 40 [
        token "let" 30 (some "kind"),
        construct "variable_declarator" 34 39 [
          construct "identifier" 34 35 [] (some "name"),
          token "=" 36,
          construct "identifier" 38 39 [] (some "value")],
        token ";" 39],
      token "\x7d" 41]]

end Sample

/-- Next to a block that declares another name, the name of the pattern keeps its meaning. -/
theorem BindingTable.sample_pattern_name :
    let t := Tree.ofConcrete .javascript (Sample.destructuring "y") Sample.destructuringTree
    let b := ofTree t
    let policy := Config.inlinePolicy {}
    b.isSingleUse t policy 1 = true ∧ b.FreeReference t 7 10 ∧
      b.of? 10 = some 0 ∧ b.resolve? t (t.text 10) (t.scopeOf 16) = some 0 := by
  intro t b policy
  have hfacts : b.isSingleUse t policy 1 = true ∧ (b.binding 1).declaration = some 4 ∧
      (b.binding 1).initializer = some 7 ∧ (b.binding 1).usages = [⟨16, false, true⟩] ∧
      t.nextStatement? 4 = some 12 ∧ b.FreeReference t 7 10 ∧ b.of? 10 = some 0 ∧
      (∀ s ∈ t.scopeChain (t.scopeOf 16), t.isWithin (t.scope s).node 12 = true →
        b.inScope? (t.text 10) s = none) ∧
      ∀ j ∈ b.resolve? t (t.text 10) (t.scopeOf 16), j < (before t 10).bindings.size := by
    decide +kernel
  obtain ⟨hsingle, hdeclaration, hvalue, husages, hnext, hfree, hof, hunshown, hknown⟩ := hfacts
  obtain ⟨_, _, _, _, hd, hv, hu, hs, -, hnames⟩ :=
    names_of_inlined_value .javascript _ _ policy 1 hsingle
  obtain rfl := Option.some.inj (hdeclaration.symm.trans hd)
  obtain rfl := Option.some.inj (hvalue.symm.trans hv)
  obtain rfl := List.singleton_inj.mp (husages.symm.trans hu)
  obtain rfl := Option.some.inj (hnext.symm.trans hs)
  have hsame := (hnames 10 hfree).2.mpr ⟨hunshown, hknown⟩
  exact ⟨hsingle, hfree, hof, hsame.symm.trans hof⟩

/-- **A pattern whose name is captured.**  The binding is single-use, but the name that its value
assigns to is the one of the program, and would be that of the block. -/
theorem BindingTable.captured_pattern_name :
    let t := Tree.ofConcrete .javascript (Sample.destructuring "x") Sample.destructuringTree
    let b := ofTree t
    let policy := Config.inlinePolicy {}
    b.isSingleUse t policy 1 = true ∧ (b.binding 1).initializer = some 7 ∧
      (b.binding 1).usages = [⟨16, false, true⟩] ∧ b.FreeReference t 7 10 ∧
      b.of? 10 = some 0 ∧ b.resolve? t (t.text 10) (t.scopeOf 16) = some 2 := by
  decide +kernel

end Declutter
