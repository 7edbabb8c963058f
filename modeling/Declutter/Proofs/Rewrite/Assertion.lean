import Declutter.Proofs.Rewrite.Callee
import Declutter.Proofs.Rewrite.Result

/-!
# Inlining an expression that ends with a type

An expression that says its type ends with the type, behind `as` or `satisfies`.  Some binary
operators are written with a character that types have too: behind a type, `&` and `|` join another
type to it, and `<` begins its arguments.  What follows is then a part of the type and no operand.

The question after parentheses compares levels, and gives these expressions the level of the
relational operators.  That is the level at which they end on the left.  But the operators that go
on a type bind no more tightly, so none of them asks for parentheses on its left.

## Main definitions

* `Tree.endsWithType` — the expressions that end with a type.
* `continuesType` — the operators that go on a type.

## Main results

* `BindingTable.inlined_assertion_before_operator` — when such a value gets parentheses, and what
  stands behind it.
* `BindingTable.inlined_assertion_swallows` — an operand that becomes a part of a type.
-/

namespace Declutter

/-- The binary operators that go on a type when they stand behind one. -/
def continuesType (operator : String) : Bool := ["&", "|", "<"].contains operator

/-- What goes on a type binds no more tightly than a relational operator. -/
theorem binaryPrecedence_of_continuesType {operator : String} (h : continuesType operator = true) :
    binaryPrecedence operator ≤ Precedence.relational := by
  have hlevels : ∀ o ∈ ["&", "|", "<"], binaryPrecedence o ≤ Precedence.relational := by decide
  exact hlevels operator (List.contains_iff_mem.mp h)

namespace Tree

/-- Whether an expression ends with its type. -/
def endsWithType (t : Tree) (i : NodeId) : Bool :=
  t.type i == "as_expression" || t.type i == "satisfies_expression"

variable {t : Tree} {p u value : NodeId}

theorem InPreorder.kind_of_endsWithType (hn : t.InPreorder) (h : t.endsWithType value = true) :
    t.kind value = .typeExpression := by
  rw [endsWithType, Bool.or_eq_true, beq_iff_eq, beq_iff_eq] at h
  have hv : value < t.nodes.size := by
    by_contra hv
    rw [type, node_of_size_le (Nat.le_of_not_lt hv)] at h
    simp [default, instInhabitedNode.default] at h
  rw [hn.kind_eq value hv]
  rcases h with h | h
  · rw [h]
    decide
  · rw [h]
    decide

/-- An expression that ends with its type has the level of the relational operators. -/
theorem InPreorder.precedence_of_endsWithType (hn : t.InPreorder)
    (h : t.endsWithType value = true) : t.precedence value = Precedence.relational := by
  have hkind := hn.kind_of_endsWithType h
  have htype : t.type value ≠ "non_null_expression" := by
    rw [endsWithType, Bool.or_eq_true, beq_iff_eq, beq_iff_eq] at h
    rcases h with h | h
    · simp [h]
    · simp [h]
  simp [precedence, hkind, htype]

/-- **On the left of an operator**, an expression that ends with its type gets parentheses exactly
if the operator binds more tightly than the relational ones. -/
theorem InPreorder.needsParentheses_of_endsWithType (hn : t.InPreorder) (text : String)
    (hvalue : t.endsWithType value = true) (hp : t.kind p = .binary)
    (hu : t.child? p "left" = some u) :
    t.needsParentheses value text u =
      decide (Precedence.relational < binaryPrecedence (t.operatorText p)) := by
  obtain ⟨hmem, hfield⟩ := mem_of_child? hu
  rw [needsParentheses, hn.parent_of_mem p u hmem]
  simp only [hp, hfield, beq_self_eq_true, if_true, needsParenthesesInBinary,
    hn.kind_of_endsWithType hvalue, hn.precedence_of_endsWithType hvalue]
  by_cases hop : t.operatorText p = "**"
  · have hlevel : binaryPrecedence "**" = 14 := by decide
    simp [hop, hlevel, Precedence.relational]
  · simp [hop]

end Tree

/-- **Inlining an expression that ends with its type** on the left of a binary operator.  It gets
parentheses exactly if the operator binds more tightly than the relational ones, or if it would begin
a statement and not read as an expression.  The operators that go on a type do not bind so tightly.
In the result, what stood behind the usage stands right behind what has taken its place: the
operator comes behind the type, unless there are parentheses. -/
theorem BindingTable.inlined_assertion_before_operator (l : Language) (source : Bytes)
    (root : Concrete) (marker : String) {i : BindingId} {p u d value : NodeId} {r : Rewrite} :
    let t := Tree.ofConcrete l source root
    let b := ofTree t
    b.Substitutes t marker i d value u r → t.endsWithType value = true →
    t.kind p = .binary → t.child? p "left" = some u → t.kind u ≠ .shorthandProperty →
    let begins := (t.statementBegunBy? u).isSome && startsStatementAmbiguously (t.text value)
    let wrap :=
      decide (Precedence.relational < binaryPrecedence (t.operatorText p)) || begins
    (continuesType (t.operatorText p) = true → wrap = begins) ∧
    ∃ terminator ∈ ["", ";"],
      let replacement := terminator ++ parenthesize wrap (t.text value)
      ⟨t.span u, replacement⟩ ∈ r.edits ∧
      ∀ policy, t.Spaced → t.Arranged → b.isSingleUse t policy i = true →
        ∃ before, (Edit.applyAll t.source r.edits).1 =
          before ++ Utf8.encode replacement ++ t.source.drop (t.span u).stop := by
  intro t b h htype hp hu hshorthand begins wrap
  have hn : t.InPreorder := Tree.inPreorder_ofConcrete l source root
  constructor
  · intro hcontinues
    have hlevel := binaryPrecedence_of_continuesType hcontinues
    show (decide _ || begins) = begins
    rw [decide_eq_false (Nat.not_lt.mpr hlevel), Bool.false_or]
  · have hwrap : t.isWrapped value u = wrap := by
      rw [Tree.isWrapped, hn.needsParentheses_of_endsWithType _ htype hp hu]
    obtain ⟨terminator, hterminator, htext⟩ : ∃ terminator ∈ ["", ";"],
        b.inlineText t i d value u =
          terminator ++ parenthesize (t.isWrapped value u) (t.text value) :=
      inlineText_eq hshorthand
    rw [hwrap] at htext
    refine ⟨terminator, hterminator, ?_, ?_⟩
    · rw [← htext]
      exact h.mem_edits
    · intro policy hs ha hsingle
      rw [← htext]
      exact ⟨_, h.applyAll_eq hn hs ha hsingle⟩

/-! ### Two programs -/

namespace Sample

/-- The tree of `x as` with a type. -/
def assertionTree (k : Nat) (type : Concrete) (field : Option String := none) : Concrete :=
  construct "as_expression" k type.head.stop [nameTree k, token "as" (k + 2), type] field

/-- The tree of the type `number`. -/
def numberType (k : Nat) : Concrete := construct "predefined_type" k (k + 6) [token "number" k]

/-- The tree of `f` and `y` with an operator between them. -/
def operationTree (k : Nat) (operator : String) : Concrete :=
  let y := k + 2 + operator.length + 1
  construct "binary_expression" k (y + 1)
    [nameTree k (some "left"), token operator (k + 2) (some "operator"), nameTree y (some "right")]

/-- A number with its type is used on the left of an operator. -/
def asserting (operator : String) : Bytes := naming "x as number" s!"g(f {operator} y)"

/-- The tree of `asserting`. -/
def assertingTree (operator : String) : Concrete :=
  namingTree (assertionTree 10 (numberType 15) (some "value"))
    (callTree (nameTree 23 (some "function")) [operationTree 25 operator])

end Sample

/-- A shift binds more tightly than what ends with a type, which gets parentheses. -/
theorem BindingTable.sample_assertion_before_shift :
    let t := Tree.ofConcrete .typescript (Sample.asserting "<<") (Sample.assertingTree "<<")
    ∃ r, (ofTree t).inline t "" 0 = .ok r ∧ t.Spaced ∧ t.Arranged ∧
      (ofTree t).isSingleUse t Sample.shallow 0 = true ∧ t.endsWithType 4 = true ∧
      t.child? 11 "left" = some 12 ∧
      ∃ terminator ∈ ["", ";"], ∃ before, (Edit.applyAll t.source r.edits).1 =
        before ++ Utf8.encode (terminator ++ "(x as number)") ++ Utf8.encode " << y);\n" := by
  intro t
  have hs : t.Spaced := by decide +kernel
  have ha : t.Arranged := by decide +kernel
  have hfacts : (ofTree t).soleRead? 0 = some 12 ∧
      ((ofTree t).binding 0).declaration = some 1 ∧ ((ofTree t).binding 0).initializer = some 4 ∧
      t.endsWithType 4 = true ∧ t.kind 11 = .binary ∧ t.child? 11 "left" = some 12 ∧
      t.kind 12 ≠ .shorthandProperty ∧ (ofTree t).isSingleUse t Sample.shallow 0 = true ∧
      parenthesize (decide (Precedence.relational < binaryPrecedence (t.operatorText 11)) ||
        ((t.statementBegunBy? 12).isSome && startsStatementAmbiguously (t.text 4))) (t.text 4) =
          "(x as number)" ∧
      t.source.drop (t.span 12).stop = Utf8.encode " << y);\n" ∧
      ((ofTree t).inline t "" 0).toOption.isSome = true := by
    decide +kernel
  obtain ⟨hread, hdeclaration, hvalue, htype, hp, hu, hshorthand, hsingle, htext, hbehind, hsome⟩ :=
    hfacts
  obtain ⟨r, hsome⟩ := Option.isSome_iff_exists.mp hsome
  have hr := Attempt.toOption_eq_some.mp hsome
  obtain ⟨-, terminator, hterminator, -, hafter⟩ := inlined_assertion_before_operator .typescript _
    _ "" ⟨hr, hread, hdeclaration, hvalue⟩ htype hp hu hshorthand
  obtain ⟨before, hresult⟩ := hafter Sample.shallow hs ha hsingle
  rw [htext, hbehind] at hresult
  exact ⟨r, hr, hs, ha, hsingle, htype, hu, terminator, hterminator, before, hresult⟩

/-- **The exception.**  The first operand of `&` gives way to an expression that ends with its type,
without parentheses.  Read again, the argument of the call is no binary expression any more: the
operator and the second operand are in the type, and no name `y` is left. -/
theorem BindingTable.inlined_assertion_swallows :
    let t := Tree.ofConcrete .typescript (Sample.asserting "&") (Sample.assertingTree "&")
    let read := Tree.ofConcrete .typescript (Utf8.encode "g(x as number & y);\n")
      (Sample.usingTree (Sample.callTree (Sample.nameTree 0 (some "function"))
        [Sample.assertionTree 2 (Sample.construct "intersection_type" 7 17 [
          Sample.numberType 7, Sample.token "&" 14, Sample.construct "type_identifier" 16 17 []])]))
    let b := ofTree t
    b.isSingleUse t Sample.shallow 0 = true ∧ t.endsWithType 4 = true ∧ t.kind 11 = .binary ∧
      t.operatorText 11 = "&" ∧ t.child? 11 "left" = some 12 ∧ continuesType "&" = true ∧
      t.isWrapped 4 12 = false ∧
      (b.inline t "" 0).toOption.map (fun r => (Edit.applyAll t.source r.edits).1) =
        some read.source ∧
      t.arguments 8 = [11] ∧ t.isReferenceNode 13 = true ∧ t.text 13 = "y" ∧
      read.arguments 2 = [5] ∧ read.endsWithType 5 = true ∧ read.kind 7 = .type ∧
      read.text 7 = "number & y" ∧
      ∀ n < read.nodes.size, read.isReferenceNode n = true → read.text n ≠ "y" := by
  decide +kernel

end Declutter
