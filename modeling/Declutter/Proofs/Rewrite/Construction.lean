import Declutter.Proofs.Rewrite.Chain
import Declutter.Proofs.Rewrite.Result

/-!
# Inlining the operand of `new`

The operand of `new` goes as far as the first arguments behind it.  What is applied to `new` is a
name or an access, and the objects of the access are accesses down to a name, a value in parentheses
or the like.  A call among them would take the arguments of `new` for its own, and `new` would apply
what stands before the call.

When a value takes the place of the operand itself, it gets parentheses unless it is a member
expression, whatever the object of that is.  When it takes the place of an object further down, the
place counts as that of any other access, which takes a call as it is.  So a call gets in among the
objects in these two cases.

## Main definitions

* `Tree.meetsCall` — whether a call stands among the objects of an access, without parentheses.
* `Tree.BeginsOperand` — the names at the beginning of an operand.

## Main results

* `BindingTable.operand_of_new_after_inlining` — when the operand meets a call after the rewrite.
* `BindingTable.inlined_operand_splits` — a `new` expression that loses its arguments.
-/

namespace Declutter

namespace Tree

/-- Whether a call stands among an expression and the objects of its accesses.  Parentheses end the
way down. -/
def meetsCall (t : Tree) (i : NodeId) : Bool :=
  (t.descent t.accessObject? i).any fun n => t.kind n == .call

/-- Whether a node begins the operand of a `new` expression: it is the operand, or one of the objects
on the way down from it. -/
structure BeginsOperand (t : Tree) (c f u : NodeId) : Prop where
  kind_eq : t.kind c = .newExpression
  operand_eq : t.child? c "constructor" = some f
  mem_descent : u ∈ t.descent t.accessObject? f

variable {t t' : Tree} {i j c f u value : NodeId}

/-! ### The objects of accesses -/

/-- Only an access has an object. -/
theorem isAccess_of_accessObject? (h : (t.accessObject? i).isSome = true) :
    (t.kind i).isAccess = true := by
  by_contra hkind
  simp [accessObject?_of_kind (Bool.eq_false_of_not_eq_true hkind)] at h

theorem mem_children_of_accessObject? : ∀ i, ∀ c ∈ t.accessObject? i, c ∈ t.children i := by
  intro i c hc
  unfold Tree.accessObject? at hc
  split at hc
  · exact (mem_of_child? hc).1
  · cases hc

/-- What is no access is not looked into. -/
theorem meetsCall_of_kind (h : (t.kind i).isAccess = false) :
    t.meetsCall i = (t.kind i == .call) := by
  simp [meetsCall, descent_of_none (accessObject?_of_kind h)]

/-- What meets a call is a call or an access itself. -/
theorem isChainLink_of_meetsCall (h : t.meetsCall i = true) : (t.kind i).isChainLink = true := by
  by_cases haccess : (t.kind i).isAccess = true
  · revert haccess
    cases t.kind i <;> simp [Kind.isAccess, Kind.isChainLink]
  · rw [meetsCall_of_kind (Bool.eq_false_of_not_eq_true haccess), beq_iff_eq] at h
    rw [h]
    rfl

/-- Corresponding nodes meet the same calls. -/
theorem any_call_of_alike {way way' : List NodeId} (h : List.Forall₂ (t.Alike t') way way') :
    (way'.any fun n => t'.kind n == .call) = way.any fun n => t.kind n == .call := by
  have hkinds := map_eq_of_forall₂ h fun _ _ hab => hab.kind_eq
  have hany := congrArg (List.any · (· == .call)) hkinds
  simpa [List.any_map, Function.comp_def] using hany

/-- A copy meets a call where the value does. -/
theorem Copied.meetsCall (hn : t.InPreorder) (hn' : t'.InPreorder) (h : t.Copied t' i j) :
    t'.meetsCall j = t.meetsCall i := by
  refine any_call_of_alike (h.descent hn hn' mem_children_of_accessObject?
    mem_children_of_accessObject? ?_)
  intro i j h
  exact Becomes.accessObject? h (by simp)

/-- Parentheses hide the calls of a value. -/
theorem Renders.meetsCall {wrap : Bool} (hn : t.InPreorder) (hn' : t'.InPreorder)
    (h : t.Renders t' wrap value j) : t'.meetsCall j = (!wrap && t.meetsCall value) := by
  unfold Renders at h
  cases wrap with
  | true =>
    have hkind : t'.kind j = .parenthesized := h.1
    have haccess : (t'.kind j).isAccess = false := by simp [hkind, Kind.isAccess]
    simp [meetsCall_of_kind haccess, hkind]
  | false => simpa using Copied.meetsCall hn hn' h

/-- All that is on the way down to an object, but for the last object, is accesses. -/
theorem any_call_of_descent {way : List NodeId} {last : NodeId}
    (h : t.descent t.accessObject? i = way ++ [last]) :
    (way.any fun n => t.kind n == .call) = false := by
  rw [List.any_eq_false]
  intro n hmem hcall
  have haccess := isAccess_of_accessObject? (isSome_next_of_descent h n hmem)
  rw [beq_iff_eq.mp hcall] at haccess
  cases haccess

/-- **The objects down to a name** meet no call; where the name gives way to a value, they meet one
exactly if the value does and has no parentheses. -/
theorem Becomes.meetsCall {wrap : Bool} (hn : t.InPreorder) (hn' : t'.InPreorder)
    (hu : (t.kind u).isAccess = false) (hmem : u ∈ t.descent t.accessObject? i)
    (h : t.Becomes t' (some u) (t.Renders t' wrap value) i j) :
    t'.meetsCall j = (!wrap && t.meetsCall value) := by
  obtain ⟨way, way', j₀, hdescent, hdescent', hway, hnew⟩ :=
    h.descent hn hn' mem_children_of_accessObject? mem_children_of_accessObject?
      (fun i j h hi => h.accessObject? hi) (accessObject?_of_kind hu) hmem
  have hbefore := any_call_of_descent hdescent
  have hafter : t'.meetsCall j =
      ((way'.any fun n => t'.kind n == .call) || t'.meetsCall j₀) := by
    rw [Tree.meetsCall, hdescent', List.any_append]
    rfl
  rw [hafter, any_call_of_alike hway, hbefore, hnew.meetsCall hn hn', Bool.false_or]

/-! ### Calls in the place of an object -/

/-- **A value that meets a call** gets parentheses in the place of the operand itself, unless it is a
member expression, and where it would begin a statement and not read as an expression. -/
theorem BeginsOperand.isWrapped_eq (hn : t.InPreorder) (h : t.BeginsOperand c f u)
    (hvalue : t.meetsCall value = true) :
    t.isWrapped value u = ((f == u && t.kind value != .member) ||
      ((t.statementBegunBy? u).isSome && startsStatementAmbiguously (t.text value))) := by
  have hlink := isChainLink_of_meetsCall hvalue
  obtain ⟨hchild, hfield⟩ := mem_of_child? h.operand_eq
  have hparent := hn.parent_of_mem c f hchild
  rw [isWrapped]
  congr 1
  by_cases hfu : f = u
  · subst hfu
    rw [needsParentheses, hparent]
    simp [h.kind_eq, hfield, precedence_of_chainLink hlink, Precedence.call, Precedence.primary]
  · rw [beq_eq_false_iff_ne.mpr hfu, Bool.false_and]
    -- The name is the object of an access, which asks no more than a call does.
    obtain ⟨p, hp⟩ := exists_next_of_mem_descent h.mem_descent hfu
    have haccess := isAccess_of_accessObject? (Option.isSome_of_eq_some hp)
    have hparent := hn.parent_of_mem p u (mem_children_of_accessObject? p u hp)
    refine hn.needsParentheses_of_chainLink _ hparent ?_ hlink
    revert haccess
    cases t.kind p <;> simp [Kind.isAccess, Kind.isChainLink]

end Tree

/-- **Inlining the operand of `new`.**  If the usage that the rewrite replaces is the operand of a
`new` expression, or one of the objects of an access that is the operand, then the operand meets no
call before the rewrite.  In another tree that has the value in the place of the usage, the operand
meets one exactly if the value does and stands there without parentheses.  Such a value gets them if
it is the operand itself and no member expression, or would begin a statement and not read as an
expression. -/
theorem BindingTable.operand_of_new_after_inlining (l : Language) (source : Bytes) (root : Concrete)
    (marker : String) {i : BindingId} {c f u d value : NodeId} {r : Rewrite} :
    let t := Tree.ofConcrete l source root
    let b := ofTree t
    b.Substitutes t marker i d value u r → t.BeginsOperand c f u → t.kind u ≠ .shorthandProperty →
    let wrap := t.isWrapped value u
    t.meetsCall f = false ∧
    (∃ terminator ∈ ["", ";"],
      ⟨t.span u, terminator ++ parenthesize wrap (t.text value)⟩ ∈ r.edits) ∧
    (t.meetsCall value = true → wrap = ((f == u && t.kind value != .member) ||
      ((t.statementBegunBy? u).isSome && startsStatementAmbiguously (t.text value)))) ∧
    ∀ l' source' root' c',
      let t' := Tree.ofConcrete l' source' root'
      t.Becomes t' (some u) (t.Renders t' wrap value) c c' →
        ∃ f', t'.child? c' "constructor" = some f' ∧
          t'.meetsCall f' = (!wrap && t.meetsCall value) := by
  intro t b h hbegins hshorthand wrap
  have hn : t.InPreorder := Tree.inPreorder_ofConcrete l source root
  have hname := h.kind_mem hn (accounted_ofTree t)
  have hu : (t.kind u).isAccess = false ∧ t.kind u ≠ .call ∧ t.kind u ≠ .newExpression := by
    revert hname
    cases t.kind u <;> simp [Kind.isAccess]
  refine ⟨?_, exists_edit_of_inline h.inline_eq h.soleRead_eq h.initializer_eq hshorthand, ?_, ?_⟩
  · obtain ⟨way, hway⟩ :=
      Tree.exists_way_of_mem_descent hbegins.mem_descent (Tree.accessObject?_of_kind hu.1)
    rw [Tree.meetsCall, hway, List.any_append, Tree.any_call_of_descent hway]
    simp [hu.2.1]
  · intro hmeets
    exact hbegins.isWrapped_eq hn hmeets
  · intro l' source' root' c' t' hbecomes
    have hcu : some u ≠ some c := by
      intro heq
      rw [Option.some.inj heq] at hu
      exact hu.2.2 hbegins.kind_eq
    have hoperand := hbecomes.child? hcu "constructor"
    rw [hbegins.operand_eq] at hoperand
    obtain ⟨f', hf', hff⟩ := exists_of_rel_some hoperand
    have hn' := Tree.inPreorder_ofConcrete l' source' root'
    exact ⟨f', hf', hff.meetsCall hn hn' hu.1 hbegins.mem_descent⟩

/-! ### Two programs -/

namespace Sample

/-- The tree of a `new` expression with its arguments. -/
def newTree (k : Nat) (operand : Concrete) (arguments : List Concrete)
    (field : Option String := none) : Concrete :=
  let start := operand.head.stop
  let stop := (arguments.getLast?.map (·.head.stop)).getD (start + 1)
  construct "new_expression" k (stop + 1) [
    token "new" k, operand,
    construct "arguments" start (stop + 1)
      (token "(" start :: (arguments ++ [token ")" stop])) (some "arguments")]
    field

/-- The tree of `new` at an offset, with an operand and the number behind it for an argument. -/
def newOf (k : Nat) (operand : Concrete) : Concrete :=
  newTree k operand [construct "number" (operand.head.stop + 1) (operand.head.stop + 2) []]

/-- The tree of `(g())`. -/
def wrappedCallTree (k : Nat) (field : String) : Concrete :=
  construct "parenthesized_expression" k (k + 5) [
    token "(" k, callTree (nameTree (k + 1) (some "function")) [], token ")" (k + 4)]
    (some field)

/-- The tree of `g().h`. -/
def calledObjectTree (k : Nat) (field : String) : Concrete :=
  accessTree (callTree (nameTree k (some "function")) [] (some "object")) false (some field)

end Sample

/-- A call that becomes the operand gets parentheses. -/
theorem BindingTable.sample_operand_of_new :
    let t := Tree.ofConcrete .javascript (Sample.naming "g()" "new f(1)")
      (Sample.namingTree (Sample.callTree (Sample.nameTree 10 (some "function")) [] (some "value"))
        (Sample.newOf 15 (Sample.nameTree 19 (some "constructor"))))
    let t' := Tree.ofConcrete .javascript (Utf8.encode "new (g())(1);\n")
      (Sample.usingTree (Sample.newOf 0 (Sample.wrappedCallTree 4 "constructor")))
    ∃ r, (ofTree t).inline t "" 0 = .ok r ∧ (Edit.applyAll t.source r.edits).1 = t'.source ∧
      t.meetsCall 9 = false ∧ t.meetsCall 4 = true ∧ t.isWrapped 4 9 = true ∧
      t'.child? 2 "constructor" = some 3 ∧ t'.meetsCall 3 = false := by
  intro t t'
  have hfacts : (ofTree t).soleRead? 0 = some 9 ∧
      ((ofTree t).binding 0).declaration = some 1 ∧ ((ofTree t).binding 0).initializer = some 4 ∧
      t.kind 8 = .newExpression ∧ t.child? 8 "constructor" = some 9 ∧
      9 ∈ t.descent t.accessObject? 9 ∧ t.kind 9 ≠ .shorthandProperty ∧ t.meetsCall 4 = true ∧
      t.kind 4 = .call ∧
      t.checkBecomes t' (some 9) (t.checkRenders t' 3 (t.isWrapped 4 9) 4) 3 8 2 = true ∧
      t'.child? 2 "constructor" = some 3 ∧
      ((ofTree t).inline t "" 0).toOption.map (fun r => (Edit.applyAll t.source r.edits).1) =
        some t'.source := by
    decide +kernel
  obtain ⟨hread, hdeclaration, hvalue, hc, hf, hmem, hshorthand, hmeets, hcall, hcheck, hf',
    hrewritten⟩ := hfacts
  obtain ⟨r, hsome, hsource⟩ := Option.map_eq_some_iff.mp hrewritten
  have hr := Attempt.toOption_eq_some.mp hsome
  obtain ⟨hbefore, -, hwrap, hafter⟩ := operand_of_new_after_inlining .javascript _ _ ""
    ⟨hr, hread, hdeclaration, hvalue⟩ ⟨hc, hf, hmem⟩ hshorthand
  have hwrapped := hwrap hmeets
  rw [hcall] at hwrapped
  obtain ⟨f', hf'', hmeets'⟩ := hafter .javascript _ _ 2
    (Tree.becomes_of_check (fun _ h => Tree.renders_of_check h) hcheck)
  obtain rfl := Option.some.inj (hf'.symm.trans hf'')
  rw [hwrapped] at hmeets'
  exact ⟨r, hr, hsource, hbefore, hmeets, hwrapped, hf', hmeets'⟩

/-- **The exception.**  A property of what a call returns becomes the operand, without parentheses:
a call is among the objects of the operand.  Read again, the rewritten statement applies `new` to
the function that was called, without arguments, and the arguments go to a call of the property. -/
theorem BindingTable.inlined_operand_splits :
    let t := Tree.ofConcrete .javascript (Sample.naming "g().h" "new f(1)")
      (Sample.namingTree (Sample.calledObjectTree 10 "value")
        (Sample.newOf 17 (Sample.nameTree 21 (some "constructor"))))
    let placed := Tree.ofConcrete .javascript (Utf8.encode "new g().h(1);\n")
      (Sample.usingTree (Sample.newOf 0 (Sample.calledObjectTree 4 "constructor")))
    let read := Tree.ofConcrete .javascript placed.source
      (Sample.usingTree (Sample.callOf (Sample.accessTree
        (Sample.newTree 0 (Sample.nameTree 4 (some "constructor")) [] (some "object")) false
        (some "function"))))
    let b := ofTree t
    b.isSingleUse t Sample.shallow 0 = true ∧
      (b.inline t "" 0).toOption.map (fun r => (Edit.applyAll t.source r.edits).1) =
        some read.source ∧
      t.kind 10 = .newExpression ∧ t.child? 10 "constructor" = some 11 ∧ t.meetsCall 11 = false ∧
      t.arguments 10 = [13] ∧ t.meetsCall 4 = true ∧ t.isWrapped 4 11 = false ∧
      t.Becomes placed (some 11) (t.Renders placed false 4) 10 2 ∧
      placed.child? 2 "constructor" = some 3 ∧ placed.meetsCall 3 = true ∧
      read.kind 2 = .call ∧ read.arguments 2 = [9] ∧ read.kind 4 = .newExpression ∧
      read.child? 4 "constructor" = some 5 ∧ read.arguments 4 = [] := by
  intro t placed read b
  have hfacts : b.isSingleUse t Sample.shallow 0 = true ∧
      (b.inline t "" 0).toOption.map (fun r => (Edit.applyAll t.source r.edits).1) =
        some read.source ∧
      t.kind 10 = .newExpression ∧ t.child? 10 "constructor" = some 11 ∧ t.meetsCall 11 = false ∧
      t.arguments 10 = [13] ∧ t.meetsCall 4 = true ∧ t.isWrapped 4 11 = false ∧
      t.checkBecomes placed (some 11) (t.checkRenders placed 3 false 4) 3 10 2 = true ∧
      placed.child? 2 "constructor" = some 3 ∧ placed.meetsCall 3 = true ∧
      read.kind 2 = .call ∧ read.arguments 2 = [9] ∧ read.kind 4 = .newExpression ∧
      read.child? 4 "constructor" = some 5 ∧ read.arguments 4 = [] := by
    decide +kernel
  obtain ⟨hsingle, hrewritten, hc, hf, hbefore, harguments, hmeets, hwrap, hcheck, hafter⟩ := hfacts
  exact ⟨hsingle, hrewritten, hc, hf, hbefore, harguments, hmeets, hwrap,
    Tree.becomes_of_check (fun _ h => Tree.renders_of_check h) hcheck, hafter⟩

end Declutter
