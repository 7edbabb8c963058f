import Declutter.Proofs.Rewrite.Inlining
import Mathlib.Data.List.Basic

/-!
# Values that do not depend on the heap

A value that is written with names that keep their values, literals and operators may be evaluated
earlier or later: what happens in between cannot change it.  But a name that keeps its value may
refer to an array or an object, and what that holds can change.  An operator does not look at it,
since it is a function of its operands; a spread does, and so does a template that writes the
operand out.

Two states of a program that agree on the names that keep their values are compared here.  In both,
such an expression has the same value, if its spreads and templates see the same.

## Main definitions

* `Contents`, `Store` — what arrays and objects hold, and the states of a program.
* `ValueDomain.step`, `ValueDomain.eval` — the value of a node in a state.
* `ValueDomain.ShowsSame` — whether a spread or a template sees the same in two states.
* `ValueDomain.Steady` — whether a value does not depend on the rest of the state.

## Main results

* `ValueDomain.step_congr` — the value of one node, from the values of its parts.
* `ValueDomain.eval_congr`, `ValueDomain.steady_of_movable` — the value of an expression that may
  move.
-/

namespace Declutter

/-! ### States -/

/-- What an array or an object holds: what it yields one by one, and its properties. -/
structure Contents (Val : Type) where
  elements : List Val
  fields : List (String × Val)

/-- A state of a program: the values of the names, and what the arrays and objects hold. -/
structure Store (Val Ref : Type) where
  env : Key → Val
  heap : Ref → Contents Val

/-- Two states agree on the names that keep their values.  The other names, and all arrays and
objects, may differ. -/
def BindingTable.AgreeStably (b : BindingTable) {Val Ref : Type} (s s' : Store Val Ref) : Prop :=
  ∀ k, b.isStableKey k = true → s.env k = s'.env k

/-- The values of a language, with the meaning of literals and operators.  Operators are functions
of their operands, and new arrays and objects are made of their parts alone. -/
structure ValueDomain (Val Ref : Type) where
  literal : String → Val
  unary : Option String → Val → Val
  binary : Option String → Val → Val → Val
  isTruthy : Val → Bool
  /-- An array of some elements; its text says where one is left out. -/
  array : String → List Val → Val
  object : List (String × Val) → Val
  /-- A template, from its text and what its operands look like. -/
  template : String → List String → Val
  /-- What a value with some contents looks like. -/
  display : Val → Contents Val → String
  /-- The array or the object on the heap to which a value refers. -/
  reference? : Val → Option Ref
  /-- The contents of a value that does not refer to the heap. -/
  own : Val → Contents Val
  /-- The value of a part that is missing. -/
  nothing : Val
  /-- The value of anything else, such as a call; it may depend on the whole state. -/
  other : NodeId → Store Val Ref → Val

namespace ValueDomain

variable {Val Ref : Type} (D : ValueDomain Val Ref) (t : Tree) (key : NodeId → Key)
  (s : Store Val Ref)

/-! ### Evaluation -/

/-- The contents of a value in a state. -/
def contents (v : Val) : Contents Val :=
  match D.reference? v with
  | some r => s.heap r
  | none => D.own v

/-- The value of a part, if it is there. -/
def part (value : NodeId → Val) (c : Option NodeId) : Val := (c.map value).getD D.nothing

/-- What an item adds to an array: itself, or the elements of what it spreads. -/
def elementsOf (value : NodeId → Val) (c : NodeId) : List Val :=
  if t.kind c = .spread then (D.contents s (value c)).elements else [value c]

/-- What an item adds to an object: a field, or the fields of what it spreads. -/
def fieldsOf (value : NodeId → Val) (c : NodeId) : List (String × Val) :=
  if t.kind c = .spread then (D.contents s (value c)).fields
  else if t.kind c = .shorthandProperty then [(t.text c, value c)]
  else [(((t.child? c "key").map t.text).getD "", value c)]

/-- The value of a node, given the values of its parts.  A spread, a field or a substitution stands
for its operand. -/
def step (i : NodeId) (value : NodeId → Val) : Val :=
  match t.kind i with
  | .literal => D.literal (t.text i)
  | .identifier | .shorthandProperty => s.env (key i)
  | .parenthesized | .typeExpression => D.part value (t.wrapped? i)
  | .unary => D.unary (t.operator i) (D.part value (t.child? i "argument"))
  | .binary =>
    D.binary (t.operator i) (D.part value (t.child? i "left")) (D.part value (t.child? i "right"))
  | .ternary =>
    if D.isTruthy (D.part value (t.child? i "condition")) then
      D.part value (t.child? i "consequence")
    else D.part value (t.child? i "alternative")
  | .array => D.array (t.text i) ((t.children i).flatMap (D.elementsOf t s value))
  | .object => D.object ((t.children i).flatMap (D.fieldsOf t s value))
  | .template =>
    D.template (t.text i)
      ((t.children i).map fun c => D.display (value c) (D.contents s (value c)))
  | .spread | .templateSubstitution => D.part value (t.children i).head?
  | .pair => D.part value (t.child? i "value")
  | .propertyName | .type => D.nothing
  | _ => D.other i s

/-- The value of a node in a state; `key` says what the names refer to. -/
def eval (i : NodeId) : Val :=
  D.step t key s i fun c => if i < c ∧ c < t.nodes.size then eval c else D.nothing
termination_by t.nodes.size - i
decreasing_by exact Nat.sub_lt_sub_left (Nat.lt_trans ‹_ ∧ _›.1 ‹_ ∧ _›.2) ‹_ ∧ _›.1

/-- The value of a node in the eyes of a node that it is a part of. -/
def evalBelow (i c : NodeId) : Val :=
  if i < c ∧ c < t.nodes.size then D.eval t key s c else D.nothing

/-- Whether a node sees the same in two states: what it spreads holds the same, and what it writes
into a template looks the same. -/
structure ShowsSame (s' : Store Val Ref) (n : NodeId) : Prop where
  spread : t.kind n = .spread →
    D.contents s (D.eval t key s n) = D.contents s' (D.eval t key s n)
  display : t.parentKind? n = some .template →
    D.display (D.eval t key s n) (D.contents s (D.eval t key s n)) =
      D.display (D.eval t key s n) (D.contents s' (D.eval t key s n))

/-- Whether a node has the same value in any two states that agree on the names that keep their
values, if its spreads and templates see the same. -/
def Steady (b : BindingTable) (e : NodeId) : Prop :=
  ∀ s s' : Store Val Ref, b.AgreeStably s s' →
    (∀ n ∈ t.subtree e, D.ShowsSame t (b.key t) s s' n) →
    D.eval t (b.key t) s e = D.eval t (b.key t) s' e

variable {D t key s} {b : BindingTable} {s' : Store Val Ref} {value value' : NodeId → Val}
  {i c : NodeId}

theorem eval_eq : D.eval t key s i = D.step t key s i (D.evalBelow t key s i) := by
  rw [eval]
  rfl

theorem evalBelow_of_mem (hn : t.InPreorder) (hc : c ∈ t.children i) :
    D.evalBelow t key s i c = D.eval t key s c :=
  if_pos ⟨(hn.child_bounds hc).1, hn.lt_size_of_mem hc⟩

/-! ### One node -/

theorem part_congr {c : Option NodeId} (hvalue : ∀ n ∈ c, value n = value' n) :
    D.part value c = D.part value' c := by
  cases c with
  | none => rfl
  | some n => simp [part, hvalue n rfl]

theorem part_child_congr {role : String}
    (hvalue : ∀ c ∈ t.children i, value c = value' c) :
    D.part value (t.child? i role) = D.part value' (t.child? i role) :=
  part_congr fun c hc => hvalue c (Tree.mem_of_child? hc).1

theorem elementsOf_congr (hvalue : value c = value' c)
    (hspread : t.kind c = .spread → D.contents s (value c) = D.contents s' (value c)) :
    D.elementsOf t s value c = D.elementsOf t s' value' c := by
  unfold elementsOf
  split
  · rename_i hkind
    rw [hspread hkind, hvalue]
  · rw [hvalue]

theorem fieldsOf_congr (hvalue : value c = value' c)
    (hspread : t.kind c = .spread → D.contents s (value c) = D.contents s' (value c)) :
    D.fieldsOf t s value c = D.fieldsOf t s' value' c := by
  unfold fieldsOf
  split
  · rename_i hkind
    rw [hspread hkind, hvalue]
  · rw [hvalue]

/-- **The value of a name** that is admitted. -/
theorem eval_name (hkind : t.kind i = .identifier ∨ t.kind i = .shorthandProperty)
    (hstable : t.isStableAt b.kindOf? i = true) (hagree : b.AgreeStably s s') :
    D.eval t (b.key t) s i = D.eval t (b.key t) s' i := by
  have hname : t.isStableName b.kindOf? i = true := by
    rcases hkind with hkind | hkind <;> simpa [Tree.isStableAt, hkind] using hstable
  have henv := hagree _ (b.isStableKey_of_isStableName hname)
  rcases hkind with hkind | hkind <;> simpa [eval_eq, step, hkind] using henv

/-- **The value of any other part** that is admitted, if its own parts have the same values and see
the same. -/
theorem step_congr (hopen : t.endsRead i = false) (htrivial : t.isTrivialAt i = true)
    (hstable : t.isStableAt b.kindOf? i = true)
    (hvalue : ∀ c ∈ t.children i, value c = value' c)
    (hspread : ∀ c ∈ t.children i, t.kind c = .spread →
      D.contents s (value c) = D.contents s' (value c))
    (hdisplay : t.kind i = .template → ∀ c ∈ t.children i,
      D.display (value c) (D.contents s (value c)) =
        D.display (value c) (D.contents s' (value c))) :
    D.step t key s i value = D.step t key s' i value' := by
  have hitem : ∀ c ∈ t.children i, D.elementsOf t s value c = D.elementsOf t s' value' c ∧
      D.fieldsOf t s value c = D.fieldsOf t s' value' c := fun c hc =>
    ⟨elementsOf_congr (hvalue c hc) (hspread c hc), fieldsOf_congr (hvalue c hc) (hspread c hc)⟩
  unfold step
  split
  case h_1 => rfl
  case h_2 hkind | h_3 hkind =>
    rw [Tree.endsRead, hkind] at hopen
    cases hopen
  case h_4 | h_5 =>
    exact part_congr fun c hc => hvalue c (Tree.mem_children_of_wrapped? i c hc)
  case h_6 => rw [part_child_congr hvalue]
  case h_7 => rw [part_child_congr hvalue, part_child_congr hvalue]
  case h_8 => simp only [part_child_congr hvalue]
  case h_9 => rw [List.flatMap_congr fun c hc => (hitem c hc).1]
  case h_10 => rw [List.flatMap_congr fun c hc => (hitem c hc).2]
  case h_11 hkind =>
    congr 1
    refine List.map_congr_left fun c hc => ?_
    rw [hdisplay hkind c hc, hvalue c hc]
  case h_12 | h_13 =>
    exact part_congr fun c hc => hvalue c (List.mem_of_mem_head? hc)
  case h_14 => exact part_child_congr hvalue
  case h_15 | h_16 => rfl
  case h_17 =>
    -- All other parts depend on the state or have effects, which was checked.
    exfalso
    rw [Tree.isStableAt] at hstable
    rw [Tree.isTrivialAt] at htrivial
    cases hkind : t.kind i <;> simp_all [Kind.isTrivial, Kind.readsState]

/-! ### Whole expressions -/

/-- A part that may be read at any time is no function, so that the walks enter it. -/
theorem kind_ne_function (hstable : t.isStableAt b.kindOf? i = true) : t.kind i ≠ .function := by
  intro hkind
  simp [Tree.isStableAt, hkind, Kind.readsState] at hstable

/-- **The value of an expression that may move** is the same in two states that agree on the names
that keep their values, if it sees the same in both. -/
theorem eval_congr (hn : t.InPreorder) (hagree : b.AgreeStably s s') (hi : i < t.nodes.size)
    (htrivial : t.isTriviallyPure i = true) (hstable : t.readsOnlyStable b.kindOf? i = true)
    (hshows : ∀ n ∈ t.subtree i, D.ShowsSame t (b.key t) s s' n) :
    D.eval t (b.key t) s i = D.eval t (b.key t) s' i := by
  induction hk : t.nodes.size - i using Nat.strongRecOn generalizing i with
  | ind k ih =>
    rw [Tree.isTriviallyPure, List.all_eq_true] at htrivial
    rw [Tree.readsOnlyStable, List.all_eq_true] at hstable
    have htrivialAt := htrivial i (hn.self_mem_visited hi)
    have hstableAt := hstable i (hn.self_mem_visited hi)
    have hfunction : (t.kind i == .function) = false := by
      simpa using kind_ne_function hstableAt
    cases hopen : t.endsRead i with
    | true =>
      refine eval_name ?_ hstableAt hagree
      -- An access to a property is not trivially pure.
      rw [Tree.isTrivialAt] at htrivialAt
      cases hkind : t.kind i <;> simp_all [Tree.endsRead, Kind.isTrivial]
    | false =>
      have hbelow : ∀ c ∈ t.children i, t.subtree c ⊆ t.subtree i := fun c hc =>
        hn.subtree_subset hc
      have hchild : ∀ c ∈ t.children i,
          D.eval t (b.key t) s c = D.eval t (b.key t) s' c := by
        intro c hc
        have hb := hn.child_bounds hc
        have hsize := hn.lt_size_of_mem hc
        refine ih (t.nodes.size - c) (by omega) hsize ?_ ?_ ?_ rfl
        · rw [Tree.isTriviallyPure, List.all_eq_true]
          exact fun n hmem => htrivial n (hn.visited_subset hfunction hc hmem)
        · rw [Tree.readsOnlyStable, List.all_eq_true]
          exact fun n hmem => hstable n (hn.visited_subset hopen hc hmem)
        · exact fun n hmem => hshows n (hbelow c hc hmem)
      have hpart : ∀ c ∈ t.children i, D.ShowsSame t (b.key t) s s' c := fun c hc =>
        hshows c (hbelow c hc (hn.self_mem_subtree (hn.lt_size_of_mem hc)))
      rw [eval_eq, eval_eq]
      refine step_congr hopen htrivialAt hstableAt ?_ ?_ ?_
      · intro c hc
        rw [evalBelow_of_mem hn hc, evalBelow_of_mem hn hc, hchild c hc]
      · intro c hc hkind
        rw [evalBelow_of_mem hn hc]
        exact (hpart c hc).spread hkind
      · intro hkind c hc
        rw [evalBelow_of_mem hn hc]
        refine (hpart c hc).display ?_
        rw [Tree.parentKind?, hn.parent_of_mem i c hc, Option.map_some, hkind]

/-- **An expression that may move is steady.** -/
theorem steady_of_movable (hn : t.InPreorder) (hi : i < t.nodes.size)
    (htrivial : t.isTriviallyPure i = true) (hstable : t.readsOnlyStable b.kindOf? i = true) :
    D.Steady t b i :=
  fun _ _ hagree hshows => eval_congr hn hagree hi htrivial hstable hshows

end ValueDomain

end Declutter
