import Declutter.Proofs.Analysis.Passes
import Declutter.Proofs.Expression.Grammar
import Declutter.Proofs.Expression.Reading

/-!
# Expressions in the place of others

An expression that takes the place of another one is put in parentheses when the question after them
is answered so.  That keeps the expression around the place within the grammar, whatever it is and
wherever the place lies in it; only the target of an assignment may not be replaced.

## Main definitions

* `Tree.Spells` — whether a node is written as an expression of the grammar.
* `Tree.replace` — the expression at a node with another one in the place of some node within.
* `Tree.wrapped` — an expression in parentheses where they are needed.
* `Tree.Replaces` — an expression and a node that it may replace.

## Main results

* `Tree.Replaces.derives_replace` — an expression stays what it is when a part is replaced.
* `Tree.InPreorder.within_replace` — what replaces an operand is part of the result.
* `Tree.derives_replace_wrapped` — parentheses are put where the grammar needs them.
-/

namespace Declutter

/-- The kinds of the nodes that are written as expressions of the grammar. -/
def Kind.isOperand : Kind → Bool
  | .identifier | .literal | .parenthesized | .array | .member | .subscript | .call | .update
  | .unary | .await | .binary | .ternary | .assignment | .augmentedAssignment | .sequence => true
  | _ => false

namespace Tree

mutual

/-- Whether a node is written as an expression, without optional links. -/
def Spells (t : Tree) (i : NodeId) : Term → Prop
  | .identifier name => t.kind i = .identifier ∧ t.children i = [] ∧ t.text i = name
  | .literal text =>
    t.kind i = .literal ∧ t.text i = text ∧
      ∀ n ∈ t.subtree i, n ≠ i → (t.kind n).isOperand = false
  | .parenthesized e => t.kind i = .parenthesized ∧ ∃ c, t.children i = [c] ∧ t.Spells c e
  | .array es => t.kind i = .array ∧ t.SpellsAll (t.children i) es
  | .member object name =>
    t.kind i = .member ∧ t.optionalLink i = false ∧ ∃ c n, t.children i = [c, n] ∧
      t.hasField c "object" = true ∧ t.hasField n "property" = true ∧
      t.kind n = .propertyName ∧ t.children n = [] ∧ t.text n = name ∧ t.Spells c object
  | .subscript object index =>
    t.kind i = .subscript ∧ t.optionalLink i = false ∧ ∃ c d, t.children i = [c, d] ∧
      t.hasField c "object" = true ∧ t.hasField d "index" = true ∧
      t.Spells c object ∧ t.Spells d index
  | .call callee es =>
    t.kind i = .call ∧ t.optionalLink i = false ∧ ∃ f a, t.children i = [f, a] ∧
      t.hasField f "function" = true ∧ t.hasField a "arguments" = true ∧ t.kind a = .arguments ∧
      t.Spells f callee ∧ t.SpellsAll (t.children a) es
  | .update leading op e =>
    t.kind i = .update ∧ t.operator i = some op ∧ ∃ c, t.children i = [c] ∧
      leading = decide ((t.span i).start < (t.span c).start) ∧
      t.hasField c "argument" = true ∧ t.Spells c e
  | .unary op e =>
    t.kind i = .unary ∧ t.operator i = some op ∧ ∃ c, t.children i = [c] ∧
      t.hasField c "argument" = true ∧ t.Spells c e
  | .await e => t.kind i = .await ∧ ∃ c, t.children i = [c] ∧ t.Spells c e
  | .binary op left right =>
    t.kind i = .binary ∧ t.operator i = some op ∧ ∃ c d, t.children i = [c, d] ∧
      t.hasField c "left" = true ∧ t.hasField d "right" = true ∧
      t.Spells c left ∧ t.Spells d right
  | .ternary condition consequence alternative =>
    t.kind i = .ternary ∧ ∃ c a b, t.children i = [c, a, b] ∧
      t.hasField c "condition" = true ∧ t.hasField a "consequence" = true ∧
      t.hasField b "alternative" = true ∧
      t.Spells c condition ∧ t.Spells a consequence ∧ t.Spells b alternative
  | .assignment target e =>
    t.kind i = .assignment ∧ ∃ c d, t.children i = [c, d] ∧
      t.hasField c "left" = true ∧ t.hasField d "right" = true ∧
      t.Spells c target ∧ t.Spells d e
  | .augmented op target e =>
    t.kind i = .augmentedAssignment ∧ t.operator i = some op ∧ ∃ c d, t.children i = [c, d] ∧
      t.hasField c "left" = true ∧ t.hasField d "right" = true ∧
      t.Spells c target ∧ t.Spells d e
  | .sequence es => t.kind i = .sequence ∧ t.SpellsAll (t.children i) es

/-- Whether some nodes are written as some expressions, one by one. -/
def SpellsAll (t : Tree) : List NodeId → List Term → Prop
  | [], [] => True
  | i :: is, e :: es => t.Spells i e ∧ t.SpellsAll is es
  | _, _ => False

end

/-- The child at a position. -/
def childAt (t : Tree) (i : NodeId) (k : Nat) : NodeId := (t.children i).getD k 0

mutual

/-- The expression at the node `i` with `value` in the place of the node `site`. -/
def replace (t : Tree) (site : NodeId) (value : Term) (i : NodeId) (e : Term) : Term :=
  if i = site then value
  else
    match e with
    | .identifier name => .identifier name
    | .literal text => .literal text
    | .parenthesized e => .parenthesized (t.replace site value (t.childAt i 0) e)
    | .array es => .array (t.replaceAll site value (t.children i) es)
    | .member object name => .member (t.replace site value (t.childAt i 0) object) name
    | .subscript object index =>
      .subscript (t.replace site value (t.childAt i 0) object)
        (t.replace site value (t.childAt i 1) index)
    | .call callee es =>
      .call (t.replace site value (t.childAt i 0) callee)
        (t.replaceAll site value (t.children (t.childAt i 1)) es)
    | .update leading op e => .update leading op (t.replace site value (t.childAt i 0) e)
    | .unary op e => .unary op (t.replace site value (t.childAt i 0) e)
    | .await e => .await (t.replace site value (t.childAt i 0) e)
    | .binary op left right =>
      .binary op (t.replace site value (t.childAt i 0) left)
        (t.replace site value (t.childAt i 1) right)
    | .ternary condition consequence alternative =>
      .ternary (t.replace site value (t.childAt i 0) condition)
        (t.replace site value (t.childAt i 1) consequence)
        (t.replace site value (t.childAt i 2) alternative)
    | .assignment target e =>
      .assignment (t.replace site value (t.childAt i 0) target)
        (t.replace site value (t.childAt i 1) e)
    | .augmented op target e =>
      .augmented op (t.replace site value (t.childAt i 0) target)
        (t.replace site value (t.childAt i 1) e)
    | .sequence es => .sequence (t.replaceAll site value (t.children i) es)

def replaceAll (t : Tree) (site : NodeId) (value : Term) : List NodeId → List Term → List Term
  | c :: cs, e :: es => t.replace site value c e :: t.replaceAll site value cs es
  | [], es => es
  | _ :: _, [] => []

end

/-- The expression `value` at the node `expr`, written as `text`, in parentheses if they are needed
in the place of `site`. -/
def wrapped (t : Tree) (expr : NodeId) (text : String) (site : NodeId) (value : Term) : Term :=
  if t.needsParentheses expr text site then .parenthesized value else value

/-- Whether a node is the target of an assignment. -/
def isAssigned (t : Tree) (i : NodeId) : Bool :=
  t.hasField i "left" &&
    (t.parentKind? i).any fun k => k == .assignment || k == .augmentedAssignment

theorem hasField_eq_false {t : Tree} {i : NodeId} {a b : String} (h : t.hasField i a = true)
    (hne : a ≠ b) : t.hasField i b = false := by
  rw [hasField, beq_iff_eq] at h
  rw [hasField, h, beq_eq_false_iff_ne]
  exact fun heq => hne (Option.some.inj heq)

variable {t : Tree} {expr site i : NodeId} {text op : String} {value : Term} {l : Level}

/-! ### What is known of an expression by its node -/

namespace Spells

/-- The number by which an expression is compared is that of its level. -/
theorem precedence_eq (h : t.Spells expr value) (hv : value.Produced) :
    t.precedence expr = value.level.rank := by
  cases value with
  | binary op left right =>
    rw [precedence, h.1, operatorText, h.2.1]
    exact Level.binaryPrecedence_eq _ _ hv.1
  | _ =>
    rw [precedence, h.1]
    rfl

/-- Only binary expressions have a level with operators. -/
theorem operators_eq_nil (h : t.Spells expr value) (hkind : t.kind expr ≠ .binary) :
    value.level.operators = [] := by
  cases value with
  | binary op left right => exact absurd h.1 hkind
  | _ => rfl

/-- Only unary expressions have the level of these. -/
theorem level_ne_unary (h : t.Spells expr value) (hv : value.Produced)
    (hkind : t.kind expr ≠ .unary) (hkind' : t.kind expr ≠ .await) : value.level ≠ .unary := by
  cases value with
  | unary op e => exact absurd h.1 hkind
  | await e => exact absurd h.1 hkind'
  | binary op left right =>
    intro hlevel
    have hop := hv.1
    rw [show Level.ofOperator op = .unary from hlevel] at hop
    exact absurd hop List.not_mem_nil
  | _ =>
    intro hlevel
    cases hlevel

/-- An operand whose operator is not kept apart from `op` is of a level that may be mixed with that
of `op`. -/
theorem mixes_eq_false (h : t.Spells expr value) (hv : value.Produced) (hop : op ∈ l.operators)
    (hkept : (t.kind expr == .binary && mixesCoalesce op (t.operatorText expr)) = false) :
    l.mixes value.level = false := by
  by_cases hkind : t.kind expr = .binary
  · cases value with
    | binary op' left right =>
      rw [hkind, beq_self_eq_true, Bool.true_and, operatorText, h.2.1] at hkept
      exact (Level.mixesCoalesce_eq _ _ _ hop _ hv.1).symm.trans hkept
    | _ =>
      have hother := h.1
      rw [hkind] at hother
      cases hother
  · exact Level.mixes_eq_false_of_operators _ _ (h.operators_eq_nil hkind)

/-- Where `??` is not told apart from other operators, a high number is enough. -/
theorem reaches_of_rank_le (h : t.Spells expr value) (hv : value.Produced)
    (hl : ∀ m, l.mixes m = false) (hle : l.rank ≤ t.precedence expr) : l.Reaches value.level := by
  rw [h.precedence_eq hv] at hle
  exact Level.reaches_of_rank_le _ _ hv.level_ne (hl _) hle

/-- The left operand of a binary expression. -/
theorem reaches_left (h : t.Spells expr value) (hv : value.Produced) (hop : t.operator i = some op)
    (hl : op ∈ l.operators) (hbare : t.needsParenthesesInBinary expr i true = false) :
    l.leftOperand.Reaches value.level := by
  have htext : t.operatorText i = op := by rw [operatorText, hop, Option.getD_some]
  simp only [needsParenthesesInBinary, htext, h.precedence_eq hv, Level.binaryPrecedence_eq l op hl,
    if_true] at hbare
  split at hbare
  · cases hbare
  rename_i hkept
  have hmixes := h.mixes_eq_false hv hl (Bool.eq_false_iff.mpr hkept)
  by_cases hexp : l = .exponentiation
  · -- `**` takes neither its own kind nor a unary expression on the left.
    subst hexp
    obtain rfl := List.mem_singleton.mp hl
    simp only [beq_self_eq_true, if_true, Bool.or_eq_false_iff, beq_eq_false_iff_ne,
      decide_eq_false_iff_not, not_le] at hbare
    exact Level.update_reaches _ (h.level_ne_unary hv hbare.1.2 hbare.2) hbare.1.1
  · have hne : op ≠ "**" := fun heq => hexp (Level.eq_exponentiation l (heq ▸ hl))
    simp only [beq_iff_eq, hne, if_false, decide_eq_false_iff_not, not_lt] at hbare
    rw [Level.leftOperand_eq l hexp]
    exact Level.reaches_of_rank_le _ _ hv.level_ne hmixes hbare

/-- The right operand of a binary expression. -/
theorem reaches_right (h : t.Spells expr value) (hv : value.Produced)
    (hop : t.operator i = some op) (hl : op ∈ l.operators)
    (hbare : t.needsParenthesesInBinary expr i false = false) :
    l.rightOperand.Reaches value.level := by
  have htext : t.operatorText i = op := by rw [operatorText, hop, Option.getD_some]
  simp only [needsParenthesesInBinary, htext, h.precedence_eq hv, Level.binaryPrecedence_eq l op hl,
    Bool.false_eq_true, if_false] at hbare
  split at hbare
  · cases hbare
  rename_i hkept
  have hmixes := h.mixes_eq_false hv hl (Bool.eq_false_iff.mpr hkept)
  by_cases hexp : l = .exponentiation
  · subst hexp
    obtain rfl := List.mem_singleton.mp hl
    simp only [beq_self_eq_true, if_true, decide_eq_false_iff_not, not_lt] at hbare
    exact Level.reaches_of_rank_le _ _ hv.level_ne hmixes hbare
  · have hne : op ≠ "**" := fun heq => hexp (Level.eq_exponentiation l (heq ▸ hl))
    simp only [beq_iff_eq, hne, if_false, decide_eq_false_iff_not, not_le] at hbare
    exact Level.rightOperand_reaches _ _ (List.ne_nil_of_mem hl) hexp hmixes hbare

end Spells

/-! ### Places -/

@[simp] theorem replace_self (t : Tree) (site : NodeId) (value e : Term) :
    t.replace site value site e = value := by
  cases e <;> rw [replace, if_pos rfl]

/-- What may take the place of a node, and of which one. -/
structure Replaces (t : Tree) (expr site : NodeId) (value : Term) : Prop where
  numbered : t.InPreorder
  spells : t.Spells expr value
  derives : Derives .expression value
  read : t.isAssigned site = false

namespace Replaces

variable (hr : t.Replaces expr site value) (hp : t.parent? site = some i)

include hr

theorem parent_eq {c : NodeId} {cs : List NodeId} (h : t.children i = cs) (hc : c ∈ cs) :
    t.parent? c = some i :=
  hr.numbered.mem_children_iff.mp (h ▸ hc)

/-- What takes the place of a node is derived from a level that takes it without parentheses, if it
has none. -/
theorem derives_wrapped (h : t.needsParentheses expr text site = false → l.Reaches value.level) :
    Derives l (t.wrapped expr text site value) := by
  rw [wrapped]
  split
  · exact hr.derives.of_parenthesized
  · rename_i hneeds
    exact derives_iff.mpr ⟨h (Bool.eq_false_iff.mpr hneeds), (derives_iff.mp hr.derives).2⟩

theorem derives_of_rank_le (hl : ∀ m, l.mixes m = false)
    (h : t.needsParentheses expr text site = false → l.rank ≤ t.precedence expr) :
    Derives l (t.wrapped expr text site value) := by
  refine hr.derives_wrapped fun hbare => ?_
  exact hr.spells.reaches_of_rank_le (derives_iff.mp hr.derives).2 hl (h hbare)

/-- In parentheses or brackets. -/
theorem derives_inner : Derives .expression (t.wrapped expr text site value) :=
  hr.derives_wrapped fun _ => Level.expression_reaches _

include hp

theorem derives_left (hkind : t.kind i = .binary) (hop : t.operator i = some op)
    (hl : op ∈ l.operators) (hfield : t.hasField site "left" = true) :
    Derives l.leftOperand (t.wrapped expr text site value) := by
  refine hr.derives_wrapped fun hbare => ?_
  rw [needsParentheses, hp] at hbare
  simp only [hkind, beq_self_eq_true, if_true, hfield] at hbare
  exact hr.spells.reaches_left (derives_iff.mp hr.derives).2 hop hl hbare

theorem derives_right (hkind : t.kind i = .binary) (hop : t.operator i = some op)
    (hl : op ∈ l.operators) (hfield : t.hasField site "right" = true) :
    Derives l.rightOperand (t.wrapped expr text site value) := by
  refine hr.derives_wrapped fun hbare => ?_
  have hleft : t.hasField site "left" = false := hasField_eq_false hfield (by decide)
  rw [needsParentheses, hp] at hbare
  simp only [hkind, beq_self_eq_true, if_true, hleft] at hbare
  exact hr.spells.reaches_right (derives_iff.mp hr.derives).2 hop hl hbare

/-- Behind a unary operator. -/
theorem derives_operand (hkind : t.kind i = .unary ∨ t.kind i = .await) :
    Derives .unary (t.wrapped expr text site value) := by
  refine hr.derives_of_rank_le (by decide) fun hbare => ?_
  rw [needsParentheses, hp] at hbare
  rcases hkind with hkind | hkind <;> simp [hkind] at hbare <;> exact hbare.1

theorem derives_object (hkind : t.kind i = .member ∨ t.kind i = .subscript)
    (hfield : t.hasField site "object" = true) :
    Derives .leftHandSide (t.wrapped expr text site value) := by
  refine hr.derives_of_rank_le (by decide) fun hbare => ?_
  rw [needsParentheses, hp] at hbare
  rcases hkind with hkind | hkind <;> simp [hkind, hfield] at hbare <;> exact hbare.1

theorem derives_callee (hkind : t.kind i = .call) (hfield : t.hasField site "function" = true) :
    Derives .leftHandSide (t.wrapped expr text site value) := by
  refine hr.derives_of_rank_le (by decide) fun hbare => ?_
  rw [needsParentheses, hp] at hbare
  simp [hkind, hfield] at hbare
  exact hbare

theorem derives_condition (hkind : t.kind i = .ternary)
    (hfield : t.hasField site "condition" = true) :
    Derives .shortCircuit (t.wrapped expr text site value) := by
  refine hr.derives_of_rank_le (by decide) fun hbare => ?_
  rw [needsParentheses, hp] at hbare
  simp [hkind, hfield] at hbare
  exact hbare

theorem derives_branch (hkind : t.kind i = .ternary)
    (hfield : t.hasField site "condition" = false) :
    Derives .assignment (t.wrapped expr text site value) := by
  refine hr.derives_of_rank_le (by decide) fun hbare => ?_
  rw [needsParentheses, hp] at hbare
  simp [hkind, hfield] at hbare
  exact hbare

/-- A value that is assigned, an element of an array or an argument of a call. -/
theorem derives_assigned (hkind : t.kind i = .assignment ∨ t.kind i = .augmentedAssignment ∨
    t.kind i = .array ∨ t.kind i = .arguments) :
    Derives .assignment (t.wrapped expr text site value) := by
  refine hr.derives_of_rank_le (by decide) fun hbare => ?_
  rw [needsParentheses, hp] at hbare
  rcases hkind with hkind | hkind | hkind | hkind <;>
    simp [hkind, Kind.isAssignmentSlot] at hbare <;> exact hbare

/-- An element of a sequence or the operand of an increment: places that are not told apart, so that
only calls, accesses and what is tighter go there without parentheses. -/
theorem derives_other (hkind : t.kind i = .sequence ∨ t.kind i = .update) :
    Derives .leftHandSide (t.wrapped expr text site value) := by
  refine hr.derives_of_rank_le (by decide) fun hbare => ?_
  rw [needsParentheses, hp] at hbare
  rcases hkind with hkind | hkind <;>
    simp [hkind, Kind.isAssignmentSlot, Kind.isExpressionSlot] at hbare <;> exact hbare

/-- The target of an assignment is no place to read from. -/
theorem not_assigned (hkind : t.kind i = .assignment ∨ t.kind i = .augmentedAssignment) :
    t.hasField site "left" = false := by
  have hread := hr.read
  rw [isAssigned, parentKind?, hp, Option.map_some, Option.any_some] at hread
  rcases hkind with hkind | hkind <;> simpa [hkind] using hread

end Replaces

/-! ### Replacing a node -/

theorem childAt_eq {cs : List NodeId} (h : t.children i = cs) (k : Nat) :
    t.childAt i k = cs.getD k 0 := by
  rw [childAt, h]

theorem length_replaceAll : ∀ {is : List NodeId} {es : List Term}, t.SpellsAll is es →
    (t.replaceAll site value is es).length = es.length
  | [], [], _ => by rw [replaceAll]
  | i :: is, e :: es, h => by
    rw [replaceAll, List.length_cons, List.length_cons, length_replaceAll h.2]

/-- An expression that may be the one to be replaced. -/
theorem derives_ite {e : Term} (hvalue : i = site → Derives l value) (he : Derives l e) :
    Derives l (if i = site then value else e) := by
  split
  · exact hvalue ‹_›
  · exact he

mutual

/-- **An expression stays what it is when a part is replaced**, at each level from which the grammar
derives it; if it is replaced as a whole, that is up to what takes its place. -/
theorem Replaces.derives_replace (hr : t.Replaces expr site value) :
    ∀ {e : Term} {i : NodeId} {l : Level}, t.Spells i e → Derives l e →
      (i = site → Derives l (t.wrapped expr text site value)) →
      Derives l (t.replace site (t.wrapped expr text site value) i e)
  | .identifier _, _, _, _, hd, hself | .literal _, _, _, _, hd, hself => by
    rw [replace]
    exact derives_ite hself hd
  | .parenthesized e, i, l, ⟨_, c, hc, h⟩, hd, hself => by
    obtain ⟨hreach, hparts⟩ := derives_iff.mp hd
    rw [replace]
    simp only [childAt_eq hc, List.getD_cons_zero]
    have hinner := hr.derives_replace h hparts fun _ => hr.derives_inner
    exact derives_ite hself (derives_iff.mpr ⟨hreach, hinner⟩)
  | .array es, i, l, ⟨hkind, hs⟩, hd, hself => by
    obtain ⟨hreach, hparts⟩ := derives_iff.mp hd
    rw [replace]
    refine derives_ite hself (derives_iff.mpr ⟨hreach, hr.derivesAll_replace hs hparts ?_⟩)
    rintro c hc rfl
    exact hr.derives_assigned (hr.numbered.mem_children_iff.mp hc) (by simp [hkind])
  | .member object name, i, l, ⟨hkind, _, c, n, hc, hfield, _, _, _, _, h⟩, hd, hself => by
    obtain ⟨hreach, hparts⟩ := derives_iff.mp hd
    rw [replace]
    simp only [childAt_eq hc, List.getD_cons_zero]
    refine derives_ite hself (derives_iff.mpr ⟨hreach, hr.derives_replace h hparts ?_⟩)
    rintro rfl
    exact hr.derives_object (hr.parent_eq hc (by simp)) (.inl hkind) hfield
  | .subscript object index, i, l, ⟨hkind, _, c, d, hc, hfield, _, ho, hi⟩, hd, hself => by
    obtain ⟨hreach, hparts⟩ := derives_iff.mp hd
    rw [replace]
    simp only [childAt_eq hc, List.getD_cons_zero, List.getD_cons_succ]
    have hindex := hr.derives_replace hi hparts.2 fun _ => hr.derives_inner
    refine derives_ite hself (derives_iff.mpr
      ⟨hreach, hr.derives_replace ho hparts.1 ?_, hindex⟩)
    rintro rfl
    exact hr.derives_object (hr.parent_eq hc (by simp)) (.inr hkind) hfield
  | .call callee es, i, l, ⟨hkind, _, f, a, hc, hfield, _, harguments, hf, hs⟩, hd, hself => by
    obtain ⟨hreach, hparts⟩ := derives_iff.mp hd
    rw [replace]
    simp only [childAt_eq hc, List.getD_cons_zero, List.getD_cons_succ]
    refine derives_ite hself (derives_iff.mpr
      ⟨hreach, hr.derives_replace hf hparts.1 ?_, hr.derivesAll_replace hs hparts.2 ?_⟩)
    · rintro rfl
      exact hr.derives_callee (hr.parent_eq hc (by simp)) hkind hfield
    · rintro c hc rfl
      exact hr.derives_assigned (hr.numbered.mem_children_iff.mp hc) (by simp [harguments])
  | .update leading op e, i, l, ⟨hkind, _, c, hc, _, _, h⟩, hd, hself => by
    obtain ⟨hreach, hop, hparts⟩ := derives_iff.mp hd
    rw [replace]
    simp only [childAt_eq hc, List.getD_cons_zero]
    refine derives_ite hself (derives_iff.mpr ⟨hreach, hop, hr.derives_replace h hparts ?_⟩)
    rintro rfl
    have hoperand : Derives .leftHandSide (t.wrapped expr text c value) :=
      hr.derives_other (hr.parent_eq hc (by simp)) (.inr hkind)
    cases leading with
    | false => exact hoperand
    | true => exact hoperand.of_reaches (by decide)
  | .unary op e, i, l, ⟨hkind, _, c, hc, _, h⟩, hd, hself => by
    obtain ⟨hreach, hop, hparts⟩ := derives_iff.mp hd
    rw [replace]
    simp only [childAt_eq hc, List.getD_cons_zero]
    refine derives_ite hself (derives_iff.mpr ⟨hreach, hop, hr.derives_replace h hparts ?_⟩)
    rintro rfl
    exact hr.derives_operand (hr.parent_eq hc (by simp)) (.inl hkind)
  | .await e, i, l, ⟨hkind, c, hc, h⟩, hd, hself => by
    obtain ⟨hreach, hparts⟩ := derives_iff.mp hd
    rw [replace]
    simp only [childAt_eq hc, List.getD_cons_zero]
    refine derives_ite hself (derives_iff.mpr ⟨hreach, hr.derives_replace h hparts ?_⟩)
    rintro rfl
    exact hr.derives_operand (hr.parent_eq hc (by simp)) (.inr hkind)
  | .binary op left right, i, l, ⟨hkind, hop, c, d, hc, hleft, hright, h, h'⟩, hd, hself => by
    obtain ⟨hreach, hl, hparts⟩ := derives_iff.mp hd
    rw [replace]
    simp only [childAt_eq hc, List.getD_cons_zero, List.getD_cons_succ]
    refine derives_ite hself (derives_iff.mpr
      ⟨hreach, hl, hr.derives_replace h hparts.1 ?_, hr.derives_replace h' hparts.2 ?_⟩)
    · rintro rfl
      exact hr.derives_left (hr.parent_eq hc (by simp)) hkind hop hl hleft
    · rintro rfl
      exact hr.derives_right (hr.parent_eq hc (by simp)) hkind hop hl hright
  | .ternary condition consequence alternative, i, l,
      ⟨hkind, c, a, b, hc, hfield, ha, hb, h, h', h''⟩, hd, hself => by
    obtain ⟨hreach, hparts⟩ := derives_iff.mp hd
    rw [replace]
    simp only [childAt_eq hc, List.getD_cons_zero, List.getD_cons_succ]
    refine derives_ite hself (derives_iff.mpr ⟨hreach, hr.derives_replace h hparts.1 ?_,
      hr.derives_replace h' hparts.2.1 ?_, hr.derives_replace h'' hparts.2.2 ?_⟩)
    · rintro rfl
      exact hr.derives_condition (hr.parent_eq hc (by simp)) hkind hfield
    · rintro rfl
      exact hr.derives_branch (hr.parent_eq hc (by simp)) hkind (hasField_eq_false ha (by decide))
    · rintro rfl
      exact hr.derives_branch (hr.parent_eq hc (by simp)) hkind (hasField_eq_false hb (by decide))
  | .assignment target e, i, l, ⟨hkind, c, d, hc, hleft, _, h, h'⟩, hd, hself => by
    obtain ⟨hreach, hparts⟩ := derives_iff.mp hd
    rw [replace]
    simp only [childAt_eq hc, List.getD_cons_zero, List.getD_cons_succ]
    refine derives_ite hself (derives_iff.mpr
      ⟨hreach, hr.derives_replace h hparts.1 ?_, hr.derives_replace h' hparts.2 ?_⟩)
    · rintro rfl
      rw [hr.not_assigned (hr.parent_eq hc (by simp)) (.inl hkind)] at hleft
      cases hleft
    · rintro rfl
      exact hr.derives_assigned (hr.parent_eq hc (by simp)) (by simp [hkind])
  | .augmented op target e, i, l, ⟨hkind, _, c, d, hc, hleft, _, h, h'⟩, hd, hself => by
    obtain ⟨hreach, hop, hparts⟩ := derives_iff.mp hd
    rw [replace]
    simp only [childAt_eq hc, List.getD_cons_zero, List.getD_cons_succ]
    refine derives_ite hself (derives_iff.mpr
      ⟨hreach, hop, hr.derives_replace h hparts.1 ?_, hr.derives_replace h' hparts.2 ?_⟩)
    · rintro rfl
      rw [hr.not_assigned (hr.parent_eq hc (by simp)) (.inr hkind)] at hleft
      cases hleft
    · rintro rfl
      exact hr.derives_assigned (hr.parent_eq hc (by simp)) (by simp [hkind])
  | .sequence es, i, l, ⟨hkind, hs⟩, hd, hself => by
    obtain ⟨hreach, hlength, hparts⟩ := derives_iff.mp hd
    rw [replace]
    refine derives_ite hself (derives_iff.mpr
      ⟨hreach, (length_replaceAll hs).symm ▸ hlength, hr.derivesAll_replace hs hparts ?_⟩)
    rintro c hc rfl
    have helement : Derives .leftHandSide (t.wrapped expr text c value) :=
      hr.derives_other (hr.numbered.mem_children_iff.mp hc) (.inl hkind)
    exact helement.of_reaches (by decide)

theorem Replaces.derivesAll_replace (hr : t.Replaces expr site value) :
    ∀ {es : List Term} {is : List NodeId} {l : Level}, t.SpellsAll is es →
      (∀ e ∈ es, Derives l e) →
      (∀ i ∈ is, i = site → Derives l (t.wrapped expr text site value)) →
      ∀ e ∈ t.replaceAll site (t.wrapped expr text site value) is es, Derives l e
  | [], [], _, _, hd, _ => by
    rw [replaceAll]
    exact hd
  | e :: es, i :: is, l, ⟨h, hs⟩, hd, hself => by
    rw [replaceAll, List.forall_mem_cons]
    rw [List.forall_mem_cons] at hd hself
    exact ⟨hr.derives_replace h hd.1 hself.1, hr.derivesAll_replace hs hd.2 hself.2⟩

end

/-! ### The place is found -/

/-- The nodes of which the expression at a node is built. -/
def operands (t : Tree) (i : NodeId) : List NodeId :=
  match t.kind i with
  | .identifier | .literal => []
  | .member => [t.childAt i 0]
  | .call => t.childAt i 0 :: t.children (t.childAt i 1)
  | _ => t.children i

theorem Spells.all_operands {e : Term} (h : t.Spells i e) :
    t.SpellsAll (t.operands i) e.operands := by
  rw [operands, Term.operands.eq_def]
  cases e with
  | identifier _ | literal _ =>
    rw [h.1]
    trivial
  | array _ | sequence _ =>
    rw [h.1]
    exact h.2
  | parenthesized _ | await _ =>
    obtain ⟨hkind, c, hc, h⟩ := h
    simp only [hkind, hc]
    exact ⟨h, trivial⟩
  | unary _ _ =>
    obtain ⟨hkind, _, c, hc, _, h⟩ := h
    simp only [hkind, hc]
    exact ⟨h, trivial⟩
  | update _ _ _ =>
    obtain ⟨hkind, _, c, hc, _, _, h⟩ := h
    simp only [hkind, hc]
    exact ⟨h, trivial⟩
  | member _ _ =>
    obtain ⟨hkind, _, c, n, hc, _, _, _, _, _, h⟩ := h
    simp only [hkind, childAt_eq hc]
    exact ⟨h, trivial⟩
  | call _ _ =>
    obtain ⟨hkind, _, f, a, hc, _, _, _, h, hs⟩ := h
    simp only [hkind, childAt_eq hc]
    exact ⟨h, hs⟩
  | subscript _ _ =>
    obtain ⟨hkind, _, c, d, hc, _, _, h, h'⟩ := h
    simp only [hkind, hc]
    exact ⟨h, h', trivial⟩
  | binary _ _ _ | augmented _ _ _ =>
    obtain ⟨hkind, _, c, d, hc, _, _, h, h'⟩ := h
    simp only [hkind, hc]
    exact ⟨h, h', trivial⟩
  | assignment _ _ =>
    obtain ⟨hkind, c, d, hc, _, _, h, h'⟩ := h
    simp only [hkind, hc]
    exact ⟨h, h', trivial⟩
  | ternary _ _ _ =>
    obtain ⟨hkind, c, a, b, hc, _, _, _, h, h', h''⟩ := h
    simp only [hkind, hc]
    exact ⟨h, h', h'', trivial⟩

/-- A replacement below a node goes on in the nodes of which its expression is built. -/
theorem Spells.operands_replace {e : Term} (h : t.Spells i e) (hne : i ≠ site) :
    (t.replace site value i e).operands = t.replaceAll site value (t.operands i) e.operands := by
  rw [operands]
  cases e with
  | identifier _ | literal _ | array _ | sequence _ =>
    rw [replace, if_neg hne, h.1]
    simp only [Term.operands, replaceAll]
  | parenthesized _ | await _ =>
    obtain ⟨hkind, c, hc, -⟩ := h
    rw [replace, if_neg hne, hkind]
    simp only [Term.operands, replaceAll, childAt_eq hc, hc, List.getD_cons_zero]
  | unary _ _ | update _ _ _ =>
    obtain ⟨hkind, -, c, hc, -⟩ := h
    rw [replace, if_neg hne, hkind]
    simp only [Term.operands, replaceAll, childAt_eq hc, hc, List.getD_cons_zero]
  | member _ _ | call _ _ =>
    rw [replace, if_neg hne, h.1]
    simp only [Term.operands, replaceAll]
  | subscript _ _ | binary _ _ _ | augmented _ _ _ =>
    obtain ⟨hkind, -, c, d, hc, -⟩ := h
    rw [replace, if_neg hne, hkind]
    simp only [Term.operands, replaceAll, childAt_eq hc, hc, List.getD_cons_zero,
      List.getD_cons_succ]
  | assignment _ _ =>
    obtain ⟨hkind, c, d, hc, -⟩ := h
    rw [replace, if_neg hne, hkind]
    simp only [Term.operands, replaceAll, childAt_eq hc, hc, List.getD_cons_zero,
      List.getD_cons_succ]
  | ternary _ _ _ =>
    obtain ⟨hkind, c, a, b, hc, -⟩ := h
    rw [replace, if_neg hne, hkind]
    simp only [Term.operands, replaceAll, childAt_eq hc, hc, List.getD_cons_zero,
      List.getD_cons_succ]

theorem SpellsAll.exists_mem {c : NodeId} : ∀ {is : List NodeId} {es : List Term},
    t.SpellsAll is es → c ∈ is →
      ∃ e, t.Spells c e ∧ t.replace site value c e ∈ t.replaceAll site value is es
  | i :: is, e :: es, h, hc => by
    rw [replaceAll]
    rcases List.mem_cons.mp hc with rfl | hc
    · exact ⟨e, h.1, .head _⟩
    · obtain ⟨f, hf, hmem⟩ := SpellsAll.exists_mem h.2 hc
      exact ⟨f, hf, .tail _ hmem⟩

namespace InPreorder

variable (hn : t.InPreorder)

include hn

/-- An operand that lies within an expression lies within one of its operands, unless it is the
expression. -/
theorem exists_operand {e : Term} (h : t.Spells i e) (hsite : site < t.nodes.size)
    (hwithin : t.isWithin site i = true) (hne : site ≠ i)
    (hoperand : (t.kind site).isOperand = true) :
    ∃ c ∈ t.operands i, i < c ∧ t.isWithin site c = true := by
  obtain ⟨c, hc, hsitec⟩ := hn.exists_child_of_isWithin hsite hwithin hne
  have hlt := (hn.child_bounds hc).1
  rw [operands]
  cases e with
  | identifier _ =>
    rw [h.2.1] at hc
    cases hc
  | literal _ =>
    -- There are no operands in a literal.
    have hi : i < t.nodes.size := Nat.lt_of_le_of_lt ((hn.isWithin_iff hsite).mp hwithin).1 hsite
    have hmem := (hn.mem_subtree_iff hi).mpr ((hn.isWithin_iff hsite).mp hwithin)
    rw [h.2.2 site hmem hne] at hoperand
    cases hoperand
  | member _ _ =>
    obtain ⟨hkind, _, o, n, hon, _, _, hname, hnone, -⟩ := h
    rw [hkind]
    rw [hon] at hc
    rcases List.mem_pair.mp hc with rfl | rfl
    · exact ⟨c, by simp [childAt_eq hon], hlt, hsitec⟩
    · -- Nor is the name of a property one.
      by_cases heq : site = c
      · rw [heq, hname] at hoperand
        cases hoperand
      · obtain ⟨d, hd, -⟩ := hn.exists_child_of_isWithin hsite hsitec heq
        rw [hnone] at hd
        cases hd
  | call _ _ =>
    obtain ⟨hkind, _, f, a, hfa, _, _, harguments, -⟩ := h
    rw [hkind]
    rw [hfa] at hc
    rcases List.mem_pair.mp hc with rfl | rfl
    · exact ⟨c, by simp [childAt_eq hfa], hlt, hsitec⟩
    · have heq : site ≠ c := by
        rintro rfl
        rw [harguments] at hoperand
        cases hoperand
      obtain ⟨d, hd, hsited⟩ := hn.exists_child_of_isWithin hsite hsitec heq
      exact ⟨d, by simp [childAt_eq hfa, hd], hlt.trans (hn.child_bounds hd).1, hsited⟩
  | _ =>
    rw [h.1]
    exact ⟨c, hc, hlt, hsitec⟩

/-- **What is put in the place of an operand is part of the result.** -/
theorem within_replace (hsite : site < t.nodes.size) (hoperand : (t.kind site).isOperand = true)
    {i : NodeId} {e : Term} (h : t.Spells i e) (hwithin : t.isWithin site i = true) :
    value.Within (t.replace site value i e) := by
  by_cases hne : i = site
  · rw [hne, replace_self]
    exact .self
  · obtain ⟨c, hc, hlt, hsitec⟩ := hn.exists_operand h hsite hwithin (Ne.symm hne) hoperand
    obtain ⟨f, hf, hmem⟩ := h.all_operands.exists_mem hc
    rw [← h.operands_replace hne] at hmem
    exact .operand hmem (within_replace hsite hoperand hf hsitec)
termination_by t.nodes.size - i
decreasing_by
  -- The numbers grow downwards and stay at most that of the place.
  have hle := ((hn.isWithin_iff hsite).mp hsitec).1
  exact Nat.sub_lt_sub_left (Nat.lt_of_lt_of_le hlt (Nat.le_trans hle hsite.le)) hlt

end InPreorder

/-- **Parentheses are put where the grammar needs them.**  An expression in the place of an operand
of another one, but for the targets of assignments, and in parentheses exactly if the answer says
so: it is part of the result, which the grammar derives if it derives both. -/
theorem derives_replace_wrapped (l : Language) (source : Bytes) (root : Concrete) :
    let t := Tree.ofConcrete l source root
    ∀ (top site expr : NodeId) (text : String) (whole value : Term),
      t.Spells top whole → Derives .expression whole → t.Spells expr value →
      Derives .expression value → t.isWithin site top = true →
      (t.kind site).isOperand = true → t.isAssigned site = false →
      let wrapped := if t.needsParentheses expr text site then .parenthesized value else value
      wrapped.Within (t.replace site wrapped top whole) ∧
        Derives .expression (t.replace site wrapped top whole) := by
  intro t top site expr text whole value hwhole hderives hvalue hvalue' hwithin hoperand hread
  have hn : t.InPreorder := inPreorder_ofConcrete l source root
  have hsite : site < t.nodes.size := by
    refine lt_size_of_kind fun hkind => ?_
    rw [hkind] at hoperand
    cases hoperand
  have hr : t.Replaces expr site value := ⟨hn, hvalue, hvalue', hread⟩
  exact ⟨hn.within_replace hsite hoperand hwhole hwithin,
    hr.derives_replace hwhole hderives fun _ => hr.derives_inner⟩

end Tree

/-! ### A disjunction to the left of `??` -/

namespace Sample

/-- Two operators that may not be mixed. -/
def mixing : Bytes := Utf8.encode "a || b;\ns ?? 0;\n"

/-- The tree of `mixing`. -/
def mixingTree : Concrete :=
  construct "program" 0 16 [
    construct "expression_statement" 0 7 [
      construct "binary_expression" 0 6 [
        construct "identifier" 0 1 [] (some "left"), token "||" 2 (some "operator"),
        construct "identifier" 5 6 [] (some "right")],
      token ";" 6],
    construct "expression_statement" 8 15 [
      construct "binary_expression" 8 14 [
        construct "identifier" 8 9 [] (some "left"), token "??" 10 (some "operator"),
        construct "number" 13 14 [] (some "right")],
      token ";" 14]]

/-- The first expression of `mixing`. -/
def disjunction : Term := .binary "||" (.identifier "a") (.identifier "b")

/-- The second expression of `mixing`, with an operand of its own on the left. -/
def coalescing (left : Term) : Term := .binary "??" left (.literal "0")

end Sample

namespace Tree

/-- The disjunction needs its parentheses. -/
theorem sample_replace_wrapped :
    let t := Tree.ofConcrete .javascript Sample.mixing Sample.mixingTree
    let whole := Sample.coalescing (.identifier "s")
    let result := Sample.coalescing (.parenthesized Sample.disjunction)
    t.Spells 6 whole ∧ Derives .expression whole ∧ t.Spells 2 Sample.disjunction ∧
      Derives .expression Sample.disjunction ∧ t.isWithin 7 6 = true ∧
      (t.kind 7).isOperand = true ∧ t.isAssigned 7 = false ∧
      t.needsParentheses 2 "a || b" 7 = true ∧
      t.replace 7 (.parenthesized Sample.disjunction) 6 whole = result ∧
      (Term.parenthesized Sample.disjunction).Within result ∧ Derives .expression result := by
  intro t whole result
  have hwhole : t.Spells 6 whole := by
    refine ⟨by decide +kernel, by decide +kernel, 7, 8, by decide +kernel, by decide +kernel,
      by decide +kernel, ?_, ?_⟩
    · exact (by decide +kernel : t.kind 7 = .identifier ∧ t.children 7 = [] ∧ t.text 7 = "s")
    · exact (by decide +kernel : t.kind 8 = .literal ∧ t.text 8 = "0" ∧
        ∀ n ∈ t.subtree 8, n ≠ 8 → (t.kind n).isOperand = false)
  have hvalue : t.Spells 2 Sample.disjunction := by
    refine ⟨by decide +kernel, by decide +kernel, 3, 4, by decide +kernel, by decide +kernel,
      by decide +kernel, ?_, ?_⟩
    · exact (by decide +kernel : t.kind 3 = .identifier ∧ t.children 3 = [] ∧ t.text 3 = "a")
    · exact (by decide +kernel : t.kind 4 = .identifier ∧ t.children 4 = [] ∧ t.text 4 = "b")
  have hderives : Derives .expression whole :=
    .of_reaches (m := .coalesce) (by decide) (.binary (by decide)
      (.of_reaches (by decide) (.identifier "s")) (.of_reaches (by decide) (.literal "0")))
  have hderives' : Derives .expression Sample.disjunction :=
    .of_reaches (m := .logicalOr) (by decide) (.binary (by decide)
      (.of_reaches (by decide) (.identifier "a")) (.of_reaches (by decide) (.identifier "b")))
  have hfacts : t.isWithin 7 6 = true ∧ (t.kind 7).isOperand = true ∧ t.isAssigned 7 = false ∧
      t.needsParentheses 2 "a || b" 7 = true ∧ t.childAt 6 0 = 7 ∧ t.childAt 6 1 = 8 := by
    decide +kernel
  obtain ⟨hwithin, hoperand, hread, hneeds, hleft, hright⟩ := hfacts
  have hresult : t.replace 7 (.parenthesized Sample.disjunction) 6 whole = result := by
    change t.replace 7 _ 6 (.binary "??" (.identifier "s") (.literal "0")) = _
    rw [replace, if_neg (by decide)]
    simp only [hleft, hright]
    rw [replace_self, replace, if_neg (by decide)]
    rfl
  have h := derives_replace_wrapped .javascript Sample.mixing Sample.mixingTree 6 7 2 "a || b" whole
    Sample.disjunction hwhole hderives hvalue hderives' hwithin hoperand hread
  rw [if_pos hneeds] at h
  refine ⟨hwhole, hderives, hvalue, hderives', hwithin, hoperand, hread, hneeds, hresult, ?_⟩
  rw [← hresult]
  exact h

end Tree

end Declutter
