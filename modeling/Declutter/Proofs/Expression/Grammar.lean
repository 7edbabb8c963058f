import Declutter.Expression.Precedence
import Mathlib.Data.Fintype.Basic

/-!
# The grammar of expressions

The expressions of the language sorted into levels, one for each nonterminal of the grammar.  An
expression of a level is an expression of the level above it as well; all other productions of a
level build an expression from parts that have to be of certain levels themselves.  Numbers tell the
levels apart for whoever compares them, but the grammar is more than the order of these numbers:
`??` shares one with `||`, with which it may not be mixed, and no unary operator may stand to the
left of `**`.

## Main definitions

* `Level`, `Term` — the nonterminals, and the expressions.
* `Derives` — what the grammar derives from a level.
* `Level.Reaches` — whether productions without other parts lead from one level to another.
* `Term.level`, `Term.Produced` — the tightest level of an expression, and what that asks of its
  parts.

## Main results

* `derives_iff` — a derivation goes down to the level of the expression, and derives its parts.
* `Level.reaches_of_rank_le` — an order of the numbers is an order of the levels, unless `??` is
  mixed with `||` or `&&`.
-/

namespace Declutter

/-- The nonterminals of the grammar, the loosest first. -/
inductive Level where
  | expression
  | assignment
  | conditional
  | shortCircuit
  | logicalOr
  /-- The operands of `??`, alone or joined by it. -/
  | coalesce
  | logicalAnd
  | bitwiseOr
  | bitwiseXor
  | bitwiseAnd
  | equality
  | relational
  | shift
  | additive
  | multiplicative
  | exponentiation
  | unary
  | update
  /-- Calls and accesses. -/
  | leftHandSide
  | primary
  deriving DecidableEq, Repr, Inhabited

/-- An expression without its tokens. -/
inductive Term where
  | identifier (name : String)
  | literal (text : String)
  | parenthesized (e : Term)
  | array (elements : List Term)
  | member (object : Term) (property : String)
  | subscript (object index : Term)
  | call (callee : Term) (arguments : List Term)
  /-- An increment or a decrement; `leading` says whether its operator comes first. -/
  | update (leading : Bool) (operator : String) (e : Term)
  | unary (operator : String) (e : Term)
  | await (e : Term)
  | binary (operator : String) (left right : Term)
  | ternary (condition consequence alternative : Term)
  | assignment (target e : Term)
  | augmented (operator : String) (target e : Term)
  | sequence (elements : List Term)
  deriving Repr, Inhabited

namespace Level

/-- The levels, each once. -/
def all : List Level := [
    expression, assignment, conditional, shortCircuit, logicalOr, coalesce, logicalAnd, bitwiseOr,
    bitwiseXor, bitwiseAnd, equality, relational, shift, additive, multiplicative, exponentiation,
    unary, update, leftHandSide, primary]

instance : Fintype Level where
  elems := ⟨all, by decide⟩
  complete l := by cases l <;> decide

/-- The levels whose expressions are expressions of this one. -/
def tighter : Level → List Level
  | expression => [assignment]
  | assignment => [conditional]
  | conditional => [shortCircuit]
  | shortCircuit => [logicalOr, coalesce]
  | logicalOr => [logicalAnd]
  | coalesce => [bitwiseOr]
  | logicalAnd => [bitwiseOr]
  | bitwiseOr => [bitwiseXor]
  | bitwiseXor => [bitwiseAnd]
  | bitwiseAnd => [equality]
  | equality => [relational]
  | relational => [shift]
  | shift => [additive]
  | additive => [multiplicative]
  | multiplicative => [exponentiation]
  | exponentiation => [unary]
  | unary => [update]
  | update => [leftHandSide]
  | leftHandSide => [primary]
  | primary => []

/-- The binary operators of a level. -/
def operators : Level → List String
  | logicalOr => ["||"]
  | coalesce => ["??"]
  | logicalAnd => ["&&"]
  | bitwiseOr => ["|"]
  | bitwiseXor => ["^"]
  | bitwiseAnd => ["&"]
  | equality => ["==", "!=", "===", "!=="]
  | relational => ["<", ">", "<=", ">=", "instanceof", "in"]
  | shift => ["<<", ">>", ">>>"]
  | additive => ["+", "-"]
  | multiplicative => ["*", "/", "%"]
  | exponentiation => ["**"]
  | _ => []

/-- The level of the left operand of the operators of a level: they group to the left, but for
`**`. -/
def leftOperand : Level → Level
  | exponentiation => update
  | l => l

/-- The level of their right operand. -/
def rightOperand : Level → Level
  | exponentiation => exponentiation
  | l => l.tighter.headD l

end Level

/-- The operators with one operand, less the increments. -/
def unaryOperators : List String := ["+", "-", "!", "~", "typeof", "void", "delete"]

def updateOperators : List String := ["++", "--"]

/-- The operators that compute what they assign. -/
def augmentedOperators : List String := [
    "+=", "-=", "*=", "/=", "%=", "**=", "<<=", ">>=", ">>>=", "&=", "^=", "|=", "&&=", "||=",
    "??="]

/-- What the grammar derives from a level. -/
inductive Derives : Level → Term → Prop
  | unit {l m : Level} {e : Term} (hm : m ∈ l.tighter) (he : Derives m e) : Derives l e
  | sequence {es : List Term} (hlength : 2 ≤ es.length) (hes : ∀ e ∈ es, Derives .assignment e) :
      Derives .expression (.sequence es)
  | assignment {target e : Term} (ht : Derives .leftHandSide target) (he : Derives .assignment e) :
      Derives .assignment (.assignment target e)
  | augmented {op : String} {target e : Term} (hop : op ∈ augmentedOperators)
      (ht : Derives .leftHandSide target) (he : Derives .assignment e) :
      Derives .assignment (.augmented op target e)
  | ternary {c a b : Term} (hc : Derives .shortCircuit c) (ha : Derives .assignment a)
      (hb : Derives .assignment b) : Derives .conditional (.ternary c a b)
  | binary {l : Level} {op : String} {left right : Term} (hop : op ∈ l.operators)
      (hleft : Derives l.leftOperand left) (hright : Derives l.rightOperand right) :
      Derives l (.binary op left right)
  | unary {op : String} {e : Term} (hop : op ∈ unaryOperators) (he : Derives .unary e) :
      Derives .unary (.unary op e)
  | await {e : Term} (he : Derives .unary e) : Derives .unary (.await e)
  | leading {op : String} {e : Term} (hop : op ∈ updateOperators) (he : Derives .unary e) :
      Derives .update (.update true op e)
  | trailing {op : String} {e : Term} (hop : op ∈ updateOperators) (he : Derives .leftHandSide e) :
      Derives .update (.update false op e)
  | call {callee : Term} {es : List Term} (hcallee : Derives .leftHandSide callee)
      (hes : ∀ e ∈ es, Derives .assignment e) : Derives .leftHandSide (.call callee es)
  | member {object : Term} {name : String} (ho : Derives .leftHandSide object) :
      Derives .leftHandSide (.member object name)
  | subscript {object index : Term} (ho : Derives .leftHandSide object)
      (hi : Derives .expression index) : Derives .leftHandSide (.subscript object index)
  | parenthesized {e : Term} (he : Derives .expression e) : Derives .primary (.parenthesized e)
  | array {es : List Term} (hes : ∀ e ∈ es, Derives .assignment e) : Derives .primary (.array es)
  | identifier (name : String) : Derives .primary (.identifier name)
  | literal (text : String) : Derives .primary (.literal text)

namespace Term

/-- The expressions of which an expression is built. -/
def operands : Term → List Term
  | identifier _ | literal _ => []
  | parenthesized e | update _ _ e | unary _ e | await e | member e _ => [e]
  | subscript e f | binary _ e f | assignment e f | augmented _ e f => [e, f]
  | ternary c a b => [c, a, b]
  | call callee es => callee :: es
  | array es | sequence es => es

/-- Whether an expression is another one or a part of it. -/
inductive Within (e : Term) : Term → Prop
  | self : Within e e
  | operand {f g : Term} (hg : g ∈ f.operands) (he : Within e g) : Within e f

end Term

/-! ### The order of the levels -/

namespace Level

/-- The levels to which at most `n` productions without other parts lead. -/
def reachedIn : Nat → Level → List Level
  | 0, l => [l]
  | n + 1, l => l :: l.tighter.flatMap (reachedIn n)

/-- Whether the expressions of one level are expressions of the other; no chain of levels is
longer than their number. -/
def Reaches (l m : Level) : Prop := m ∈ reachedIn 20 l

instance (l m : Level) : Decidable (l.Reaches m) := inferInstanceAs (Decidable (_ ∈ _))

/-- The number by which the levels are compared. -/
def rank : Level → Nat
  | expression => Precedence.sequence
  | assignment => Precedence.assignment
  | conditional => Precedence.conditional
  | shortCircuit | logicalOr | coalesce => Precedence.coalesce
  | logicalAnd => Precedence.logicalAnd
  | bitwiseOr => 6
  | bitwiseXor => 7
  | bitwiseAnd => 8
  | equality => 9
  | relational => Precedence.relational
  | shift => 11
  | additive => 12
  | multiplicative => 13
  | exponentiation => 14
  | unary => Precedence.unary
  | update => Precedence.update
  | leftHandSide => Precedence.call
  | primary => Precedence.primary

/-- Whether an operand of one level and an operator of the other are not to be mixed. -/
def mixes (l m : Level) : Bool :=
  (l == coalesce && (m == logicalOr || m == logicalAnd)) ||
    (m == coalesce && (l == logicalOr || l == logicalAnd))

/-- The level of a binary operator. -/
def ofOperator (op : String) : Level :=
  (all.find? (·.operators.contains op)).getD primary

theorem reaches_self (l : Level) : l.Reaches l := List.mem_cons_self

theorem reaches_of_tighter :
    ∀ l : Level, ∀ m ∈ l.tighter, ∀ k, m.Reaches k → l.Reaches k := by decide

theorem reaches_primary : ∀ l : Level, l.Reaches primary := by decide

theorem expression_reaches : ∀ l : Level, expression.Reaches l := by decide

/-- A looser level reaches a tighter one, if it is a level with expressions of its own and the two
are not to be mixed. -/
theorem reaches_of_rank_le : ∀ l m : Level, m ≠ shortCircuit → l.mixes m = false →
    l.rank ≤ m.rank → l.Reaches m := by decide

theorem eq_exponentiation : ∀ l : Level, "**" ∈ l.operators → l = exponentiation := by decide

/-- Nor is a left operand looser than its operator, if it groups to the left. -/
theorem leftOperand_eq : ∀ l : Level, l ≠ exponentiation → l.leftOperand = l := by decide

/-- The right operand of an operator that groups to the left is tighter than the operator. -/
theorem rightOperand_reaches : ∀ l m : Level, l.operators ≠ [] → l ≠ exponentiation →
    l.mixes m = false → l.rank < m.rank → l.rightOperand.Reaches m := by decide

/-- To the left of `**` goes what is tighter, but for the unary operators. -/
theorem update_reaches : ∀ m : Level, m ≠ unary → exponentiation.rank < m.rank →
    update.Reaches m := by decide

theorem ofOperator_eq : ∀ l : Level, ∀ op ∈ l.operators, ofOperator op = l := by decide

theorem binaryPrecedence_eq :
    ∀ l : Level, ∀ op ∈ l.operators, binaryPrecedence op = l.rank := by decide

theorem mixesCoalesce_eq : ∀ l m : Level, ∀ op ∈ l.operators, ∀ op' ∈ m.operators,
    mixesCoalesce op op' = l.mixes m := by decide

theorem mixes_eq_false_of_operators :
    ∀ l m : Level, m.operators = [] → l.mixes m = false := by decide

end Level

/-! ### The level of an expression -/

namespace Term

/-- The tightest level of an expression, if the grammar derives it at all. -/
def level : Term → Level
  | identifier _ | literal _ | parenthesized _ | array _ => .primary
  | member _ _ | subscript _ _ | call _ _ => .leftHandSide
  | update _ _ _ => .update
  | unary _ _ | await _ => .unary
  | binary op _ _ => .ofOperator op
  | ternary _ _ _ => .conditional
  | assignment _ _ | augmented _ _ _ => .assignment
  | sequence _ => .expression

/-- Whether the grammar derives the parts of an expression from the levels that it asks of them. -/
def Produced : Term → Prop
  | identifier _ | literal _ => True
  | parenthesized e => Derives .expression e
  | array es => ∀ e ∈ es, Derives .assignment e
  | member object _ => Derives .leftHandSide object
  | subscript object index => Derives .leftHandSide object ∧ Derives .expression index
  | call callee es => Derives .leftHandSide callee ∧ ∀ e ∈ es, Derives .assignment e
  | update leading op e =>
    op ∈ updateOperators ∧ Derives (if leading then .unary else .leftHandSide) e
  | unary op e => op ∈ unaryOperators ∧ Derives .unary e
  | await e => Derives .unary e
  | binary op left right =>
    op ∈ (Level.ofOperator op).operators ∧ Derives (Level.ofOperator op).leftOperand left ∧
      Derives (Level.ofOperator op).rightOperand right
  | ternary c a b => Derives .shortCircuit c ∧ Derives .assignment a ∧ Derives .assignment b
  | assignment target e => Derives .leftHandSide target ∧ Derives .assignment e
  | augmented op target e =>
    op ∈ augmentedOperators ∧ Derives .leftHandSide target ∧ Derives .assignment e
  | sequence es => 2 ≤ es.length ∧ ∀ e ∈ es, Derives .assignment e

end Term

variable {l m : Level} {e : Term}

theorem Derives.of_reachedIn {n : Nat} (hm : m ∈ Level.reachedIn n l) (he : Derives m e) :
    Derives l e := by
  induction n generalizing l with
  | zero =>
    rw [Level.reachedIn, List.mem_singleton] at hm
    exact hm ▸ he
  | succ n ih =>
    rw [Level.reachedIn, List.mem_cons, List.mem_flatMap] at hm
    rcases hm with rfl | ⟨k, hk, hm⟩
    · exact he
    · exact .unit hk (ih hm)

/-- What is derived from a level is derived from all that reach it. -/
theorem Derives.of_reaches (h : l.Reaches m) (he : Derives m e) : Derives l e := he.of_reachedIn h

/-- An expression whose parts are as the grammar asks is derived from its level. -/
theorem Term.Produced.derives (h : e.Produced) : Derives e.level e := by
  cases e with
  | identifier name => exact .identifier name
  | literal text => exact .literal text
  | parenthesized _ => exact .parenthesized h
  | array _ => exact .array h
  | member _ _ => exact .member h
  | subscript _ _ => exact .subscript h.1 h.2
  | call _ _ => exact .call h.1 h.2
  | update leading _ _ =>
    cases leading with
    | false => exact .trailing h.1 h.2
    | true => exact .leading h.1 h.2
  | unary _ _ => exact .unary h.1 h.2
  | await _ => exact .await h
  | binary _ _ _ => exact .binary h.1 h.2.1 h.2.2
  | ternary _ _ _ => exact .ternary h.1 h.2.1 h.2.2
  | assignment _ _ => exact .assignment h.1 h.2
  | augmented _ _ _ => exact .augmented h.1 h.2.1 h.2.2
  | sequence _ => exact .sequence h.1 h.2

/-- **A derivation goes down to the level of the expression**, and there it derives the parts. -/
theorem derives_iff : Derives l e ↔ l.Reaches e.level ∧ e.Produced := by
  refine ⟨fun h => ?_, fun h => h.2.derives.of_reaches h.1⟩
  -- Only the first production goes down a level; all others are of the level of the expression.
  induction h with
  | unit hm _ ih => exact ⟨Level.reaches_of_tighter _ _ hm _ ih.1, ih.2⟩
  | binary hop hleft hright =>
    have hlevel := Level.ofOperator_eq _ _ hop
    rw [Term.level, Term.Produced, hlevel]
    exact ⟨Level.reaches_self _, hop, hleft, hright⟩
  | sequence hlength hes => exact ⟨Level.reaches_self _, hlength, hes⟩
  | assignment ht he => exact ⟨Level.reaches_self _, ht, he⟩
  | augmented hop ht he => exact ⟨Level.reaches_self _, hop, ht, he⟩
  | ternary hc ha hb => exact ⟨Level.reaches_self _, hc, ha, hb⟩
  | unary hop he => exact ⟨Level.reaches_self _, hop, he⟩
  | await he => exact ⟨Level.reaches_self _, he⟩
  | leading hop he => exact ⟨Level.reaches_self _, hop, he⟩
  | trailing hop he => exact ⟨Level.reaches_self _, hop, he⟩
  | call hcallee hes => exact ⟨Level.reaches_self _, hcallee, hes⟩
  | member ho => exact ⟨Level.reaches_self _, ho⟩
  | subscript ho hi => exact ⟨Level.reaches_self _, ho, hi⟩
  | parenthesized he => exact ⟨Level.reaches_self _, he⟩
  | array hes => exact ⟨Level.reaches_self _, hes⟩
  | identifier _ | literal _ => exact ⟨Level.reaches_self _, trivial⟩

/-- In parentheses an expression goes everywhere. -/
theorem Derives.of_parenthesized (he : Derives .expression e) : Derives l (.parenthesized e) :=
  .of_reaches (Level.reaches_primary l) (.parenthesized he)

/-- No expression has `??` and the logical operators as its tightest level in common. -/
theorem Term.Produced.level_ne (h : e.Produced) : e.level ≠ .shortCircuit := by
  cases e with
  | binary op _ _ =>
    intro hlevel
    have hop := h.1
    rw [show Level.ofOperator op = .shortCircuit from hlevel] at hop
    exact absurd hop List.not_mem_nil
  | _ =>
    intro hlevel
    cases hlevel

end Declutter
