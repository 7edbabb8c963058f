import Declutter.Binding.Basic
import Mathlib.Logic.Function.Basic

/-!
# The core of the expression language

Literals, names, operators, assignments to names and calls of names, with an evaluation from left
to right.  What the operators and the calls compute is left open: a machine says it, and what is
proved here holds for all machines.

A machine keeps one name apart, the hidden one: no call sees it or changes it.  Nor does a call
change a stable name.  What is called by a text that is listed as pure does not change anything.

## Main definitions

* `Key`, `State` — what a name refers to, and the values of all names with the calls so far.
* `Interpretation`, `Machine` — the meaning of literals and operators, and what calls may do.
* `Expr`, `Machine.eval` — the expressions, and their evaluation.
* `Statement`, `Machine.run` — statements that consist of one expression.
* `State.Agree` — whether two states differ in the value of one name only.

## Main results

* `Machine.eval_agree` — an expression that does not mention the hidden name does not depend on it.
* `Machine.eval_of_effectless` — an expression without effects leaves the state alone.
* `Machine.eval_env` — an evaluation keeps the hidden and the stable names, if it assigns to none.
-/

namespace Declutter

/-- What a name refers to: a binding, or a name that the program does not declare. -/
inductive Key where
  | bound (i : BindingId)
  | free (name : String)
  deriving DecidableEq, Repr, Inhabited

/-- The expressions of the core.  A name stands for the node where it is written. -/
inductive Expr where
  | literal (text : String)
  | name (n : NodeId)
  | parenthesized (e : Expr)
  | unary (operator : String) (e : Expr)
  | binary (operator : String) (left right : Expr)
  | ternary (condition consequence alternative : Expr)
  | assign (target : NodeId) (e : Expr)
  | call (callee : NodeId) (text : String) (optional : Bool) (arguments : List Expr)
  deriving Repr, Inhabited

namespace Expr

mutual

/-- The names that an expression mentions: the ones it reads, calls or assigns to. -/
def names : Expr → List NodeId
  | literal _ => []
  | name n => [n]
  | parenthesized e | unary _ e => e.names
  | binary _ l r => l.names ++ r.names
  | ternary c a b => c.names ++ a.names ++ b.names
  | assign n e => n :: e.names
  | call f _ _ es => f :: namesAll es

def namesAll : List Expr → List NodeId
  | [] => []
  | e :: es => e.names ++ namesAll es

end

mutual

/-- The names that an expression assigns to. -/
def targets : Expr → List NodeId
  | literal _ | name _ => []
  | parenthesized e | unary _ e => e.targets
  | binary _ l r => l.targets ++ r.targets
  | ternary c a b => c.targets ++ a.targets ++ b.targets
  | assign n e => n :: e.targets
  | call _ _ _ es => targetsAll es

def targetsAll : List Expr → List NodeId
  | [] => []
  | e :: es => e.targets ++ targetsAll es

end

mutual

/-- An expression mentions what it assigns to. -/
theorem mem_names_of_mem_targets {n : NodeId} : ∀ {e : Expr}, n ∈ e.targets → n ∈ e.names
  | literal _, h | name _, h => nomatch h
  | parenthesized e, h | unary _ e, h => mem_names_of_mem_targets (e := e) h
  | binary _ _ _, h =>
    List.mem_append.mpr ((List.mem_append.mp h).imp mem_names_of_mem_targets
      mem_names_of_mem_targets)
  | ternary _ _ _, h =>
    List.mem_append.mpr ((List.mem_append.mp h).imp
      (fun h => List.mem_append.mpr ((List.mem_append.mp h).imp mem_names_of_mem_targets
        mem_names_of_mem_targets)) mem_names_of_mem_targets)
  | assign _ _, h => List.mem_cons.mpr ((List.mem_cons.mp h).imp_right mem_names_of_mem_targets)
  | call _ _ _ _, h => .tail _ (mem_namesAll_of_mem_targetsAll h)

theorem mem_namesAll_of_mem_targetsAll {n : NodeId} : ∀ {es : List Expr},
    n ∈ targetsAll es → n ∈ namesAll es
  | [], h => nomatch h
  | _ :: _, h =>
    List.mem_append.mpr ((List.mem_append.mp h).imp mem_names_of_mem_targets
      mem_namesAll_of_mem_targetsAll)

end

mutual

/-- Whether an expression does not assign, and calls only what is listed as pure. -/
def Effectless (pure : List String) : Expr → Prop
  | literal _ | name _ => True
  | parenthesized e | unary _ e => e.Effectless pure
  | binary _ l r => l.Effectless pure ∧ r.Effectless pure
  | ternary c a b => c.Effectless pure ∧ a.Effectless pure ∧ b.Effectless pure
  | assign _ _ => False
  | call _ text _ es => pure.contains text = true ∧ EffectlessAll pure es

def EffectlessAll (pure : List String) : List Expr → Prop
  | [] => True
  | e :: es => e.Effectless pure ∧ EffectlessAll pure es

end

mutual

/-- An expression with `value` in the place of the name at `usage`. -/
def substitute (usage : NodeId) (value : Expr) : Expr → Expr
  | literal text => literal text
  | name n => if n = usage then value else name n
  | parenthesized e => parenthesized (substitute usage value e)
  | unary op e => unary op (substitute usage value e)
  | binary op l r => binary op (substitute usage value l) (substitute usage value r)
  | ternary c a b =>
    ternary (substitute usage value c) (substitute usage value a) (substitute usage value b)
  | assign n e => assign n (substitute usage value e)
  | call f text optional es => call f text optional (substituteAll usage value es)

def substituteAll (usage : NodeId) (value : Expr) : List Expr → List Expr
  | [] => []
  | e :: es => substitute usage value e :: substituteAll usage value es

end

end Expr

/-- The statements that evaluate one expression: an expression, a `return`, or the declaration of a
name. -/
inductive Statement where
  | expression (e : Expr)
  | «return» (e : Expr)
  | declare (n : NodeId) (e : Expr)
  deriving Repr, Inhabited

/-- A statement with `value` in the place of the name at `usage`. -/
def Statement.substitute (usage : NodeId) (value : Expr) : Statement → Statement
  | expression e => expression (.substitute usage value e)
  | «return» e => «return» (.substitute usage value e)
  | declare n e => declare n (.substitute usage value e)

/-! ### States -/

/-- The values of all names, and the log of the calls. -/
structure State (Val Event : Type) where
  env : Key → Val
  log : List Event

namespace State

variable {Val Event : Type}

/-- The state after an assignment. -/
def assign (s : State Val Event) (k : Key) (v : Val) : State Val Event :=
  { s with env := Function.update s.env k v }

/-- Whether two states agree on everything but the value of one name. -/
structure Agree (hidden : Key) (s s' : State Val Event) : Prop where
  env : ∀ k ≠ hidden, s.env k = s'.env k
  log : s.log = s'.log

variable {hidden : Key} {s s' : State Val Event}

theorem Agree.refl (s : State Val Event) : Agree hidden s s := ⟨fun _ _ => rfl, rfl⟩

theorem agree_assign (s : State Val Event) (v : Val) : Agree hidden s (s.assign hidden v) :=
  ⟨fun _ hk => (Function.update_of_ne hk ..).symm, rfl⟩

theorem Agree.assign (h : Agree hidden s s') (k : Key) (v : Val) :
    Agree hidden (s.assign k v) (s'.assign k v) := by
  refine ⟨fun j hj => ?_, h.log⟩
  by_cases hjk : j = k
  · subst hjk
    simp [State.assign]
  · simp [State.assign, Function.update_of_ne hjk, h.env j hj]

end State

/-- What a call does: its value, what it adds to the log, and the values it leaves behind. -/
structure Effect (Val Event : Type) where
  value : Val
  events : List Event
  env : Key → Val

/-- The meaning of literals, operators and calls. -/
structure Interpretation (Val Event : Type) where
  literal : String → Val
  unary : String → Val → Val
  binary : String → Val → Val → Val
  isTruthy : Val → Bool
  isNullish : Val → Bool
  /-- The value of an optional call of nothing. -/
  undefined : Val
  /-- What a pure function makes of its arguments; it goes by the text of the callee. -/
  compute : String → List Val → Val
  /-- What any other function makes of its arguments and the names that it sees. -/
  perform : String → Val → List Val → (Key → Option Val) → Effect Val Event

/-- An interpretation together with what calls may do. -/
structure Machine (Val Event : Type) extends Interpretation Val Event where
  /-- The texts of the callees that are pure. -/
  pure : List String
  /-- The name that no call sees or changes. -/
  hidden : Key
  /-- The names that no call changes. -/
  isStable : Key → Bool

/-- The operators that may leave their right side alone. -/
def isShortCircuit (operator : String) : Bool := ["&&", "||", "??"].contains operator

namespace Machine

variable {Val Event : Type} (M : Machine Val Event)

/-- Whether an operator leaves its right side alone when the left one has a value. -/
def stopsAt (operator : String) (v : Val) : Bool :=
  isShortCircuit operator &&
    if operator = "&&" then !M.isTruthy v
    else if operator = "||" then M.isTruthy v
    else !M.isNullish v

/-- What an operator makes of the values of both sides. -/
def combine (operator : String) (v w : Val) : Val :=
  if isShortCircuit operator then w else M.binary operator v w

/-- What a call sees of the names. -/
def visible (env : Key → Val) (k : Key) : Option Val :=
  if k = M.hidden then none else some (env k)

/-- A call with its arguments evaluated. -/
def call (text : String) (callee : Val) (arguments : List Val) (s : State Val Event) :
    Val × State Val Event :=
  if M.pure.contains text then (M.compute text arguments, s)
  else
    let effect := M.perform text callee arguments (M.visible s.env)
    (effect.value,
      { env := fun k => if k = M.hidden ∨ M.isStable k = true then s.env k else effect.env k
        log := s.log ++ effect.events })

mutual

/-- The value of an expression, and the state after its evaluation; `key` says what the names refer
to. -/
def eval (key : NodeId → Key) : Expr → State Val Event → Val × State Val Event
  | .literal text, s => (M.literal text, s)
  | .name n, s => (s.env (key n), s)
  | .parenthesized e, s => eval key e s
  | .unary op e, s =>
    let r := eval key e s
    (M.unary op r.1, r.2)
  | .binary op left right, s =>
    let l := eval key left s
    if M.stopsAt op l.1 then l
    else
      let r := eval key right l.2
      (M.combine op l.1 r.1, r.2)
  | .ternary condition consequence alternative, s =>
    let c := eval key condition s
    if M.isTruthy c.1 then eval key consequence c.2 else eval key alternative c.2
  | .assign n e, s =>
    let r := eval key e s
    (r.1, r.2.assign (key n) r.1)
  | .call f text optional arguments, s =>
    let callee := s.env (key f)
    if optional && M.isNullish callee then (M.undefined, s)
    else
      let r := evalAll key arguments s
      M.call text callee r.1 r.2

/-- The values of some expressions, evaluated from left to right. -/
def evalAll (key : NodeId → Key) : List Expr → State Val Event → List Val × State Val Event
  | [], s => ([], s)
  | e :: es, s =>
    let r := eval key e s
    let rs := evalAll key es r.2
    (r.1 :: rs.1, rs.2)

end

/-- The value that a statement computes, and the state after it. -/
def run (key : NodeId → Key) : Statement → State Val Event → Val × State Val Event
  | .expression e, s | .return e, s => M.eval key e s
  | .declare n e, s => ((M.eval key e s).1, (M.eval key e s).2.assign (key n) (M.eval key e s).1)

/-- The state after the declaration of the hidden name. -/
def declared (key : NodeId → Key) (value : Expr) (s : State Val Event) : State Val Event :=
  (M.eval key value s).2.assign M.hidden (M.eval key value s).1

/-! ### Evaluation without effects -/

variable {M} {key key' : NodeId → Key} {s s' : State Val Event}

/-- Whether two evaluations end alike, but for the value of the hidden name. -/
def Same {α : Type} (M : Machine Val Event) (r r' : α × State Val Event) : Prop :=
  r.1 = r'.1 ∧ r.2.Agree M.hidden r'.2

mutual

/-- An expression without effects leaves the state alone. -/
theorem eval_of_effectless : ∀ {e : Expr} (s : State Val Event), e.Effectless M.pure →
    (M.eval key e s).2 = s
  | .literal _, _, _ | .name _, _, _ => rfl
  | .parenthesized e, s, h => eval_of_effectless (e := e) s h
  | .unary _ e, s, h => eval_of_effectless (e := e) s h
  | .binary op l r, s, ⟨hl, hr⟩ => by
    rw [eval]
    split
    · exact eval_of_effectless s hl
    · exact (eval_of_effectless _ hr).trans (eval_of_effectless s hl)
  | .ternary c a b, s, ⟨hc, ha, hb⟩ => by
    rw [eval]
    split
    · exact (eval_of_effectless _ ha).trans (eval_of_effectless s hc)
    · exact (eval_of_effectless _ hb).trans (eval_of_effectless s hc)
  | .call f text optional es, s, ⟨hpure, hes⟩ => by
    rw [eval]
    dsimp only
    split
    · rfl
    · -- A pure call leaves the state that its arguments left.
      rw [call, if_pos hpure]
      exact evalAll_of_effectless s hes

theorem evalAll_of_effectless : ∀ {es : List Expr} (s : State Val Event),
    Expr.EffectlessAll M.pure es → (M.evalAll key es s).2 = s
  | [], _, _ => rfl
  | _ :: _, s, ⟨he, hes⟩ =>
    (evalAll_of_effectless _ hes).trans (eval_of_effectless s he)

end

mutual

/-- The value of an expression without effects depends only on the names that it mentions. -/
theorem eval_congr : ∀ {e : Expr} (s s' : State Val Event), e.Effectless M.pure →
    (∀ n ∈ e.names, s.env (key n) = s'.env (key n)) → (M.eval key e s).1 = (M.eval key e s').1
  | .literal _, _, _, _, _ => rfl
  | .name n, _, _, _, h => h n (.head _)
  | .parenthesized e, s, s', he, h => eval_congr (e := e) s s' he h
  | .unary op e, s, s', he, h => congrArg (M.unary op) (eval_congr (e := e) s s' he h)
  | .binary op l r, s, s', ⟨hl, hr⟩, h => by
    have hleft := eval_congr s s' hl fun n hn =>
      h n (List.mem_append_left _ hn)
    have hright := eval_congr s s' hr fun n hn =>
      h n (List.mem_append_right _ hn)
    rw [eval, eval]
    dsimp only
    rw [eval_of_effectless s hl, eval_of_effectless s' hl, hleft, hright]
    split
    · exact hleft
    · rfl
  | .ternary c a b, s, s', ⟨hc, ha, hb⟩, h => by
    have hcondition := eval_congr s s' hc fun n hn =>
      h n (List.mem_append_left _ (List.mem_append_left _ hn))
    have hthen := eval_congr s s' ha fun n hn =>
      h n (List.mem_append_left _ (List.mem_append_right _ hn))
    have helse := eval_congr s s' hb fun n hn =>
      h n (List.mem_append_right _ hn)
    rw [eval, eval, eval_of_effectless s hc, eval_of_effectless s' hc, hcondition]
    split
    · exact hthen
    · exact helse
  | .call f text optional es, s, s', ⟨hpure, hes⟩, h => by
    have hcallee := h f (.head _)
    have harguments := evalAll_congr s s' hes fun n hn => h n (.tail _ hn)
    rw [eval, eval]
    dsimp only
    rw [hcallee]
    split
    · rfl
    · rw [call, call, if_pos hpure, if_pos hpure, harguments]

theorem evalAll_congr : ∀ {es : List Expr} (s s' : State Val Event),
    Expr.EffectlessAll M.pure es →
    (∀ n ∈ Expr.namesAll es, s.env (key n) = s'.env (key n)) →
    (M.evalAll key es s).1 = (M.evalAll key es s').1
  | [], _, _, _, _ => rfl
  | e :: es, s, s', ⟨he, hes⟩, h => by
    have hhead := eval_congr s s' he fun n hn => h n (List.mem_append_left _ hn)
    have htail := evalAll_congr s s' hes fun n hn =>
      h n (List.mem_append_right _ hn)
    rw [evalAll, evalAll, eval_of_effectless s he, eval_of_effectless s' he, hhead, htail]

end

/-! ### Evaluation without the hidden name -/

theorem visible_congr {env env' : Key → Val} (h : ∀ k ≠ M.hidden, env k = env' k) :
    M.visible env = M.visible env' := by
  funext k
  unfold visible
  split
  · rfl
  · rename_i hk
    rw [h k hk]

/-- A call does not depend on the hidden name. -/
theorem call_agree (text : String) (callee : Val) (arguments : List Val)
    (h : s.Agree M.hidden s') :
    M.Same (M.call text callee arguments s) (M.call text callee arguments s') := by
  unfold call
  split
  · exact ⟨rfl, h⟩
  · rw [visible_congr h.env, h.log]
    refine ⟨rfl, fun k hk => ?_, rfl⟩
    dsimp only
    split
    · exact h.env k hk
    · rfl

mutual

/-- **An expression that does not mention the hidden name** does not depend on it. -/
theorem eval_agree : ∀ {e : Expr} {s s' : State Val Event}, (∀ n ∈ e.names, key n ≠ M.hidden) →
    s.Agree M.hidden s' → M.Same (M.eval key e s) (M.eval key e s')
  | .literal _, _, _, _, h => ⟨rfl, h⟩
  | .name n, _, _, hn, h => ⟨h.env _ (hn n (.head _)), h⟩
  | .parenthesized e, _, _, hn, h => eval_agree (e := e) hn h
  | .unary op e, _, _, hn, h =>
    have he := eval_agree (e := e) hn h
    ⟨congrArg (M.unary op) he.1, he.2⟩
  | .binary op l r, s, s', hn, h => by
    have hl := eval_agree (e := l) (fun n hm => hn n (List.mem_append_left _ hm)) h
    have hr := eval_agree (e := r) (fun n hm => hn n (List.mem_append_right _ hm)) hl.2
    rw [eval, eval]
    dsimp only
    rw [hl.1]
    split
    · exact hl
    · exact ⟨congrArg (M.combine op _) hr.1, hr.2⟩
  | .ternary c a b, s, s', hn, h => by
    have hc := eval_agree (e := c)
      (fun n hm => hn n (List.mem_append_left _ (List.mem_append_left _ hm))) h
    rw [eval, eval, hc.1]
    split
    · exact eval_agree (fun n hm => hn n (List.mem_append_left _ (List.mem_append_right _ hm))) hc.2
    · exact eval_agree (fun n hm => hn n (List.mem_append_right _ hm)) hc.2
  | .assign n e, s, s', hn, h => by
    -- Both states are changed alike, also where the target is the hidden name.
    have he := eval_agree (e := e) (fun n hm => hn n (.tail _ hm)) h
    rw [eval, eval, he.1]
    exact ⟨rfl, he.2.assign _ _⟩
  | .call f text optional es, s, s', hn, h => by
    have hes := evalAll_agree es (fun n hm => hn n (.tail _ hm)) h
    rw [eval, eval]
    dsimp only
    rw [h.env _ (hn f (.head _)), hes.1]
    -- The callee is not the hidden name, so both calls are passed over or neither is.
    split
    · exact ⟨rfl, h⟩
    · exact call_agree _ _ _ hes.2

theorem evalAll_agree : ∀ (es : List Expr) {s s' : State Val Event},
    (∀ n ∈ Expr.namesAll es, key n ≠ M.hidden) → s.Agree M.hidden s' →
    M.Same (M.evalAll key es s) (M.evalAll key es s')
  | [], _, _, _, h => ⟨rfl, h⟩
  | e :: es, s, s', hn, h => by
    have he := eval_agree (e := e) (fun n hm => hn n (List.mem_append_left _ hm)) h
    have hes := evalAll_agree es (fun n hm => hn n (List.mem_append_right _ hm)) he.2
    rw [evalAll, evalAll, he.1, hes.1]
    exact ⟨rfl, hes.2⟩

end

/-! ### Names that no call changes -/

theorem call_env (text : String) (callee : Val) (arguments : List Val) {k : Key}
    (h : k = M.hidden ∨ M.isStable k = true) :
    (M.call text callee arguments s).2.env k = s.env k := by
  unfold call
  split
  · rfl
  · exact if_pos h

mutual

/-- **A hidden or stable name to which an expression does not assign** keeps its value. -/
theorem eval_env {k : Key} (hk : k = M.hidden ∨ M.isStable k = true) :
    ∀ {e : Expr} (s : State Val Event),
      (∀ n ∈ e.targets, key n ≠ k) → (M.eval key e s).2.env k = s.env k
  | .literal _, _, _ | .name _, _, _ => rfl
  | .parenthesized e, s, h => eval_env hk (e := e) s h
  | .unary _ e, s, h => eval_env hk (e := e) s h
  | .binary op l r, s, h => by
    have hl := eval_env hk (e := l) s fun n hn => h n (List.mem_append_left _ hn)
    rw [eval]
    dsimp only
    split
    · exact hl
    · exact (eval_env hk _ fun n hn => h n (List.mem_append_right _ hn)).trans hl
  | .ternary c a b, s, h => by
    have hc := eval_env hk (e := c) s fun n hn =>
      h n (List.mem_append_left _ (List.mem_append_left _ hn))
    rw [eval]
    split
    · exact (eval_env hk _ fun n hn =>
        h n (List.mem_append_left _ (List.mem_append_right _ hn))).trans hc
    · exact (eval_env hk _ fun n hn => h n (List.mem_append_right _ hn)).trans hc
  | .assign n e, s, h => by
    have he := eval_env hk (e := e) s fun n hn => h n (.tail _ hn)
    rw [eval]
    exact (Function.update_of_ne (h n (.head _)).symm ..).trans he
  | .call f text optional es, s, h => by
    have hes := evalAll_env hk es s h
    rw [eval]
    dsimp only
    split
    · rfl
    · exact (call_env _ _ _ hk).trans hes

theorem evalAll_env {k : Key} (hk : k = M.hidden ∨ M.isStable k = true) :
    ∀ (es : List Expr) (s : State Val Event), (∀ n ∈ Expr.targetsAll es, key n ≠ k) →
      (M.evalAll key es s).2.env k = s.env k
  | [], _, _ => rfl
  | _ :: es, s, h =>
    (evalAll_env hk es _ fun n hn => h n (List.mem_append_right _ hn)).trans
      (eval_env hk s fun n hn => h n (List.mem_append_left _ hn))

end

/-! ### What names refer to -/

mutual

/-- An evaluation depends only on what the names that are mentioned refer to. -/
theorem eval_key : ∀ {e : Expr} (s : State Val Event), (∀ n ∈ e.names, key n = key' n) →
    M.eval key e s = M.eval key' e s
  | .literal _, _, _ => rfl
  | .name n, s, h => by rw [eval, eval, h n (.head _)]
  | .parenthesized e, s, h => eval_key (e := e) s h
  | .unary op e, s, h => by
    rw [eval, eval, eval_key (e := e) s h]
  | .binary op l r, s, h => by
    rw [eval, eval, eval_key s fun n hn => h n (List.mem_append_left _ hn),
      eval_key _ fun n hn => h n (List.mem_append_right _ hn)]
  | .ternary c a b, s, h => by
    rw [eval, eval,
      eval_key s fun n hn => h n (List.mem_append_left _ (List.mem_append_left _ hn)),
      eval_key (e := a) _ fun n hn => h n (List.mem_append_left _ (List.mem_append_right _ hn)),
      eval_key (e := b) _ fun n hn => h n (List.mem_append_right _ hn)]
  | .assign n e, s, h => by
    rw [eval, eval, eval_key (e := e) s fun n hn => h n (.tail _ hn), h n (.head _)]
  | .call f text optional es, s, h => by
    rw [eval, eval, evalAll_key s fun n hn => h n (.tail _ hn), h f (.head _)]

theorem evalAll_key : ∀ {es : List Expr} (s : State Val Event),
    (∀ n ∈ Expr.namesAll es, key n = key' n) → M.evalAll key es s = M.evalAll key' es s
  | [], _, _ => rfl
  | e :: es, s, h => by
    rw [evalAll, evalAll, eval_key s fun n hn => h n (List.mem_append_left _ hn),
      evalAll_key _ fun n hn => h n (List.mem_append_right _ hn)]

end

theorem evalAll_append (es fs : List Expr) (s : State Val Event) :
    M.evalAll key (es ++ fs) s =
      ((M.evalAll key es s).1 ++ (M.evalAll key fs (M.evalAll key es s).2).1,
        (M.evalAll key fs (M.evalAll key es s).2).2) := by
  induction es generalizing s with
  | nil => rfl
  | cons e es ih =>
    rw [List.cons_append, evalAll, evalAll]
    dsimp only
    rw [ih]
    rfl

end Machine

end Declutter
