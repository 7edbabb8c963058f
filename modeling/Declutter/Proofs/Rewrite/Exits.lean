import Declutter.Proofs.Rewrite.Inlining

/-!
# Exits on the way to a usage

A value that is inlined is evaluated where it is used.  If something on the way to the usage leaves
the next statement early, the value is then not evaluated at all.  The analysis notices the
constructs around the usage that may pass it over, but not the exits in what comes first.

Only an exit in an earlier statement of a block can do this, or one in the static block of a class.
All else that is evaluated before the usage is an expression, which holds statements only in its
functions: the loops are left out as repeated, and an `if`, a `try` or a `switch` as a condition.

## Main definitions

* `Tree.hasExit` — whether a construct may be left by a jump within it.
* `Tree.FlowShaped` — where the grammars allow statements.

## Main results

* `BindingTable.exits_before_usage` — where the exits that a value may be moved past can stand.
* `BindingTable.return_before_usage`, `BindingTable.throw_before_usage` — two that are moved past.
-/

namespace Declutter

namespace Kind

/-- The statements that direct the flow of control, and their parts. -/
def isControl : Kind → Bool
  | .block | .ifStatement | .elseClause | .forStatement | .forInStatement | .whileStatement
  | .doStatement | .switchStatement | .switchBody | .switchCase | .tryStatement | .catchClause
  | .finallyClause | .labeledStatement | .returnStatement | .throwStatement | .breakStatement
  | .continueStatement => true
  | _ => false

end Kind

namespace Tree

section

variable (t : Tree)

/-! ### Exits -/

/-- Whether a jump ends at a construct around it: one with a label at the statement that has the
label, one without at a loop, and a `break` also at a `switch`. -/
def endsAt (jump i : NodeId) : Bool :=
  match t.child? jump "label" with
  | some label =>
    t.kind i == .labeledStatement && (t.child? i "label").any (t.text · == t.text label)
  | none => (t.kind i).isLoop || (t.kind jump == .breakStatement && t.kind i == .switchStatement)

/-- Whether a node within `i` leaves it: a `return`, a `throw`, or a jump that does not end within
it. -/
def leaves (i n : NodeId) : Bool :=
  match t.kind n with
  | .returnStatement | .throwStatement => true
  | .breakStatement | .continueStatement => !(t.pathUp n i).any (t.endsAt n)
  | _ => false

/-- Whether something in a construct, outside the functions in it, leaves it. -/
def hasExit (i : NodeId) : Bool := (t.visited (t.kind · == .function) i).any (t.leaves i)

/-! ### Where statements stand -/

/-- Whether a node directs the flow of control; so does the statement `with`. -/
def isControl (i : NodeId) : Bool := (t.kind i).isControl || t.type i == "with_statement"

/-- Whether a node has a body with statements although it is no function: the static block of a
class, or a namespace. -/
def hasOwnBody (i : NodeId) : Bool :=
  ["class_static_block", "internal_module", "module", "ambient_declaration"].contains (t.type i)

/-- Whether a child of `parent` may stand behind one that directs the flow of control. -/
def mayFollow (child parent : NodeId) : Bool :=
  match t.kind parent with
  | .program | .block | .switchBody | .switchCase | .tryStatement | .doStatement => true
  | .ifStatement => t.hasField child "alternative"
  | _ => false

end

/-- What the grammars promise of statements: the program is the root; what directs the flow of
control stands in a construct of that sort, in the program, or in the body of a function, namespace
or static block; and it is the last part, but in lists of statements, before the alternative of an
`if`, and before the condition of a `do`. -/
structure FlowShaped (t : Tree) : Prop where
  root : ∀ i < t.nodes.size, t.kind i = .program → i = 0
  parent : ∀ p < t.nodes.size, ∀ c ∈ t.children p, t.isControl c = true →
    t.isControl p = true ∨ t.kind p = .program ∨ t.kind p = .function ∨ t.hasOwnBody p = true
  behind : ∀ p < t.nodes.size,
    (t.children p).Pairwise fun e c => t.isControl e = true → t.mayFollow c p = true

theorem flowShaped_iff {t : Tree} : t.FlowShaped ↔
    (∀ i < t.nodes.size, t.kind i = .program → i = 0) ∧
      (∀ p < t.nodes.size, ∀ c ∈ t.children p, t.isControl c = true →
        t.isControl p = true ∨ t.kind p = .program ∨ t.kind p = .function ∨
          t.hasOwnBody p = true) ∧
      ∀ p < t.nodes.size,
        (t.children p).Pairwise fun e c => t.isControl e = true → t.mayFollow c p = true :=
  ⟨fun h => ⟨h.root, h.parent, h.behind⟩, fun ⟨h₁, h₂, h₃⟩ => ⟨h₁, h₂, h₃⟩⟩

instance (t : Tree) : Decidable t.FlowShaped := decidable_of_iff _ flowShaped_iff.symm

variable {t : Tree}

/-- What leaves a construct directs the flow of control. -/
theorem isControl_of_leaves {i n : NodeId} (h : t.leaves i n = true) : t.isControl n = true := by
  unfold leaves at h
  unfold isControl
  split at h
  · next hkind => simp [hkind, Kind.isControl]
  · next hkind => simp [hkind, Kind.isControl]
  · next hkind => simp [hkind, Kind.isControl]
  · next hkind => simp [hkind, Kind.isControl]
  · cases h

/-- A walk that meets a child has met its parent before. -/
theorem InPreorder.mem_visited_of_child (hn : t.InPreorder) {closed : NodeId → Bool} {i q n : Nat}
    (hi : i < t.nodes.size) (hq : n ∈ t.children q) (hiq : i ≤ q)
    (h : n ∈ t.visited closed i) : q ∈ t.visited closed i := by
  obtain ⟨-, hlt, hclosed⟩ := (hn.mem_visited_iff hi).mp h
  have hb := hn.child_bounds hq
  refine (hn.mem_visited_iff hi).mpr ⟨hiq, Nat.lt_trans hb.1 hlt, fun m him hmq hm => ?_⟩
  have hstop := hclosed m him (Nat.lt_trans hmq hb.1) hm
  by_contra hopen
  -- The parent would lie within a closed node, and so would the child.
  have hnest := hn.stop_le_stop (Nat.lt_trans hmq (lt_size_of_mem_children hq))
    (Nat.le_of_lt hmq) (Nat.not_le.mp hopen)
  omega

/-- **A construct that holds a statement outside its functions** directs the flow of control itself,
unless something in it has a body of its own. -/
theorem FlowShaped.isControl_of_visited (hf : t.FlowShaped) (hn : t.InPreorder) {e n : Nat}
    (he : e < t.nodes.size) (h0 : e ≠ 0) (hbody : ∀ m ∈ t.subtree e, t.hasOwnBody m = false)
    (h : n ∈ t.visited (t.kind · == .function) e) (hcontrol : t.isControl n = true) :
    t.isControl e = true := by
  induction n using Nat.strongRecOn with
  | ind n ih =>
    obtain ⟨hle, hlt, hclosed⟩ := (hn.mem_visited_iff he).mp h
    rcases Nat.eq_or_lt_of_le hle with rfl | hen
    · exact hcontrol
    · obtain ⟨q, hq, heq⟩ := hn.exists_parent_within (t.stop e - e) (Nat.le_refl _) he hen hlt
      have hb := hn.child_bounds hq
      have hqmem := hn.mem_visited_of_child he hq heq h
      rcases hf.parent q (lt_size_of_mem_children hq) n hq hcontrol with hq' | hq' | hq' | hq'
      · exact ih q hb.1 hqmem hq'
      · have hroot := hf.root q (lt_size_of_mem_children hq) hq'
        omega
      · -- The walk does not enter functions.
        have hstop := hclosed q heq hb.1 (by simpa using hq')
        omega
      · rw [hbody q (mem_subtree_of_mem_visited hn he hqmem)] at hq'
        cases hq'

/-- Where something with an exit is evaluated before a child, the child may stand behind what
directs the flow of control. -/
theorem FlowShaped.mayFollow_of_exit (hf : t.FlowShaped) (hn : t.InPreorder) {c e p : Nat}
    (hc : c ∈ t.children p) (hbefore : e ∈ t.evaluatedBefore c p)
    (hbody : ∀ m ∈ t.subtree e, t.hasOwnBody m = false) (hexit : t.hasExit e = true) :
    t.mayFollow c p = true := by
  obtain ⟨pre, post, hsplit, hpre⟩ := exists_split_of_mem_evaluatedBefore hc hbefore
  have hmem : e ∈ t.children p := by
    rw [hsplit]
    exact List.mem_append_left _ hpre
  obtain ⟨n, hvisited, hleaves⟩ := List.any_eq_true.mp hexit
  have hcontrol := hf.isControl_of_visited hn (hn.lt_size_of_mem hmem)
    (Nat.ne_zero_of_lt (hn.child_bounds hmem).1) hbody hvisited (isControl_of_leaves hleaves)
  have hbehind := hf.behind p (lt_size_of_mem_children hc)
  rw [hsplit, List.pairwise_append] at hbehind
  exact hbehind.2.2 e hpre c (.head _) hcontrol

end Tree

namespace BindingTable

variable {b : BindingTable} {t : Tree} {policy : InlinePolicy} {i : BindingId}
  {declaration declarator value next : NodeId} {u : Usage} {path : EvaluationPath}

/-- A value that is not trivially pure moves past no condition. -/
theorem SingleUse.isConditionalAt_eq_false
    (hs : b.SingleUse t policy i declaration declarator value u next path)
    (hvalue : t.isTriviallyPure value = false) {c p : NodeId}
    (hstep : (c, p) ∈ t.steps u.node next) : t.isConditionalAt c p = false := by
  by_contra hc
  have htrivial := hs.isTriviallyPure_of_step hstep (by simpa using hc)
  rw [hvalue] at htrivial
  cases htrivial

/-- Where a value that is not trivially pure moves past something that directs the flow of control,
it does so in a block. -/
theorem SingleUse.kind_eq_block
    (hs : b.SingleUse t policy i declaration declarator value u next path) (hf : t.FlowShaped)
    (hvalue : t.isTriviallyPure value = false) {c p : NodeId}
    (hn : t.InPreorder) (hu : u.node < t.nodes.size) (hstep : (c, p) ∈ t.steps u.node next)
    (hfollow : t.mayFollow c p = true) : t.kind p = .block := by
  obtain ⟨hc, -, hnp⟩ := (hn.mem_steps_iff hu ((hn.isWithin_iff hu).mp hs.within_next)).mp hstep
  obtain ⟨q, pre, post, -, -, -, hsub⟩ := hn.exists_of_nextStatement hs.next_eq
  have hq := (hn.child_bounds (hsub.subset (show next ∈ _ by simp))).1
  have hconditional := hs.isConditionalAt_eq_false hvalue hstep
  have hrepeated := Tree.isRepeatedAt_of_evaluationPath hs.path_eq hstep
  unfold Tree.mayFollow at hfollow
  split at hfollow
  · next hkind =>
    -- The statement behind a declaration is not the root.
    have hroot := hf.root p (Tree.lt_size_of_mem_children hc) hkind
    exact absurd hroot (Nat.ne_zero_of_lt (Nat.lt_of_lt_of_le hq hnp))
  · assumption
  · next hkind => simp [Tree.isConditionalAt, hkind, Kind.isSkippable] at hconditional
  · next hkind => simp [Tree.isConditionalAt, hkind, Kind.isSkippable] at hconditional
  · next hkind => simp [Tree.isConditionalAt, hkind, Kind.isSkippable] at hconditional
  · next hkind => simp [Tree.isRepeatedAt, hkind, Kind.isLoop] at hrepeated
  · next hkind => simp [Tree.isConditionalAt, hkind, Tree.hasEitherField, hfollow] at hconditional
  · cases hfollow

/-- **The exits that a value may be moved past.**  If the initial value of a single-use binding is
not trivially pure, then nothing around the usage makes it conditional, and what is evaluated before
the usage can leave the next statement only as a statement of a block around the usage, or by means
of a static block or namespace in it. -/
theorem exits_before_usage (l : Language) (source : Bytes) (root : Concrete)
    (policy : InlinePolicy) {i : BindingId} {declaration value next : NodeId} {u : Usage}
    {path : EvaluationPath} :
    let t := Tree.ofConcrete l source root
    let b := ofTree t
    t.FlowShaped → b.isSingleUse t policy i = true →
    (b.binding i).declaration = some declaration → (b.binding i).initializer = some value →
    (b.binding i).usages = [u] → t.nextStatement? declaration = some next →
    t.evaluationPath? u.node next = some path → t.isTriviallyPure value = false →
    path.conditional = false ∧
      ∀ e ∈ path.preceding, t.hasExit e = true →
        (∃ p, t.kind p = .block ∧ e ∈ t.children p ∧ t.isWithin p next = true ∧
          t.isWithin u.node p = true) ∨
        ∃ n ∈ t.subtree e, t.hasOwnBody n = true := by
  intro t b hf hsingle hdeclaration hvalue husages hnext hpath hpure
  have hn : t.InPreorder := Tree.inPreorder_ofConcrete l source root
  have hb : b.Accounted t := accounted_ofTree t
  obtain ⟨declarator, hs⟩ :=
    singleUse_of_parts hsingle hdeclaration hvalue husages hnext hpath
  have hu := (hs.isReferenceNode hb).1
  have hwithin := (hn.isWithin_iff hu).mp hs.within_next
  constructor
  · by_contra hc
    have htrivial := hs.conditional (by simpa using hc)
    rw [hpure] at htrivial
    cases htrivial
  · intro e he hexit
    rw [(Tree.evaluationPath?_eq_some hs.path_eq).1] at he
    obtain ⟨c, p, hstep, hc, -, hbefore⟩ := Tree.exists_step_of_mem_preceding hn hu hwithin he
    by_cases hbody : ∃ n ∈ t.subtree e, t.hasOwnBody n = true
    · exact .inr hbody
    · have hfollow := hf.mayFollow_of_exit hn hc hbefore (by simpa using hbody) hexit
      have hblock := hs.kind_eq_block hf hpure hn hu hstep hfollow
      obtain ⟨-, hcu, hnp⟩ := (hn.mem_steps_iff hu hwithin).mp hstep
      obtain ⟨hmem, -⟩ := Tree.stop_le_of_mem_evaluatedBefore hn hc hbefore
      have hpu := hn.within_parent hc hcu
      have hpn := Nat.lt_of_le_of_lt hpu.1 hwithin.2
      have hp := Tree.lt_size_of_mem_children hc
      exact .inl ⟨p, hblock, hmem, (hn.isWithin_iff hp).mpr ⟨hnp, hpn⟩,
        (hn.isWithin_iff hu).mpr hpu⟩

end BindingTable

/-! ### Three programs -/

namespace Sample

/-- A property is read and handed to a call behind another argument. -/
def handing (argument : String) : Bytes :=
  Utf8.encode s!"const v = o.a;\nuse({argument}, v);\n"

/-- A block that throws, at `k`. -/
def throwing (k : Nat) : Concrete :=
  construct "statement_block" k (k + 12) [
    token "\x7b" k,
    construct "throw_statement" (k + 2) (k + 10) [
      token "throw" (k + 2), construct "number" (k + 8) (k + 9) [], token ";" (k + 9)],
    token "\x7d" (k + 11)]
    (some "body")

/-- The tree of `const v = o.a`. -/
def readingTree (k : Nat) : Concrete :=
  constantTree k (accessTree (nameTree (k + 10) (some "object")) false (some "value"))

/-- The tree of `handing`, with the tree of the other argument. -/
def handingTree (argument : Concrete) : Concrete :=
  let k := argument.head.stop
  construct "program" 0 (k + 6) [
    readingTree 0,
    statementTree (callTree (construct "identifier" 15 18 [] (some "function"))
      [argument, token "," k, nameTree (k + 2)])]

/-- A function that throws. -/
def throwingFunction : Concrete :=
  construct "arrow_function" 19 37 [
    construct "formal_parameters" 19 21 [token "(" 19, token ")" 20] (some "parameters"),
    token "=>" 22,
    throwing 25]

/-- A class whose static block throws. -/
def throwingClass : Concrete :=
  construct "class" 19 48 [
    token "class" 19,
    construct "class_body" 25 48 [
      token "\x7b" 25,
      construct "class_static_block" 27 46 [token "static" 27, throwing 34],
      token "\x7d" 47]
      (some "body")]

/-- A property is read before a block that may be left. -/
def leaving : Bytes := Utf8.encode (
  "function g(c) \x7b\n  const v = o.a;\n  \x7b\n    if (c) return;\n    use(v);\n  \x7d\n\x7d\n")

/-- The tree of `leaving`. -/
def leavingTree : Concrete :=
  construct "program" 0 74 [
    construct "function_declaration" 0 73 [
      token "function" 0,
      nameTree 9 (some "name"),
      construct "formal_parameters" 10 13 [token "(" 10, nameTree 11, token ")" 12]
        (some "parameters"),
      construct "statement_block" 14 73 [
        token "\x7b" 14,
        readingTree 18,
        construct "statement_block" 35 71 [
          token "\x7b" 35,
          construct "if_statement" 41 55 [
            token "if" 41,
            construct "parenthesized_expression" 44 47 [token "(" 44, nameTree 45, token ")" 46]
              (some "condition"),
            construct "return_statement" 48 55 [token "return" 48, token ";" 54]
              (some "consequence")],
          statementTree
            (callTree (construct "identifier" 60 63 [] (some "function")) [nameTree 64]),
          token "\x7d" 70],
        token "\x7d" 72]
        (some "body")]]

end Sample

/-- What the function throws when it is called does not leave the statement. -/
theorem BindingTable.sample_no_exit_before_usage :
    let t := Tree.ofConcrete .javascript (Sample.handing "() => \x7b throw 1; \x7d")
      (Sample.handingTree Sample.throwingFunction)
    (ofTree t).isSingleUse t Sample.policy 0 = true ∧ t.isTriviallyPure 4 = false ∧
      t.evaluationPath? 16 7 = some ⟨[11, 9], false⟩ ∧ t.hasExit 14 = true ∧
      ∀ e ∈ [11, 9], t.hasExit e = false := by
  intro t
  have hfacts : t.FlowShaped ∧ (ofTree t).isSingleUse t Sample.policy 0 = true ∧
      ((ofTree t).binding 0).declaration = some 1 ∧
      ((ofTree t).binding 0).initializer = some 4 ∧
      ((ofTree t).binding 0).usages = [⟨16, false, true⟩] ∧ t.nextStatement? 1 = some 7 ∧
      t.evaluationPath? 16 7 = some ⟨[11, 9], false⟩ ∧ t.isTriviallyPure 4 = false ∧
      t.hasExit 14 = true ∧
      ∀ e ∈ [11, 9], (∀ p < t.nodes.size, t.kind p = .block → e ∉ t.children p) ∧
        ∀ n ∈ t.subtree e, t.hasOwnBody n = false := by
    decide +kernel
  obtain ⟨hshaped, hsingle, hdeclaration, hvalue, husages, hnext, hpath, hpure, hthrows, hparts⟩ :=
    hfacts
  refine ⟨hsingle, hpure, hpath, hthrows, fun e he => ?_⟩
  by_contra hexit
  obtain ⟨-, hexits⟩ := exits_before_usage .javascript _ _ _ hshaped hsingle hdeclaration hvalue
    husages hnext hpath hpure
  obtain ⟨hblocks, hbodies⟩ := hparts e he
  rcases hexits e he (by simpa using hexit) with ⟨p, hblock, hmem, -⟩ | ⟨n, hn, hbody⟩
  · exact hblocks p (Tree.lt_size_of_mem_children hmem) hblock hmem
  · rw [hbodies n hn] at hbody
    cases hbody

/-- **The exception.**  The initial value is read on every run, but the block is left before the
usage on some: the binding is single-use, and its value is then not evaluated at all. -/
theorem BindingTable.return_before_usage :
    let t := Tree.ofConcrete .javascript Sample.leaving Sample.leavingTree
    (ofTree t).isSingleUse t Sample.policy 2 = true ∧ t.isTriviallyPure 9 = false ∧
      t.evaluationPath? 21 12 = some ⟨[19, 13], false⟩ ∧ t.hasExit 13 = true := by
  decide +kernel

/-- Another one: the value moves past a class whose static block throws. -/
theorem BindingTable.throw_before_usage :
    let t := Tree.ofConcrete .javascript
      (Sample.handing "class \x7b static \x7b throw 1; \x7d \x7d")
      (Sample.handingTree Sample.throwingClass)
    (ofTree t).isSingleUse t Sample.policy 0 = true ∧ t.isTriviallyPure 4 = false ∧
      t.evaluationPath? 17 7 = some ⟨[11, 9], false⟩ ∧ t.hasExit 11 = true := by
  decide +kernel

end Declutter
