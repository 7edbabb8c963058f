import Declutter.Proofs.Analysis.Passes
import Declutter.Proofs.Binding.Accounting
import Declutter.Proofs.Binding.SingleUse
import Declutter.Proofs.Expression.Statement
import Declutter.Proofs.Syntax.Spacing

/-!
# Inlining keeps the meaning

The rewrite of a single-use binding puts its initial value in the place of its one usage, in the
statement behind the declaration.  Where both are written in the core of the language, the program
computes the same as before: the value is evaluated later, but nothing in between has an effect or
depends on one.

The analysis takes for granted that functions, classes and the stable globals keep their values.  An
initial value that assigns to such a name, which something evaluated before the usage reads, is the
one case in which the rewrite goes wrong.

## Main definitions

* `BindingTable.key`, `BindingTable.keyAfter` — what the names of a program refer to, before and
  after the rewrite.
* `BindingTable.Inlines` — whether the rewritten statement does what the program did.

## Main results

* `BindingTable.inline_preserves_evaluation` — inlining keeps the meaning.
* `BindingTable.inline_after_assignment` — the exception.
-/

namespace Declutter

namespace BindingTable

variable (b : BindingTable) (t : Tree)

/-- What a binding, or else the text of a name, stands for. -/
def keyOf (name : String) : Option BindingId → Key
  | some i => .bound i
  | none => .free name

/-- What a name refers to. -/
def key (n : NodeId) : Key := keyOf (t.text n) (b.of? n)

/-- What a name refers to once a value has moved to the place of a usage: the names in the value are
looked up from there, but for those that the value itself declares. -/
def keyAfter (value usage n : NodeId) : Key :=
  if t.isWithin n value &&
      !(b.of? n).any fun here => t.isWithin (b.binding here).nameNode value then
    keyOf (t.text n) (b.resolve? t (t.text n) (t.scopeOf usage))
  else b.key t n

/-- Whether a name keeps its value, as far as the analysis knows. -/
def isStableKey : Key → Bool
  | .bound i => (b.binding i).kind.isStable
  | .free name => stableGlobals.contains name

variable {t} in
/-- A name whose value no other evaluation can change keeps it. -/
theorem isStableKey_of_isStableName {n : NodeId} (h : t.isStableName b.kindOf? n = true) :
    b.isStableKey (b.key t n) = true := by
  rw [Tree.isStableName, kindOf?] at h
  rw [key]
  cases hof : b.of? n with
  | none =>
    rw [hof] at h
    exact h
  | some j =>
    rw [hof] at h
    exact h

/-- The machine on which a program with a single-use binding runs: no call sees the binding, and
none changes a stable name. -/
def machine {Val Event : Type} (I : Interpretation Val Event) (policy : InlinePolicy)
    (i : BindingId) : Machine Val Event where
  toInterpretation := I
  pure := policy.pure
  hidden := .bound i
  isStable := b.isStableKey

end BindingTable

namespace Tree

variable {t : Tree}

/-! ### Where the parts of a binding stand -/

/-- The next statement has nothing in common with the one before it. -/
theorem InPreorder.disjoint_next (hn : t.InPreorder) {i next n : Nat}
    (h : t.nextStatement? i = some next) (hi : i ≤ n ∧ n < t.stop i) :
    ¬ (next ≤ n ∧ n < t.stop next) := by
  rintro ⟨hle, hlt⟩
  obtain ⟨p, pre, post, -, -, -, hsub⟩ := hn.exists_of_nextStatement h
  have hnodup := hsub.nodup (hn.nodup_children p)
  have him : i ∈ t.children p := hsub.subset (by simp)
  have hnm : next ∈ t.children p := hsub.subset (by simp)
  rcases hn.lt_or_lt him hnm with rfl | hle' | hle'
  · rw [List.nodup_append] at hnodup
    exact absurd (.head _) (List.nodup_cons.mp hnodup.2.1).1
  · exact absurd (Nat.lt_of_lt_of_le hi.2 hle') (Nat.not_lt.mpr hle)
  · exact absurd (Nat.lt_of_lt_of_le hlt hle') (Nat.not_lt.mpr hi.1)

/-- The way of the evaluation, when there is one. -/
theorem evaluationPath?_eq_some {u i : NodeId} {path : EvaluationPath}
    (h : t.evaluationPath? u i = some path) :
    path.preceding = t.preceding u i ∧ path.conditional = t.isConditional u i := by
  unfold evaluationPath? at h
  split at h
  · rw [← Option.some.inj h]
    exact ⟨rfl, rfl⟩
  · cases h

/-- No step of such a way leads out of something that is repeated. -/
theorem isRepeatedAt_of_evaluationPath {u i c p : NodeId} {path : EvaluationPath}
    (h : t.evaluationPath? u i = some path) (hstep : (c, p) ∈ t.steps u i) :
    t.isRepeatedAt c p = false := by
  unfold evaluationPath? at h
  split at h
  · rename_i hsteps
    rw [Bool.and_eq_true, List.all_eq_true] at hsteps
    have hat : (!t.isRepeatedAt c p) = true := hsteps.2 (c, p) hstep
    simpa using hat
  · cases h

end Tree

namespace BindingTable.SingleUse

variable {b : BindingTable} {t : Tree} {policy : InlinePolicy} {i : BindingId}
  {declaration declarator value next : NodeId} {u : Usage} {path : EvaluationPath}

/-- The parts of a declarator stand within the declaration. -/
theorem bounds (hs : b.SingleUse t policy i declaration declarator value u next path)
    (hb : b.Accounted t) (hn : t.InPreorder) {c n : Nat} (hc : c ∈ t.children declarator)
    (hcn : c ≤ n ∧ n < t.stop c) : declaration ≤ n ∧ n < t.stop declaration := by
  obtain ⟨s, hmem, hdeclaration, -⟩ := hb.declarator hs.declarator_eq
  rw [hs.declaration_eq] at hdeclaration
  have hs := hn.within_parent hmem (hn.within_parent hc hcn)
  rcases hdeclaration with heq | hparent
  · obtain rfl := Option.some.inj heq
    exact hs
  · exact hn.within_parent (hn.mem_children_iff.mpr hparent.symm) hs

/-- In the next statement, only the usage refers to the binding. -/
theorem eq_usage (hs : b.SingleUse t policy i declaration declarator value u next path)
    (hb : b.Accounted t) (hn : t.InPreorder) {n : Nat} (hnn : next ≤ n ∧ n < t.stop next)
    (hkey : b.key t n = .bound i) : n = u.node := by
  have hof : b.of? n = some i := by
    unfold key at hkey
    cases hof : b.of? n with
    | none =>
      rw [hof] at hkey
      cases hkey
    | some j =>
      rw [hof] at hkey
      exact congrArg some (Key.bound.inj hkey)
  rcases hb.owned hof with hname | ⟨v, hv, rfl⟩
  · -- The name of the declaration lies in the statement before.
    have hmem := (Tree.mem_of_child? hs.name_eq).1
    have hlt := (hn.child_bounds hmem).2.1
    exact absurd hnn (hn.disjoint_next hs.next_eq
      (hs.bounds hb hn hmem ⟨Nat.le_of_eq hname.symm, hname ▸ hlt⟩))
  · rw [hs.usages_eq, List.mem_singleton] at hv
    rw [hv]

theorem key_usage (hs : b.SingleUse t policy i declaration declarator value u next path)
    (hb : b.Accounted t) : b.key t u.node = .bound i := by
  have hof := hb.of_usage (i := i) u (by rw [hs.usages_eq]; exact .head _)
  rw [key, hof]
  rfl

/-- The usage is a name that is read, if it is not called. -/
theorem isRead (hs : b.SingleUse t policy i declaration declarator value u next path)
    (hb : b.Accounted t) (hn : t.InPreorder)
    (hcallee : ∀ c, t.kind c = .call → t.child? c "function" ≠ some u.node) : t.IsRead u.node := by
  obtain ⟨husage, hlt, href⟩ := hb.usage (i := i) u (by rw [hs.usages_eq]; exact .head _)
  refine ⟨hlt, href, fun p hkind hmem => ?_, hcallee⟩
  have hwrite : t.isWrite u.node = false := by
    have := hs.isWrite_eq
    rw [husage] at this
    exact this
  rw [Tree.isWrite, hn.ancestors_of_parent (hn.parent_of_mem p _ hmem), Tree.isTargetWithin,
    hkind] at hwrite
  exact hwrite

/-- On the way to a usage, a condition lets only a trivially pure value pass. -/
theorem isTriviallyPure_of_step
    (hs : b.SingleUse t policy i declaration declarator value u next path) {c p : NodeId}
    (hstep : (c, p) ∈ t.steps u.node next) (hc : t.isConditionalAt c p = true) :
    t.isTriviallyPure value = true := by
  refine hs.conditional ?_
  rw [(Tree.evaluationPath?_eq_some hs.path_eq).2]
  exact List.any_eq_true.mpr ⟨(c, p), hstep, hc⟩

/-- After the rewrite, the names of the initial value refer to what they did before. -/
theorem keyAfter_eq (hs : b.SingleUse t policy i declaration declarator value u next path)
    (hn : t.InPreorder) {n : Nat} (hkind : t.kind n = .identifier) :
    b.keyAfter t value u.node n = b.key t n := by
  unfold keyAfter
  split
  · rename_i hmoves
    rw [Bool.and_eq_true] at hmoves
    have hlt : n < t.nodes.size := Tree.lt_size_of_kind (by rw [hkind]; decide)
    have hvalue := (hn.isWithin_iff hlt).mp hmoves.1
    -- No name of the value is shadowed at the usage, so looking it up there makes no difference.
    have hshadowed := hs.not_shadowed
    rw [isShadowedAt, List.any_eq_false] at hshadowed
    have hname := hshadowed n ((hn.mem_subtree_iff (Nat.lt_of_le_of_lt hvalue.1 hlt)).mpr hvalue)
    rw [hkind, hmoves.2, beq_self_eq_true] at hname
    have heq : b.of? n = b.resolve? t (t.text n) (t.scopeOf u.node) := by simpa using hname
    rw [key, heq]
  · rfl

/-- The initial value may move to the place of the usage, if it assigns to nothing that is read
before. -/
theorem admits {Val Event : Type} (I : Interpretation Val Event)
    (hs : b.SingleUse t policy i declaration declarator value u next path)
    (hb : b.Accounted t) (hn : t.InPreorder) {init : Expr} {s : Statement} {d : Context}
    (hinit : t.Denotes value init) (hstatement : t.DenotesStatement next s)
    (hexpr : s.expr = d.plug (.name u.node)) (hplace : t.Locates u.node next d)
    (hkept : ∀ e ∈ path.preceding, ∀ n ∈ t.subtree e, t.kind n = .identifier →
      ∀ m ∈ init.targets, b.key t m ≠ b.key t n) :
    d.Admits (b.machine I policy i) (b.key t) init := by
  obtain ⟨hpreceding, hconditional⟩ := Tree.evaluationPath?_eq_some hs.path_eq
  have hnames : ∀ n ∈ d.names, n ∈ s.names := fun n hmem => by
    refine s.names_expr_subset ?_
    rw [hexpr]
    exact (Context.mem_names_plug d).mpr (.inl hmem)
  refine ⟨fun n hmem hkey => ?_, fun e he => ?_, fun hcond => ?_, ?_⟩
  · have hbounds := (hstatement.bounds hn (hnames n hmem)).1
    -- A name that refers to the binding is the usage, which is where the hole is.
    obtain rfl := hs.eq_usage hb hn hbounds hkey
    exact hplace.notMem hmem
  · obtain ⟨n, hn', hd⟩ := hplace.before e he
    exact hd.effectless_of_hasSideEffects hn (hs.effects n (hpreceding ▸ hn'))
  · exact hinit.effectless_of_isTriviallyPure hn
      (hs.conditional (hconditional.trans (hplace.conditional hcond)))
  · rcases hs.reads with htrivial | hpure | hreads
    · exact .inl (hinit.effectless_of_isTriviallyPure hn htrivial)
    · exact .inl (hinit.effectless_of_hasSideEffects hn hpure)
    · refine .inr fun e he n hmem => ?_
      obtain ⟨m, hm, hd⟩ := hplace.before e he
      have hm := hpreceding ▸ hm
      obtain ⟨hvisited, hkind⟩ := hd.mem_visited (Tree.enters_all hn) hmem
      refine ⟨?_, hkept m hm n (Tree.mem_subtree_of_mem_visited hn hd.lt_size hvisited) hkind⟩
      exact b.isStableKey_of_isStableName (hd.isStableName hn (hreads m hm) hmem)

end BindingTable.SingleUse

/-- Whether a statement with a value in the place of a usage does the same as the declaration of the
binding followed by the statement, whatever the literals, operators and calls mean: it computes the
same value, and leaves the same log and the same values of all other names. -/
def BindingTable.Inlines (b : BindingTable) (t : Tree) (policy : InlinePolicy) (i : BindingId)
    (value usage : NodeId) (init : Expr) (s : Statement) : Prop :=
  ∀ {Val Event : Type} (I : Interpretation Val Event) (state : State Val Event),
    let M := b.machine I policy i
    M.Same (M.run (b.keyAfter t value usage) (s.substitute usage init) state)
      (M.run (b.key t) s (M.declared (b.key t) init state))

/-- **Inlining keeps the meaning** of a program, if a single-use binding and the next statement are
written in the core, the usage is not called, and the initial value assigns to no name that is read
before the usage. -/
theorem BindingTable.inline_preserves_evaluation (l : Language) (source : Bytes) (root : Concrete)
    (policy : InlinePolicy) {i : BindingId} {declaration value next : NodeId} {u : Usage}
    {path : EvaluationPath} {init : Expr} {s : Statement} :
    let t := Tree.ofConcrete l source root
    let b := ofTree t
    b.isSingleUse t policy i = true →
    (b.binding i).declaration = some declaration → (b.binding i).initializer = some value →
    (b.binding i).usages = [u] → t.nextStatement? declaration = some next →
    t.evaluationPath? u.node next = some path →
    t.Denotes value init → t.DenotesStatement next s →
    (∀ c, t.kind c = .call → t.child? c "function" ≠ some u.node) →
    (∀ e ∈ path.preceding, ∀ n ∈ t.subtree e, t.kind n = .identifier →
      ∀ m ∈ init.targets, b.key t m ≠ b.key t n) →
    b.Inlines t policy i value u.node init s := by
  intro t b hsingle hdeclaration hvalue husages hnext hpath hinit hstatement hcallee hkept
  have hn : t.InPreorder := Tree.inPreorder_ofConcrete l source root
  have hb : b.Accounted t := accounted_ofTree t
  obtain ⟨_, declarator, _, _, _, _, hs⟩ := singleUse_of_isSingleUse hsingle
  obtain rfl := Option.some.inj (hdeclaration.symm.trans hs.declaration_eq)
  obtain rfl := Option.some.inj (hvalue.symm.trans hs.initializer_eq)
  obtain rfl := List.singleton_inj.mp (husages.symm.trans hs.usages_eq)
  obtain rfl := Option.some.inj (hnext.symm.trans hs.next_eq)
  obtain rfl := Option.some.inj (hpath.symm.trans hs.path_eq)
  intro Val Event I state M
  have hread := hs.isRead hb hn hcallee
  have hwithin := (hn.isWithin_iff hread.lt_size).mp hs.within_next
  obtain ⟨d, hexpr, hplace⟩ := hstatement.exists_context hn hread hwithin fun n e heq => by
    subst heq
    obtain ⟨new, hnew, rfl⟩ := hstatement.exists_declared hn
    exact (settled_ofTree t).not_usage _ (by rw [hs.usages_eq]; exact .head _) new hnew
  have hsubstituted : Expr.substitute u.node init s.expr = d.plug init := by
    rw [hexpr, Context.substitute_plug hplace.notMem]
  have hmove := Context.eval_plug (s := state) (hs.key_usage hb)
    (hs.admits I hb hn hinit hstatement hexpr hplace hkept)
  rw [← hsubstituted, ← hexpr] at hmove
  -- The rewritten statement mentions the names of both parts, which are all identifiers.
  have hkeys : ∀ n ∈ (s.substitute u.node init).names,
      b.keyAfter t value u.node n = b.key t n := by
    refine fun n hmem => hs.keyAfter_eq hn ?_
    rcases Statement.mem_names_substitute hmem with hmem | hmem
    · exact (hstatement.bounds hn hmem).2
    · exact (hinit.mem_visited (Tree.enters_all hn) hmem).2
  rw [Machine.run_key hkeys]
  exact Machine.run_substitute hmove

/-! ### Two programs -/

namespace Sample

/-- A machine for numbers, on which all names are zero at first. -/
def numbers : Interpretation Nat Nat where
  literal text := text.length
  unary _ v := v
  binary _ v _ := v
  isTruthy v := v != 0
  isNullish _ := false
  undefined := 0
  compute _ _ := 0
  perform _ _ vs _ := ⟨vs.length, vs, fun _ => 0⟩

def zeros : State Nat Nat := ⟨fun _ => 0, []⟩

/-- The initial value assigns to a name of one letter, and a function is read before the binding. -/
def assigning (target : String) : Bytes :=
  Utf8.encode s!"function f() \x7b\x7d\nconst x = ({target} = 5);\nconst r = f + x;\n"

/-- The tree of such a program. -/
def assigningTree : Concrete :=
  construct "program" 0 52 [
    construct "function_declaration" 0 15 [
      token "function" 0,
      construct "identifier" 9 10 [] (some "name"),
      construct "formal_parameters" 10 12 [token "(" 10, token ")" 11] (some "parameters"),
      construct "statement_block" 13 15 [token "\x7b" 13, token "\x7d" 14] (some "body")],
    construct "lexical_declaration" 16 34 [
      token "const" 16 (some "kind"),
      construct "variable_declarator" 22 33 [
        construct "identifier" 22 23 [] (some "name"),
        token "=" 24,
        construct "parenthesized_expression" 26 33 [
          token "(" 26,
          construct "assignment_expression" 27 32 [
            construct "identifier" 27 28 [] (some "left"),
            token "=" 29,
            construct "number" 31 32 [] (some "right")],
          token ")" 32]
          (some "value")],
      token ";" 33],
    construct "lexical_declaration" 35 51 [
      token "const" 35 (some "kind"),
      construct "variable_declarator" 41 50 [
        construct "identifier" 41 42 [] (some "name"),
        token "=" 43,
        construct "binary_expression" 45 50 [
          construct "identifier" 45 46 [] (some "left"),
          token "+" 47 (some "operator"),
          construct "identifier" 49 50 [] (some "right")]
          (some "value")],
      token ";" 50]]

/-- What the rewrite depends on besides the program. -/
def policy : InlinePolicy := ⟨[], 2, ""⟩

end Sample

/-- The assignment to `k` moves into the sum, behind the place where the function is read. -/
theorem BindingTable.sample_inlines :
    let t := Tree.ofConcrete .javascript (Sample.assigning "k") Sample.assigningTree
    let b := ofTree t
    let init := Expr.parenthesized (.assign 10 (.literal "5"))
    b.isSingleUse t Sample.policy 1 = true ∧ t.evaluationPath? 17 12 = some ⟨[16], false⟩ ∧
      init.targets = [10] ∧ b.key t 10 = .free "k" ∧ b.key t 16 = .bound 0 ∧
      b.Inlines t Sample.policy 1 8 17 init
        (.declare 14 (.binary "+" (.name 16) (.name 17))) := by
  intro t b init
  have hfacts : b.isSingleUse t Sample.policy 1 = true ∧
      (b.binding 1).declaration = some 5 ∧ (b.binding 1).initializer = some 8 ∧
      (b.binding 1).usages = [⟨17, false, true⟩] ∧ t.nextStatement? 5 = some 12 ∧
      t.evaluationPath? 17 12 = some ⟨[16], false⟩ ∧ t.Denotes 8 init ∧
      t.DenotesStatement 12 (.declare 14 (.binary "+" (.name 16) (.name 17))) ∧
      ∀ c < t.nodes.size, t.child? c "function" ≠ some 17 := by
    decide +kernel
  have hnames : init.targets = [10] ∧ t.subtree 16 = [16] ∧ b.key t 10 = .free "k" ∧
      b.key t 16 = .bound 0 := by
    decide +kernel
  obtain ⟨hsingle, hdeclaration, hvalue, husages, hnext, hpath, hinit, hstatement, hcallee⟩ :=
    hfacts
  obtain ⟨htargets, hread, htarget, hfunction⟩ := hnames
  refine ⟨hsingle, hpath, htargets, htarget, hfunction,
    inline_preserves_evaluation .javascript _ _ _ hsingle hdeclaration hvalue husages hnext hpath
      hinit hstatement (fun c hc => ?_) fun e he n hn _ m hm => ?_⟩
  · exact hcallee c (Tree.lt_size_of_kind (by rw [hc]; decide))
  · -- The only name that is read before is the function, and the only target is `k`.
    obtain rfl := List.mem_singleton.mp he
    rw [hread] at hn
    rw [htargets] at hm
    rw [List.mem_singleton.mp hn, List.mem_singleton.mp hm, htarget, hfunction]
    decide

/-- **The exception.**  A value that assigns to a function moves behind the place where the function
was read: the binding is single-use and all is written in the core, but the sum was to be made of
the new value of the function, and is now made of the old one. -/
theorem BindingTable.inline_after_assignment :
    let t := Tree.ofConcrete .javascript (Sample.assigning "f") Sample.assigningTree
    let b := ofTree t
    let init := Expr.parenthesized (.assign 10 (.literal "5"))
    let s := Statement.declare 14 (.binary "+" (.name 16) (.name 17))
    b.isSingleUse t Sample.policy 1 = true ∧ t.Denotes 8 init ∧ t.DenotesStatement 12 s ∧
      ¬ b.Inlines t Sample.policy 1 8 17 init s := by
  intro t b init s
  have hfacts : b.isSingleUse t Sample.policy 1 = true ∧ t.Denotes 8 init ∧
      t.DenotesStatement 12 s := by
    decide +kernel
  refine ⟨hfacts.1, hfacts.2.1, hfacts.2.2, fun h => ?_⟩
  have hvalue := (h Sample.numbers Sample.zeros).1
  revert hvalue
  decide +kernel

end Declutter
