import Declutter.Proofs.Collection.EarlyExit
import Declutter.Proofs.Collection.Filling
import Declutter.Proofs.Merge.Observation

/-!
# Callbacks that are suspended

A collection that the callback of `source.forEach(callback)` fills counts as aligned with the
source: after the call it is taken to have one element for each element of the source, in order.
This is so if each call of the callback comes to the statement that adds the element before it
returns.  A generator runs nothing before it is asked for a value, and an asynchronous callback
returns where it is suspended for the first time, so what comes behind is done later, if at all.

The analysis looks at neither.  A callback that is merged with others is rejected if it is
asynchronous, but one that fills a collection is not.

## Main definitions

* `Tree.isAsync`, `Tree.isGenerator`, `Tree.isSuspension` — what is not done at once.
* `Tree.Returns` — what a call of a function has done when it returns.
* `BindingTable.CallbackFills` — a callback that fills a collection.

## Main results

* `Tree.Returns.count_eq_one` — what comes before all suspensions is done once in every call.
* `Arena.added_once_per_element` — when a callback fills a collection at once.
* `Arena.added_behind_await` — a collection that is still empty after the call.
-/

namespace Declutter

namespace Tree

section

variable (t : Tree)

/-! ### Suspensions -/

/-- What a construct begins with, up to its first part. -/
def opening (i : NodeId) : String :=
  let stop := ((t.children i).head?.map fun c => (t.span c).start).getD (t.span i).stop
  Utf8.decode (Bytes.slice t.source (t.span i).start stop)

/-- Whether a function expression is asynchronous.  A parameter that is named `async` is a part. -/
def isAsync (f : NodeId) : Bool := Text.beginsWith (t.opening f) "async"

/-- Whether a function is a generator. -/
def isGenerator (f : NodeId) : Bool :=
  ["generator_function", "generator_function_declaration"].contains (t.type f)

/-- Whether a construct suspends the function that runs it: `await`, `yield`, or a loop
`for await`. -/
def isSuspension (n : NodeId) : Bool :=
  t.kind n == .await || t.kind n == .yield ||
    (t.kind n == .forInStatement && Text.contains (t.opening n) "await")

/-- Whether a node is the body of a function. -/
def isFunctionBody (i : NodeId) : Bool := t.hasField i "body" && t.parentKind? i == some .function

/-- What in a body suspends the function of this body, not another one within it. -/
def ownSuspensions (body : NodeId) : List NodeId :=
  (t.subtree body).filter fun n =>
    t.isSuspension n && (t.pathUp n body).all fun a => a == body || !t.isFunctionBody a

/-- What the language promises of suspensions: among the functions that are handed to calls, only
the asynchronous ones and the generators are suspended. -/
def OwnsSuspensions : Prop :=
  ∀ f < t.nodes.size, t.parentKind? f = some .arguments →
    ∀ body ∈ t.children f, t.isFunctionBody body = true → t.ownSuspensions body ≠ [] →
      t.isAsync f = true ∨ t.isGenerator f = true

instance : Decidable t.OwnsSuspensions := by
  unfold OwnsSuspensions
  infer_instance

end

/-! ### Calls -/

/-- What a call of a function has done when it returns.  A generator has done nothing; another
function has run its body, or it has come to where it is suspended.  The innermost statement that
it has begun there is not done. -/
inductive Returns (t : Tree) (f body : NodeId) : List NodeId → Prop
  | created (hgenerator : t.isGenerator f = true) : Returns t f body []
  | completed {trace : List NodeId} {c : Completion} (hgenerator : t.isGenerator f = false)
      (hrun : t.Runs (.statement [] body) trace c) : Returns t f body trace
  | suspended {before after : List NodeId} {s n : NodeId} {c : Completion}
      (hgenerator : t.isGenerator f = false)
      (hrun : t.Runs (.statement [] body) (before ++ s :: after) c)
      (hsuspends : n ∈ t.ownSuspensions body) (hwithin : t.isWithin n s = true)
      (hinner : ∀ s' ∈ before ++ s :: after, t.isWithin n s' = true → s' ≤ s) :
      Returns t f body before

/-- The indices of the elements of the source for which an element was added, in the order in
which this was done. -/
def added (populate : NodeId) (calls : List (List NodeId)) : List Nat :=
  calls.zipIdx.flatMap fun (done, index) => List.replicate (done.count populate) index

variable {t : Tree} {f body s p n : NodeId} {trace done : List NodeId} {c : Completion}

/-- What is added once in each call is added once for each element, in order. -/
theorem added_eq_range {calls : List (List NodeId)} (h : ∀ done ∈ calls, done.count p = 1) :
    added p calls = List.range calls.length := by
  have hone : ∀ x ∈ calls.zipIdx, List.replicate (x.1.count p) x.2 = [x.2] := by
    intro x hx
    rw [h x.1 (List.fst_mem_of_mem_zipIdx hx)]
    rfl
  have hadded : added p calls = calls.zipIdx.flatMap fun x => [x.2] := by
    rw [List.flatMap_def, ← List.map_congr_left hone]
    rfl
  rw [hadded, ← List.map_eq_flatMap, List.zipIdx_map_snd, List.range_eq_range']

/-- What a body does up to the end of one of its statements: nothing in it comes behind that. -/
theorem Runs.exists_part (hn : t.InPreorder) (hblock : t.kind body = .block)
    (hp : p ∈ t.children body) (h : t.Runs (.statement [] body) trace .normal) :
    ∃ earlier later, trace = earlier ++ later ∧ p ∈ earlier ∧ ∀ n ∈ earlier, n < t.stop p := by
  obtain ⟨rest, rfl, hrun⟩ := h.of_block hn hblock
  obtain ⟨pre, post, hsplit⟩ := List.append_of_mem hp
  have hsorted := (hn.tiles body (lt_size_of_mem_children hp)).pairwise
  have hchild : ∀ s ∈ pre ++ p :: post, s ∈ t.children body := fun s hs => hsplit ▸ hs
  rw [hsplit] at hrun hsorted
  obtain ⟨first, second, rfl, hfirst, hsecond⟩ := hrun.of_append
  have hbounds := hn.child_bounds hp
  cases hsecond with
  | stop _ hc => exact absurd rfl hc
  | @next _ _ own later _ hown hlater =>
    obtain ⟨below, hbegin, -⟩ := hown.of_statement hn
    refine ⟨body :: (first ++ own), later, by simp, by simp [hbegin], ?_⟩
    intro n hmem
    rcases List.mem_cons.mp hmem with rfl | hmem
    · exact Nat.lt_trans hbounds.1 hbounds.2.1
    rcases List.mem_append.mp hmem with hmem | hmem
    · -- What an earlier statement does lies within it.
      obtain ⟨i, hi, hwithin⟩ := hfirst.staysWithin hn n hmem
      have hi' := hn.lt_size_of_mem (hchild i (List.mem_append_left _ hi))
      have hlt := ((hn.isWithin_iff (lt_size_of_isWithin hi' hwithin)).mp hwithin).2
      have hbefore := ((List.pairwise_append.mp hsorted).2.2 i hi p (.head _)).1
      exact Nat.lt_trans (Nat.lt_of_lt_of_le hlt hbefore) hbounds.2.1
    · obtain ⟨i, hi, hwithin⟩ := hown.staysWithin hn n hmem
      rw [List.mem_singleton.mp hi] at hwithin
      have hp' := hn.lt_size_of_mem hp
      exact ((hn.isWithin_iff (lt_size_of_isWithin hp' hwithin)).mp hwithin).2

/-- A statement in a body that is suspended only behind another statement of it comes behind that
statement, or is the body. -/
theorem InPreorder.stop_le_of_suspended (hn : t.InPreorder) (hp : p ∈ t.children body)
    (hs : t.isWithin s body = true) (hne : s ≠ body) (hns : t.isWithin n s = true)
    (hbehind : t.stop p ≤ n) : t.stop p ≤ s := by
  have hbody : body < t.nodes.size := lt_size_of_mem_children hp
  have hsize := lt_size_of_isWithin hbody hs
  have hnsize := lt_size_of_isWithin hsize hns
  obtain ⟨s₀, hs₀, hwithin⟩ := hn.exists_child_of_isWithin hsize hs hne
  obtain ⟨hle, hlt⟩ := (hn.isWithin_iff hsize).mp hwithin
  have hlast := ((hn.isWithin_iff hnsize).mp (hn.isWithin_trans hnsize hns hwithin)).2
  rcases hn.lt_or_lt hp hs₀ with rfl | hbefore | hafter
  · omega
  · omega
  · have := hn.child_bounds hp
    omega

/-- **What comes before all suspensions** is done once in every call of a function that is no
generator: a statement that stands directly in a body without early exit. -/
theorem Returns.count_eq_one (hn : t.InPreorder) (hblock : t.kind body = .block)
    (hscan : t.hasEarlyExit body = false) (hp : p ∈ t.children body)
    (hgenerator : t.isGenerator f = false) (hbehind : ∀ n ∈ t.ownSuspensions body, t.stop p ≤ n)
    (h : t.Returns f body done) : done.count p = 1 := by
  have hjump : t.jump? body = none := by
    simp [jump?, hblock]
  have hdirect : p ∈ t.statementsIn body := by
    rwa [statementsIn, if_pos hblock]
  cases h with
  | created hcreated =>
    rw [hgenerator] at hcreated
    cases hcreated
  | completed _ hrun =>
    obtain rfl := hrun.eq_normal hn hjump hscan
    exact hrun.count_statementsIn hn p hdirect
  | @suspended _ after s n c _ hrun hsuspends hwithin hinner =>
    obtain rfl := hrun.eq_normal hn hjump hscan
    have hcount := hrun.count_statementsIn hn
    have hbody : body < t.nodes.size := lt_size_of_mem_children hp
    obtain ⟨hmem, hown⟩ := List.mem_filter.mp hsuspends
    have hnbody := hn.isWithin_of_mem_subtree hmem
    have hnsize := lt_size_of_isWithin hbody hnbody
    have hafter := hbehind n hsuspends
    obtain ⟨earlier, later, htrace, hpmem, hearlier⟩ := hrun.exists_part hn hblock hp
    -- The innermost statement around the suspension comes behind the one in question.
    have hstop : t.stop p ≤ s := by
      obtain ⟨i, hi, hs⟩ := hrun.staysWithin hn s (by simp)
      rw [List.mem_singleton.mp hi] at hs
      refine hn.stop_le_of_suspended hp hs ?_ hwithin hafter
      rintro rfl
      have hne : n ≠ s := by
        rintro rfl
        simp [isSuspension, hblock] at hown
      obtain ⟨d, hd, hnd⟩ := hn.exists_child_of_isWithin hnsize hnbody hne
      have hdone : d ∈ done ++ s :: after := by
        refine List.count_pos_iff.mp ?_
        rw [hcount d (by rwa [statementsIn, if_pos hblock])]
        exact Nat.one_pos
      exact absurd (hinner d hdone hnd) (Nat.not_le.mpr (hn.child_bounds hd).1)
    have hnot : s ∉ earlier := fun hs => Nat.not_lt.mpr hstop (hearlier s hs)
    have hdone : p ∈ done := by
      rcases List.append_eq_append_iff.mp htrace with ⟨as, rfl, has⟩ | ⟨bs, rfl, -⟩
      · cases as with
        | nil => simpa using hpmem
        | cons a as =>
          obtain ⟨rfl, -⟩ := List.cons.inj has
          exact absurd (List.mem_append_right _ (.head _)) hnot
      · exact List.mem_append_left _ hpmem
    have hle := hcount p hdirect
    have hpos := List.count_pos_iff.mpr hdone
    rw [List.count_append] at hle
    omega

/-- The same where the callback adds the element by its value. -/
theorem Returns.count_eq_one_of_plain (hn : t.InPreorder) (hplain : t.isControl body = false)
    (hbody : body < t.nodes.size) (hgenerator : t.isGenerator f = false)
    (hbehind : ∀ n ∈ t.ownSuspensions body, t.stop body ≤ n) (h : t.Returns f body done) :
    done.count body = 1 := by
  cases h with
  | created hcreated =>
    rw [hgenerator] at hcreated
    cases hcreated
  | completed _ hrun =>
    obtain ⟨rfl, -⟩ := hrun.of_plain hplain
    exact List.count_singleton_self
  | @suspended _ after s n c _ hrun hsuspends =>
    have hmem := (List.mem_filter.mp hsuspends).1
    have hlt := ((hn.mem_subtree_iff hbody).mp hmem).2
    have := hbehind n hsuspends
    omega

end Tree

/-! ### Callbacks that fill a collection -/

/-- Where a callback adds an element: its value does, or a statement that stands directly in its
body, which has no early exit. -/
inductive Tree.AddsAt (t : Tree) (expression body : NodeId) : NodeId → Prop
  | value (h : expression = body) : AddsAt t expression body body
  | statement {p : NodeId} (hp : t.parent? expression = some p) (hbody : t.parent? p = some body)
      (hblock : t.kind body = .block) (hscan : t.hasEarlyExit body = false) :
      AddsAt t expression body p

/-- A callback that fills a collection: the first argument of a call of `forEach` on the source,
with the only usage of the collection that adds an element to it. -/
structure BindingTable.CallbackFills (b : BindingTable) (t : Tree) (c : Collection)
    (source : BindingId) (call f body populate : NodeId) : Prop where
  method : ∃ parts, t.call? call = some parts ∧ parts.name = "forEach" ∧
    parts.receiver.bind (b.sourceOf? t) = some source
  first : ∃ arguments, t.parent? f = some arguments ∧ t.parent? arguments = some call ∧
    t.kind arguments = .arguments ∧ (t.children arguments).head? = some f
  function : t.kind f = .function
  inside : t.parent? body = some f ∧ t.hasField body "body" = true
  populates : c.populate = some populate
  place : ∃ u expression,
    ((b.binding c.binding).usages.filter fun u => adds t c.shape u.node) = [u] ∧
      (t.parent? u.node).bind t.parent? = some expression ∧ t.AddsAt expression body populate

namespace BindingTable

variable {b : BindingTable} {t : Tree}

/-- What adds an element is a call or an assignment. -/
theorem kind_of_adds {shape : Shape} {u expression : NodeId} (h : adds t shape u = true)
    (hexpression : (t.parent? u).bind t.parent? = some expression) :
    t.kind expression = .call ∨ t.kind expression = .assignment := by
  unfold adds at h
  split at h
  · cases h
  rename_i access haccess
  rw [haccess, Option.bind_some] at hexpression
  rw [hexpression] at h
  split at h
  · cases h
  dsimp only at h
  split at h
  · simp only [Bool.and_eq_true, beq_iff_eq] at h
    exact .inl h.1.1
  · simp only [Bool.and_eq_true, beq_iff_eq] at h
    exact .inr h.1
  · cases h

/-- **The callback of a filling.** -/
theorem exists_callback {f : Filling} {c : Collection}
    (h : b.filling? t c.binding c.shape = some f) (hpopulate : c.populate = some f.populate)
    (hcall : t.kind f.loop = .call) :
    ∃ function body, b.CallbackFills t c f.source f.loop function body f.populate := by
  obtain ⟨u, expression, husages, hexpression, hfill, -⟩ := fillingAt_of_filling h
  unfold fillingAt? at hfill
  split at hfill
  · cases hfill
  rename_i outer houter
  split at hfill
  · rename_i hplace
    simp only [Bool.and_eq_true, beq_iff_eq] at hplace
    obtain ⟨⟨loop, source⟩, hloop, rfl⟩ := Option.map_eq_some_iff.mp hfill
    obtain ⟨arguments, harguments, hparent, hkind, hfirst, -⟩ := callbackIteration_cases hloop
    exact ⟨outer, expression, call_of_callbackIteration hloop,
      ⟨arguments, harguments, hparent, hkind, hfirst⟩, hplace.1, ⟨houter, hplace.2⟩, hpopulate,
      u, expression, husages, hexpression, .value rfl⟩
  split at hfill
  · obtain ⟨⟨loop, source⟩, hloop, rfl⟩ := Option.map_eq_some_iff.mp hfill
    obtain ⟨body, owner, hbody, howner, hblock, hfield, hscan, hcases⟩ :=
      block_of_enclosingIteration hloop
    rcases hcases with ⟨hkind, rfl, -⟩ | ⟨hkind, rfl, -⟩ | ⟨hkind, hcallback⟩
    · rw [hkind] at hcall
      cases hcall
    · rw [hkind] at hcall
      cases hcall
    · obtain ⟨arguments, harguments, hparent, hargs, hfirst, -⟩ :=
        callbackIteration_cases hcallback
      exact ⟨owner, body, call_of_callbackIteration hcallback,
        ⟨arguments, harguments, hparent, hargs, hfirst⟩, hkind, ⟨howner, hfield⟩, hpopulate,
        u, expression, husages, hexpression, .statement houter hbody hblock hscan⟩
  · cases hfill

variable {c : Collection} {source : BindingId} {call f body populate : NodeId}

/-- A callback that is neither asynchronous nor a generator is not suspended. -/
theorem CallbackFills.ownSuspensions_eq_nil (hn : t.InPreorder)
    (h : b.CallbackFills t c source call f body populate) (howns : t.OwnsSuspensions)
    (hasync : t.isAsync f = false) (hgenerator : t.isGenerator f = false) :
    t.ownSuspensions body = [] := by
  by_contra hne
  obtain ⟨arguments, harguments, -, hkind, -⟩ := h.first
  have hmem := hn.mem_children_iff.mpr h.inside.1
  have hhanded : t.parentKind? f = some .arguments := by
    rw [Tree.parentKind?, harguments, Option.map_some, hkind]
  have hbody : t.isFunctionBody body = true := by
    simp [Tree.isFunctionBody, Tree.parentKind?, h.inside.1, h.inside.2, h.function]
  rcases howns f (Tree.lt_size_of_mem_children hmem) hhanded body hmem hbody hne with hf | hf
  · rw [hasync] at hf
    cases hf
  · rw [hgenerator] at hf
    cases hf

/-- **Each call adds one element**, if the callback is no generator and all its suspensions come
behind the place where it adds the element. -/
theorem CallbackFills.count_eq_one (hn : t.InPreorder)
    (h : b.CallbackFills t c source call f body populate) (hgenerator : t.isGenerator f = false)
    (hbehind : ∀ n ∈ t.ownSuspensions body, t.stop populate ≤ n) {done : List NodeId}
    (hreturns : t.Returns f body done) : done.count populate = 1 := by
  obtain ⟨u, expression, husages, hexpression, hplace⟩ := h.place
  cases hplace with
  | value hvalue =>
    have hadds : adds t c.shape u.node = true := by
      have hu : u ∈ (b.binding c.binding).usages.filter fun u => adds t c.shape u.node := by
        rw [husages]
        exact .head _
      exact (List.mem_filter.mp hu).2
    have hbody := hn.lt_size_of_mem (hn.mem_children_iff.mpr h.inside.1)
    have hplain : t.isControl body = false := by
      have hkind := kind_of_adds hadds hexpression
      rw [hvalue] at hkind
      have htype : t.type body ≠ "with_statement" := by
        intro hwith
        rw [hn.kind_eq body hbody, hwith] at hkind
        revert hkind
        decide
      rcases hkind with hkind | hkind <;> simp [Tree.isControl, hkind, Kind.isControl, htype]
    exact hreturns.count_eq_one_of_plain hn hplain hbody hgenerator hbehind
  | statement _ hparent hblock hscan =>
    exact hreturns.count_eq_one hn hblock hscan (hn.mem_children_iff.mpr hparent) hgenerator
      hbehind

end BindingTable

/-! ### Collections -/

namespace Arena

/-- **When a callback fills a collection at once.**  A collection that a call fills has a callback
with one place where an element is added.  If the callback is neither asynchronous nor a generator,
nothing suspends it; and if it is no generator and nothing suspends it before the element is added,
then after the call there is one element for each element of the source, in order. -/
theorem added_once_per_element (l : Language) (s : Bytes) (root : Concrete) (m : CollectionId)
    (call : NodeId) :
    let t := Tree.ofConcrete l s root
    let b := BindingTable.ofTree t
    let a := ofTree b t
    (a.collection m).derivation = .append → (a.collection m).loop = some call →
    t.kind call = .call →
    ∃ origin f body populate, (a.collection m).origin = some origin ∧ origin < m ∧
      b.CallbackFills t (a.collection m) (a.collection origin).binding call f body populate ∧
      (t.OwnsSuspensions → t.isAsync f = false → t.isGenerator f = false →
        t.ownSuspensions body = []) ∧
      (t.isGenerator f = false → (∀ n ∈ t.ownSuspensions body, t.stop populate ≤ n) →
        ∀ calls : List (List NodeId), (∀ done ∈ calls, t.Returns f body done) →
          Tree.added populate calls = List.range calls.length) := by
  intro t b a hderivation hloop hkind
  have hn : t.InPreorder := Tree.inPreorder_ofConcrete l s root
  obtain ⟨filling, origin, hfilling, hfloop, hfpopulate, horigin, hbefore, hsource⟩ :=
    exists_filling hderivation
  obtain rfl : filling.loop = call := Option.some.inj (hfloop.symm.trans hloop)
  obtain ⟨f, body, hfills⟩ := BindingTable.exists_callback hfilling hfpopulate hkind
  rw [hsource] at hfills
  refine ⟨origin, f, body, filling.populate, horigin, hbefore, hfills, ?_, ?_⟩
  · exact fun howns hasync hgenerator => hfills.ownSuspensions_eq_nil hn howns hasync hgenerator
  · intro hgenerator hbehind calls hcalls
    exact Tree.added_eq_range fun done hdone =>
      hfills.count_eq_one hn hgenerator hbehind (hcalls done hdone)

end Arena

/-! ### Two programs -/

namespace Sample

/-- A sequence is filled by an asynchronous callback. -/
def suspending (statements : String) : Bytes := Utf8.encode (
  "const src = get();\nconst a = [];\nsrc.forEach(async s => \x7b " ++ statements ++ " \x7d);\n")

/-- The statement `await f(s);` at an offset. -/
def awaitTree (k : Nat) : Concrete :=
  statementTree (construct "await_expression" k (k + 10)
    [token "await" k, callTree (nameTree (k + 6) (some "function")) [nameTree (k + 8)]])

/-- The tree of `suspending`, where the statements are 22 bytes long. -/
def suspendingTree (statements : List Concrete) : Concrete :=
  construct "program" 0 85 [
    sourceDeclaration,
    emptyDeclaration 19,
    statementTree (callTree
      (construct "member_expression" 33 44 [
        construct "identifier" 33 36 [] (some "object"), token "." 36,
        construct "property_identifier" 37 44 [] (some "property")] (some "function"))
      [construct "arrow_function" 45 82 [
        token "async" 45,
        nameTree 51 (some "parameter"),
        token "=>" 53,
        construct "statement_block" 56 82 (token "\x7b" 56 :: (statements ++ [token "\x7d" 81]))
          (some "body")]])]

end Sample

/-- The callback is suspended only behind the statement that adds the element, so after the call
there is one element for each element of the source. -/
theorem Arena.added_once_before_await :
    let t := Tree.ofConcrete .javascript (Sample.suspending "a.push(s); await f(s);")
      (Sample.suspendingTree [Sample.pushTree 58 (Sample.nameTree 65), Sample.awaitTree 69])
    t.isAsync 17 = true ∧ t.ownSuspensions 19 = [28] ∧ t.Returns 17 19 [19, 20] ∧
      ∀ calls : List (List NodeId), (∀ done ∈ calls, t.Returns 17 19 done) →
        Tree.added 20 calls = List.range calls.length := by
  intro t
  have hfacts : (((ofTree (BindingTable.ofTree t) t).collection 1).derivation = .append ∧
      ((ofTree (BindingTable.ofTree t) t).collection 1).loop = some 12 ∧
      ((ofTree (BindingTable.ofTree t) t).collection 1).populate = some 20 ∧
      t.kind 12 = .call) ∧ (t.isAsync 17 = true ∧ t.isGenerator 17 = false ∧
      t.ownSuspensions 19 = [28] ∧ t.stop 20 = 27) ∧ (t.kind 19 = .block ∧
      t.children 19 = [20, 27] ∧ t.isControl 20 = false ∧ t.isControl 27 = false ∧
      t.isWithin 28 27 = true) ∧
      (∀ n < t.nodes.size, t.kind n = .arguments → t.parent? n = some 12 →
        t.children n = [17]) ∧
      ∀ n < t.nodes.size, t.parent? n = some 17 → t.hasField n "body" = true → n = 19 := by
    decide +kernel
  obtain ⟨⟨hderivation, hloop, hpopulate, hcall⟩, ⟨hasync, hgenerator, hown, hstop⟩,
    ⟨hblock, hparts, hpush, hawait, hwithin⟩, harguments, hbody⟩ := hfacts
  refine ⟨hasync, hown, ?_, ?_⟩
  · have hrun : t.Runs (.statement [] 19) [19, 20, 27] .normal :=
      .block hblock hparts (.next (.plain hpush) (.next (.plain hawait) .done))
    have hsplit : t.Runs (.statement [] 19) ([19, 20] ++ 27 :: []) .normal := hrun
    have hsuspends : 28 ∈ t.ownSuspensions 19 := by simp [hown]
    refine .suspended hgenerator hsplit hsuspends hwithin ?_
    intro s hs _
    have hmem : s = 19 ∨ s = 20 ∨ s = 27 := by simpa using hs
    rcases hmem with rfl | rfl | rfl <;> decide
  · obtain ⟨origin, f, body, populate, -, -, hfills, -, hadded⟩ := added_once_per_element
      .javascript _ _ 1 12 hderivation hloop hcall
    obtain rfl : populate = 20 :=
      Option.some.inj (hfills.populates.symm.trans hpopulate)
    obtain ⟨arguments, -, hparent, hkind, hfirst⟩ := hfills.first
    have hchildren := harguments arguments (Tree.lt_size_of_parent hparent) hkind hparent
    obtain rfl : f = 17 := by
      have hhead : (t.children arguments).head? = some f := hfirst
      rw [hchildren] at hhead
      exact (Option.some.inj hhead).symm
    obtain ⟨hinside, hfield⟩ := hfills.inside
    obtain rfl : body = 19 := hbody body (Tree.lt_size_of_parent hinside) hinside hfield
    refine hadded hgenerator fun n hmem => ?_
    have hlast : n ∈ [28] := hown ▸ (show n ∈ t.ownSuspensions 19 from hmem)
    rw [List.mem_singleton.mp hlast]
    show t.stop 20 ≤ 28
    omega

/-- **The exception.**  The callback is suspended before it adds the element, and so the sequence is
empty after the call.  It counts as aligned with the source all the same. -/
theorem Arena.added_behind_await :
    let t := Tree.ofConcrete .javascript (Sample.suspending "await f(s); a.push(s);")
      (Sample.suspendingTree [Sample.awaitTree 58, Sample.pushTree 70 (Sample.nameTree 77)])
    let a := ofTree (BindingTable.ofTree t) t
    ((a.collection 1).derivation = .append ∧ (a.collection 1).loop = some 12 ∧
      (a.collection 1).populate = some 26 ∧ a.anchor? 1 = some 0) ∧
      t.isAsync 17 = true ∧ t.ownSuspensions 19 = [21] ∧
      t.Returns 17 19 [19] ∧ Tree.added 26 [[19]] = [] := by
  intro t a
  have hfacts : ((a.collection 1).derivation = .append ∧ (a.collection 1).loop = some 12 ∧
      (a.collection 1).populate = some 26 ∧ a.anchor? 1 = some 0) ∧ t.isAsync 17 = true ∧
      t.isGenerator 17 = false ∧ t.ownSuspensions 19 = [21] ∧ (t.kind 19 = .block ∧
      t.children 19 = [20, 26] ∧ t.isControl 20 = false ∧ t.isControl 26 = false) ∧
      t.isWithin 21 20 = true ∧ t.isWithin 21 26 = false := by
    decide +kernel
  obtain ⟨hfilled, hasync, hgenerator, hown, ⟨hblock, hparts, hawait, hpush⟩, hwithin, hbehind⟩ :=
    hfacts
  refine ⟨hfilled, hasync, hown, ?_, by decide⟩
  have hrun : t.Runs (.statement [] 19) [19, 20, 26] .normal :=
    .block hblock hparts (.next (.plain hawait) (.next (.plain hpush) .done))
  have hsuspends : 21 ∈ t.ownSuspensions 19 := by simp [hown]
  have hsplit : t.Runs (.statement [] 19) ([19] ++ 20 :: [26]) .normal := hrun
  refine .suspended hgenerator hsplit hsuspends hwithin ?_
  intro s hs hinner
  have hmem : s = 19 ∨ s = 20 ∨ s = 26 := by simpa using hs
  rcases hmem with rfl | rfl | rfl
  · decide
  · decide
  · rw [hbehind] at hinner
    cases hinner

end Declutter
