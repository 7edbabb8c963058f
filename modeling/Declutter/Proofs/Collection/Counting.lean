import Declutter.Proofs.Attempt
import Declutter.Proofs.Binding.Assignment
import Declutter.Proofs.Merge.Coverage

/-!
# Loops that count an index

In a loop `for (let i = 0; i < c.length; i++)` the index is in range while the body runs, and so an
element that is accessed at it can be taken from a record instead.  An access within a function that
the body makes is evaluated when the function is called, which may be in a later turn or behind the
loop.  There the index is still in range if each turn has a variable of its own, as with `let`.
With `var` all turns share one variable, which at the end is the length.

The analysis asks for the form of the head, but not for the keyword, and takes the accesses from the
whole body, with the functions in it.  Assignments to the index are looked for, but not within
parentheses, and not in the head of a loop that declares the name again.

## Main definitions

* `Counting`, `Counting.Step`, `Counting.Reaches` — a loop that counts, and what it may do.
* `Counting.InRange` — an index is below the length wherever it is evaluated.
* `BindingTable.CountsIn` — the head of a loop that counts.
* `BindingTable.Overwrites` — what the analysis does not see of assignments.

## Main results

* `Counting.Sound.step`, `Counting.Reaches.sound` — what every turn preserves.
* `Counting.inRange_iff` — when an index is in range.
* `BindingTable.accessed_in_range` — which accesses of an iteration are evaluated in range.
* `BindingTable.accessed_behind_loop` — one that is not, and is rewritten.
-/

namespace Declutter

/-! ### Variables and turns -/

/-- What becomes of the variable in the head of a loop. -/
inductive Keeping where
  /-- Each turn has a variable of its own. -/
  | perTurn
  /-- All turns share one. -/
  | shared
  /-- It cannot be assigned to. -/
  | constant
  deriving DecidableEq, Repr

/-- Where a loop is. -/
inductive Stage where
  | testing
  | body
  | finished
  deriving DecidableEq, Repr

/-- A loop that counts. -/
structure Counting where
  /-- The values of the variables that have been made. -/
  cells : List Nat
  /-- The variable of the turn. -/
  current : Nat
  stage : Stage
  /-- The variables that functions hold which the body has made. -/
  captured : List Nat

namespace Counting

/-- A loop that has not taken a turn. -/
def start : Counting := ⟨[0], 0, .testing, []⟩

/-- What a loop may do that counts up to `length`, which is that of a collection that does not
change.  In the body, and in the functions made there, the variable may be assigned to if
`overwrites` holds.  Counting a constant throws. -/
inductive Step (k : Keeping) (overwrites : Prop) (length : Nat) : Counting → Counting → Prop
  | enter {s : Counting} {v : Nat} (hstage : s.stage = .testing)
      (hv : s.cells[s.current]? = some v) (hlt : v < length) :
      Step k overwrites length s { s with stage := .body }
  | finish {s : Counting} {v : Nat} (hstage : s.stage = .testing)
      (hv : s.cells[s.current]? = some v) (hge : length ≤ v) :
      Step k overwrites length s { s with stage := .finished }
  | leave {s : Counting} (hstage : s.stage = .body) :
      Step k overwrites length s { s with stage := .finished }
  | capture {s : Counting} (hstage : s.stage = .body) :
      Step k overwrites length s { s with captured := s.current :: s.captured }
  | countAnew {s : Counting} {v : Nat} (hk : k = .perTurn) (hstage : s.stage = .body)
      (hv : s.cells[s.current]? = some v) :
      Step k overwrites length s
        { s with cells := s.cells ++ [v + 1], current := s.cells.length, stage := .testing }
  | count {s : Counting} {v : Nat} (hk : k = .shared) (hstage : s.stage = .body)
      (hv : s.cells[s.current]? = some v) :
      Step k overwrites length s
        { s with cells := s.cells.set s.current (v + 1), stage := .testing }
  | overwrite {s : Counting} {c v : Nat} (hk : k ≠ .constant) (hoverwrites : overwrites)
      (hc : s.stage = .body ∧ c = s.current ∨ c ∈ s.captured) :
      Step k overwrites length s { s with cells := s.cells.set c v }

/-- What a loop may come to. -/
inductive Reaches (k : Keeping) (overwrites : Prop) (length : Nat) : Counting → Prop
  | start : Reaches k overwrites length start
  | step {s s' : Counting} (hreaches : Reaches k overwrites length s)
      (hstep : Step k overwrites length s s') : Reaches k overwrites length s'

/-- The values that the index may have where it is evaluated: in the body that of the turn, and in a
function, which may be called at any time, that of the turn in which the function was made. -/
def Shows (s : Counting) (deferred : Bool) (v : Nat) : Prop :=
  if deferred then ∃ c ∈ s.captured, s.cells[c]? = some v
  else s.stage = .body ∧ s.cells[s.current]? = some v

/-- The index is below the length wherever it is evaluated, so the test still holds of it. -/
def InRange (k : Keeping) (overwrites : Prop) (deferred : Bool) : Prop :=
  ∀ length s v, Reaches k overwrites length s → s.Shows deferred v → v < length

variable {k : Keeping} {overwrites : Prop} {length : Nat} {s s' : Counting} {deferred : Bool}

/-- What holds of a loop in whose body the variable stays as it is. -/
structure Sound (k : Keeping) (length : Nat) (s : Counting) : Prop where
  bound : ∀ c ∈ s.captured, c < s.cells.length
  turn : s.stage = .body → ∀ v, s.cells[s.current]? = some v → v < length
  made : k ≠ .shared → ∀ c ∈ s.captured, ∀ v, s.cells[c]? = some v → v < length
  exists_cell : s.current < s.cells.length

theorem sound_start : Sound k length start where
  bound := fun _ hc => nomatch hc
  turn := fun h => nomatch h
  made := fun _ _ hc => nomatch hc
  exists_cell := Nat.one_pos

/-- **One step** keeps the index in range. -/
theorem Sound.step (h : Sound k length s) (hstep : Step k overwrites length s s')
    (hkept : k = .constant ∨ ¬ overwrites) : Sound k length s' := by
  cases hstep with
  | @enter v hstage hv hlt =>
    refine ⟨h.bound, ?_, h.made, h.exists_cell⟩
    intro _ w hw
    obtain rfl := Option.some.inj (hv.symm.trans hw)
    exact hlt
  | finish | leave => exact ⟨h.bound, (fun hover => nomatch hover), h.made, h.exists_cell⟩
  | capture hstage =>
    refine ⟨?_, h.turn, ?_, h.exists_cell⟩
    · intro c hc
      rcases List.mem_cons.mp hc with rfl | hc
      · exact h.exists_cell
      · exact h.bound c hc
    · intro hk c hc
      rcases List.mem_cons.mp hc with rfl | hc
      · exact h.turn hstage
      · exact h.made hk c hc
  | @countAnew v hk hstage hv =>
    refine ⟨?_, (fun htesting => nomatch htesting), ?_, ?_⟩
    · intro c hc
      have := h.bound c hc
      simp only [List.length_append, List.length_singleton]
      omega
    · -- The new variable is none that a function holds.
      intro hne c hc w hw
      rw [List.getElem?_append_left (h.bound c hc)] at hw
      exact h.made hne c hc w hw
    · simp
  | @count v hk hstage hv =>
    refine ⟨?_, (fun htesting => nomatch htesting), fun hne => absurd hk hne, ?_⟩
    · intro c hc
      rw [List.length_set]
      exact h.bound c hc
    · rw [List.length_set]
      exact h.exists_cell
  | overwrite hk hoverwrites =>
    rcases hkept with hconstant | hnot
    · exact absurd hconstant hk
    · exact absurd hoverwrites hnot

/-- **Every run** keeps the index in range. -/
theorem Reaches.sound (h : Reaches k overwrites length s) (hkept : k = .constant ∨ ¬ overwrites) :
    Sound k length s := by
  induction h with
  | start => exact sound_start
  | step _ hstep ih => exact ih.step hstep hkept

/-- A loop over one element that is in its first turn, with the function that the body has made. -/
theorem reaches_first (k : Keeping) (overwrites : Prop) :
    Reaches k overwrites 1 ⟨[0], 0, .body, []⟩ ∧ Reaches k overwrites 1 ⟨[0], 0, .body, [0]⟩ := by
  have hentered : Reaches k overwrites 1 ⟨[0], 0, .body, []⟩ :=
    .step .start (.enter (v := 0) rfl rfl Nat.one_pos)
  exact ⟨hentered, .step hentered (.capture rfl)⟩

/-- Where the variable is assigned to, the index may be out of range. -/
theorem not_inRange_of_overwrites (hk : k ≠ .constant) (hoverwrites : overwrites) :
    ¬ InRange k overwrites deferred := by
  intro hall
  obtain ⟨hentered, hmade⟩ := reaches_first k overwrites
  cases deferred with
  | false =>
    have hset := Reaches.step hentered
      (.overwrite (c := 0) (v := 1) hk hoverwrites (.inl ⟨rfl, rfl⟩))
    exact absurd (hall 1 _ 1 hset ⟨rfl, rfl⟩) (Nat.lt_irrefl 1)
  | true =>
    have hset := Reaches.step hmade
      (.overwrite (c := 0) (v := 1) hk hoverwrites (.inl ⟨rfl, rfl⟩))
    exact absurd (hall 1 _ 1 hset ⟨0, .head _, rfl⟩) (Nat.lt_irrefl 1)

/-- A function that is called behind the loop sees the length in a shared variable. -/
theorem not_inRange_of_shared : ¬ InRange .shared overwrites true := by
  intro hall
  obtain ⟨-, hmade⟩ := reaches_first .shared overwrites
  have hcounted := Reaches.step hmade (.count (v := 0) rfl rfl rfl)
  exact absurd (hall 1 _ 1 hcounted ⟨0, .head _, rfl⟩) (Nat.lt_irrefl 1)

/-- **When an index is in range**: the variable is a constant, or nothing else assigns to it and,
within a function, each turn has its own. -/
theorem inRange_iff : InRange k overwrites deferred ↔
    k = .constant ∨ ¬ overwrites ∧ (deferred = true → k = .perTurn) := by
  constructor
  · intro hall
    by_cases hk : k = .constant
    · exact .inl hk
    refine .inr ⟨fun hoverwrites => not_inRange_of_overwrites hk hoverwrites hall, ?_⟩
    rintro rfl
    cases k with
    | perTurn => rfl
    | shared => exact absurd hall not_inRange_of_shared
    | constant => exact absurd rfl hk
  · intro hkept length s v hreaches hshows
    have hsound := hreaches.sound (hkept.imp_right And.left)
    cases deferred with
    | false => exact hsound.turn hshows.1 v hshows.2
    | true =>
      obtain ⟨c, hc, hv⟩ := hshows
      refine hsound.made ?_ c hc v hv
      rcases hkept with rfl | ⟨-, hk⟩
      · decide
      · rw [hk rfl]
        decide

end Counting

/-! ### Iterations -/

namespace Tree

variable (t : Tree)

/-- What the keyword of a declaration makes of the variable in the head of a loop. -/
def keeping (initializer : NodeId) : Keeping :=
  match t.keyword initializer with
  | some "let" => .perTurn
  | some "const" => .constant
  | _ => .shared

/-- Whether a field of a class belongs to the class. -/
def isStaticField (i : NodeId) : Bool :=
  ((t.child? i "property").or (t.child? i "name")).any fun name =>
    Text.contains (Utf8.decode (Bytes.slice t.source (t.span i).start (t.span name).start)) "static"

/-- Whether a node is not evaluated where it stands: the body and the parameters of a function, and
the value of a field, which is evaluated when an object is made. -/
def isEvaluatedLater (i : NodeId) : Bool :=
  (t.parent? i).any fun p =>
    (t.kind p == .function &&
      (t.hasField i "body" || t.hasField i "parameters" || t.hasField i "parameter")) ||
    (["field_definition", "public_field_definition"].contains (t.type p) &&
      t.hasField i "value" && !t.isStaticField p)

/-- Whether a node in a body is evaluated when a function made there is called. -/
def isDeferred (n body : NodeId) : Bool := (t.pathUp n body).any t.isEvaluatedLater

end Tree

namespace BindingTable

/-- The head of a loop that counts an index from zero up to a length, by one. -/
structure CountsIn (b : BindingTable) (t : Tree) (context : ZipContext)
    (length initializer increment : NodeId) : Prop where
  parts : t.kind context.node = .forStatement ∧
    t.child? context.node "initializer" = some initializer ∧
    t.child? context.node "increment" = some increment ∧
    t.child? context.node "body" = some context.body
  zero : t.kind initializer = .variableDeclaration ∧ ∃ declarator name value,
    t.children initializer = [declarator] ∧ t.child? declarator "name" = some name ∧
      t.child? declarator "value" = some value ∧ t.text value = "0" ∧
      b.of? name = some context.index
  test : ∃ condition, t.child? context.node "condition" = some condition ∧
    b.lengthBound? t context.index condition = some length ∧
    (t.child? length "object").bind (b.sourceOf? t) = some context.collection
  one : let name := (b.binding context.index).name
    Text.withoutBlanks (t.text increment) ∈ [name ++ "++", "++" ++ name, name ++ "+=1"]

/-- The index of an iteration is assigned to besides where it is counted, or its name is declared
again in the body, in the head of a loop. -/
def Overwrites (b : BindingTable) (t : Tree) (context : ZipContext) (increment : NodeId) : Prop :=
  (∃ u ∈ (b.binding context.index).usages, (∃ counted, t.Target counted u.node) ∧
      t.isWithin u.node increment = false) ∨
    ∃ j ≠ context.index, (b.binding j).name = (b.binding context.index).name ∧
      (b.binding j).scope = (b.binding context.index).scope ∧
      t.isWithin (b.binding j).nameNode context.body = true

variable {b : BindingTable} {t : Tree} {context : ZipContext} {length : NodeId}

/-- **The loop of an iteration.** -/
theorem exists_countsIn (hcontext : context ∈ b.zipContexts t)
    (hindexing : context.indexing = .loop length) :
    ∃ initializer increment, b.CountsIn t context length initializer increment ∧
      ∀ u ∈ (b.binding context.index).writes, t.isWithin u.node increment = true := by
  obtain ⟨i, -, hi⟩ := List.mem_filterMap.mp hcontext
  unfold zipContext? at hi
  split at hi
  · rename_i hkind
    unfold indexLoop? at hi
    obtain ⟨initializer, hinitializer, hi⟩ := Option.bind_eq_some_iff.mp hi
    obtain ⟨condition, hcondition, hi⟩ := Option.bind_eq_some_iff.mp hi
    obtain ⟨increment, hincrement, hi⟩ := Option.bind_eq_some_iff.mp hi
    obtain ⟨body, hbody, hi⟩ := Option.bind_eq_some_iff.mp hi
    obtain ⟨index, hindex, hi⟩ := Option.bind_eq_some_iff.mp hi
    obtain ⟨bound, hbound, hi⟩ := Option.bind_eq_some_iff.mp hi
    obtain ⟨collection, hcollection, hi⟩ := Option.bind_eq_some_iff.mp hi
    split at hi
    · rename_i hcounts
      obtain rfl := Option.some.inj hi
      obtain rfl := Indexing.loop.inj hindexing
      simp only [isIncrement, Bool.and_eq_true, List.contains_iff_mem, List.all_eq_true] at hcounts
      refine ⟨initializer, increment, ⟨⟨hkind, hinitializer, hincrement, hbody⟩, ?_,
        ⟨condition, hcondition, hbound, hcollection⟩, hcounts.1⟩, hcounts.2⟩
      unfold counter? at hindex
      split at hindex
      · rename_i declarator hdeclares hchildren
        split at hindex
        · rename_i name value hname hvalue
          split at hindex
          · rename_i hzero
            exact ⟨hdeclares, declarator, name, value, hchildren, hname, hvalue,
              by simpa using hzero, hindex⟩
          · cases hindex
        · cases hindex
      · cases hindex
    · cases hi
  · unfold indexedCallback? at hi
    obtain ⟨parts, -, hi⟩ := Option.bind_eq_some_iff.mp hi
    obtain ⟨receiver, -, hi⟩ := Option.bind_eq_some_iff.mp hi
    obtain ⟨function, -, hi⟩ := Option.bind_eq_some_iff.mp hi
    obtain ⟨collection, -, hi⟩ := Option.bind_eq_some_iff.mp hi
    obtain ⟨parameter, -, hi⟩ := Option.bind_eq_some_iff.mp hi
    obtain ⟨index, -, hi⟩ := Option.bind_eq_some_iff.mp hi
    obtain ⟨body, -, hi⟩ := Option.bind_eq_some_iff.mp hi
    split at hi
    · obtain rfl := Option.some.inj hi
      cases hindexing
    · cases hi
  · cases hi

/-- What the analysis does not see of the assignments to an index stands in parentheses or in a type
assertion. -/
theorem sheltered_of_overwrites (hn : t.InPreorder) (hb : b.Accounted t) {increment : NodeId}
    (hwrites : ∀ u ∈ (b.binding context.index).writes, t.isWithin u.node increment = true)
    {u : Usage} (hu : u ∈ (b.binding context.index).usages) {counted : Bool}
    (htarget : t.Target counted u.node) (houtside : t.isWithin u.node increment = false) :
    t.Sheltered u.node := by
  by_contra hopen
  obtain ⟨husage, -, -⟩ := hb.usage u hu
  have hwrite : u.isWrite = true := by
    rw [husage]
    exact (hn.isWrite_iff u.node).mpr ⟨⟨counted, htarget⟩, hopen⟩
  have hwithin := hwrites u (List.mem_filter.mpr ⟨hu, hwrite⟩)
  rw [houtside] at hwithin
  cases hwithin

/-- What stands in a construct that hands no value on is not sheltered. -/
theorem not_sheltered (hn : t.InPreorder) {i p : NodeId} (hp : t.parent? i = some p)
    (hopen : t.wrapped? p ≠ some i) (hpart : t.isPart i p = false) : ¬ t.Sheltered i := by
  intro h
  cases h with
  | inside hp' =>
    obtain rfl := Option.some.inj
      (hp.symm.trans (hn.parent_of_mem _ i (Tree.mem_children_of_wrapped? _ i hp')))
    exact hopen hp'
  | part hp' hpart' =>
    obtain rfl := Option.some.inj (hp.symm.trans hp')
    rw [hpart] at hpart'
    cases hpart'

/-- **Which accesses are evaluated in range.**  The loop of an iteration counts its index from zero
up to the length, and what else is assigned to the index stands in parentheses or in a type
assertion.  An element that is accessed at the index is accessed in range if and only if the index
is a constant, or nothing else assigns to it and, where the access is evaluated later, each turn has
an index of its own. -/
theorem accessed_in_range (l : Language) (source : Bytes) (root : Concrete) {context : ZipContext}
    {length : NodeId} :
    let t := Tree.ofConcrete l source root
    let b := ofTree t
    context ∈ b.zipContexts t → context.indexing = .loop length →
    ∃ initializer increment, b.CountsIn t context length initializer increment ∧
      (∀ u ∈ (b.binding context.index).usages, ∀ counted, t.Target counted u.node →
        t.isWithin u.node increment = true ∨ t.Sheltered u.node) ∧
      ∀ n target, (n, target) ∈ b.indexedAccesses t context →
        t.isWithin n context.body = true ∧ b.accessedAt? t context.index n = some target ∧
          (Counting.InRange (t.keeping initializer) (b.Overwrites t context increment)
              (t.isDeferred n context.body) ↔
            t.keeping initializer = .constant ∨ ¬ b.Overwrites t context increment ∧
              (t.isDeferred n context.body = true → t.keeping initializer = .perTurn)) := by
  intro t b hcontext hindexing
  have hn : t.InPreorder := Tree.inPreorder_ofConcrete l source root
  obtain ⟨initializer, increment, hcounts, hwrites⟩ := exists_countsIn hcontext hindexing
  refine ⟨initializer, increment, hcounts, ?_, ?_⟩
  · intro u hu counted htarget
    cases houtside : t.isWithin u.node increment with
    | true => exact .inl rfl
    | false =>
      exact .inr (sheltered_of_overwrites hn (accounted_ofTree t) hwrites hu htarget houtside)
  · intro n target haccess
    obtain ⟨m, hm, hmap⟩ := List.mem_filterMap.mp haccess
    obtain ⟨c, hc, heq⟩ := Option.map_eq_some_iff.mp hmap
    obtain ⟨rfl, rfl⟩ := Prod.mk.inj heq
    exact ⟨hn.isWithin_of_mem_subtree hm, hc, Counting.inRange_iff⟩

end BindingTable

/-! ### Two programs -/

namespace Sample

/-- A function that is made in each turn of a loop reads the element of that turn. -/
def capturing (keyword : String) : Bytes := Utf8.encode (
  "const src = get();\nconst a = src.map(s => s.x);\nconst b = src.map(s => s.y);\n" ++
  "for (" ++ keyword ++ " i = 0; i < a.length; i++) \x7b\n  f(() => b[i]);\n\x7d\n")

/-- The tree of `capturing`, with the declaration in the head of the loop. -/
def capturingTree (declaration : String) (keyword : Concrete) : Concrete :=
  construct "program" 0 133 [
    sourceDeclaration, viewDeclaration 19, viewDeclaration 48,
    construct "for_statement" 77 132 [
      token "for" 77, token "(" 81,
      construct declaration 82 92 [
        keyword,
        construct "variable_declarator" 86 91 [
          nameTree 86 (some "name"), token "=" 88, construct "number" 90 91 [] (some "value")],
        token ";" 91] (some "initializer"),
      construct "binary_expression" 93 105 [
        nameTree 93 (some "left"), token "<" 95 (some "operator"),
        construct "member_expression" 97 105 [
          nameTree 97 (some "object"), token "." 98,
          construct "property_identifier" 99 105 [] (some "property")] (some "right")]
        (some "condition"),
      token ";" 105,
      construct "update_expression" 107 110
        [nameTree 107 (some "argument"), token "++" 108 (some "operator")] (some "increment"),
      token ")" 110,
      construct "statement_block" 112 132 [
        token "\x7b" 112,
        statementTree (callTree (nameTree 116 (some "function")) [
          construct "arrow_function" 118 128 [
            construct "formal_parameters" 118 120 [token "(" 118, token ")" 119]
              (some "parameters"),
            token "=>" 121,
            construct "subscript_expression" 124 128 [
              nameTree 124 (some "object"), token "[" 125, nameTree 126 (some "index"),
              token "]" 127] (some "body")]]),
        token "\x7d" 131] (some "body")]]

/-- The iteration of the loop. -/
def capturingLoop : ZipContext := ⟨33, 1, 5, 45, .loop 40⟩

end Sample

/-- With `let`, the function reads an element in range whenever it is called. -/
theorem BindingTable.sample_accessed_in_range :
    let t := Tree.ofConcrete .javascript (Sample.capturing "let")
      (Sample.capturingTree "lexical_declaration" (Sample.token "let" 82 (some "kind")))
    let b := ofTree t
    Sample.capturingLoop ∈ b.zipContexts t ∧
      (52, 3) ∈ b.indexedAccesses t Sample.capturingLoop ∧ t.isDeferred 52 45 = true ∧
      Counting.InRange .perTurn (b.Overwrites t Sample.capturingLoop 43) true := by
  intro t b
  have hfacts : (b.zipContexts t = [Sample.capturingLoop] ∧
      b.indexedAccesses t Sample.capturingLoop = [(52, 3)] ∧
        t.isDeferred 52 Sample.capturingLoop.body = true) ∧
      (t.child? 33 "initializer" = some 34 ∧ t.child? 33 "increment" = some 43 ∧
        t.keeping 34 = .perTurn) ∧
      (∀ u ∈ (b.binding 5).usages, t.isWithin u.node 43 = true ∨
        (t.parent? u.node).any fun p => t.wrapped? p != some u.node && !t.isPart u.node p) ∧
      ∀ j < b.bindings.size, (b.binding j).name = (b.binding 5).name → j = 5 := by
    decide +kernel
  obtain ⟨⟨hcontexts, haccesses, hdeferred⟩, ⟨hinitializer, hincrement, hkeeping⟩, husages,
    hnames⟩ := hfacts
  have hn : t.InPreorder := Tree.inPreorder_ofConcrete ..
  have hcontext : Sample.capturingLoop ∈ b.zipContexts t := by
    rw [hcontexts]
    exact .head _
  have haccess : (52, 3) ∈ b.indexedAccesses t Sample.capturingLoop := by
    rw [haccesses]
    exact .head _
  obtain ⟨initializer, increment, hcounts, htargets, hall⟩ :=
    accessed_in_range .javascript _ _ hcontext rfl
  obtain ⟨-, hinitializer', hincrement', -⟩ := hcounts.parts
  obtain rfl := Option.some.inj (hinitializer.symm.trans hinitializer')
  obtain rfl := Option.some.inj (hincrement.symm.trans hincrement')
  refine ⟨hcontext, haccess, hdeferred, ?_⟩
  obtain ⟨-, -, hrange⟩ := hall 52 3 haccess
  rw [hkeeping, hdeferred] at hrange
  refine hrange.mpr (.inr ⟨?_, fun _ => rfl⟩)
  rintro (⟨u, hu, ⟨counted, htarget⟩, houtside⟩ | ⟨j, hj, hname, -⟩)
  · rcases husages u hu with hwithin | hopen
    · exact absurd (hwithin.symm.trans houtside) (by decide)
    · obtain ⟨p, hp, hopen⟩ := (Option.any_eq_true _ _).mp hopen
      simp only [Bool.and_eq_true, bne_iff_ne, Bool.not_eq_true'] at hopen
      rcases htargets u hu counted htarget with hwithin | hsheltered
      · exact absurd (hwithin.symm.trans houtside) (by decide)
      · exact not_sheltered hn hp hopen.1 hopen.2 hsheltered
  · rcases Nat.lt_or_ge j b.bindings.size with hsize | hsize
    · exact hj (hnames j hsize hname)
    · -- A number without binding has no name.
      have hempty : (b.binding j).name = "" := by
        rw [binding, Array.getD_eq_getD_getElem?, Array.getElem?_eq_none hsize]
        rfl
      have hindex : (b.binding 5).name = "i" := by decide +kernel
      exact absurd (hempty.symm.trans (hname.trans hindex)) (by decide)

/-- **The exception.**  With `var`, the function reads behind the end of the sequence if it is
called behind the loop.  The access is rewritten, so the field of a record is read there that is
missing. -/
theorem BindingTable.accessed_behind_loop :
    let t := Tree.ofConcrete .javascript (Sample.capturing "var")
      (Sample.capturingTree "variable_declaration" (Sample.token "var" 82))
    let b := ofTree t
    let g : Group := ⟨[1, 2], 0, .derivedViews, none, false⟩
    let p := MergePlan.ofGroup t b (Arena.ofTree b t) [] "" t.spelledNames g
    (Sample.capturingLoop ∈ b.zipContexts t ∧
      (52, 3) ∈ b.indexedAccesses t Sample.capturingLoop ∧ t.isDeferred 52 45 = true ∧
      t.keeping 34 = .shared) ∧
      ¬ Counting.InRange (t.keeping 34) (b.Overwrites t Sample.capturingLoop 43) true ∧
      ∃ r, p.rewrite = .ok r ∧ ⟨t.span 52, "srcRecords[i].bItem"⟩ ∈ r.edits := by
  intro t b g p
  have hfacts : (b.zipContexts t = [Sample.capturingLoop] ∧
      b.indexedAccesses t Sample.capturingLoop = [(52, 3)] ∧ t.isDeferred 52 45 = true ∧
      t.keeping 34 = .shared) ∧
      p.rewrite.toOption.map (fun r => r.edits.contains ⟨t.span 52, "srcRecords[i].bItem"⟩) =
        some true := by
    decide +kernel
  obtain ⟨⟨hcontexts, haccesses, hdeferred, hkeeping⟩, hrewrite⟩ := hfacts
  obtain ⟨r, hr, hedit⟩ := Attempt.exists_of_toOption_map hrewrite
  refine ⟨⟨?_, ?_, hdeferred, hkeeping⟩, ?_, r, hr, List.contains_iff_mem.mp hedit⟩
  · rw [hcontexts]
    exact .head _
  · rw [haccesses]
    exact .head _
  · rw [hkeeping]
    exact Counting.not_inRange_of_shared

end Declutter
