import Declutter.Collection.EarlyExit
import Declutter.Proofs.Rewrite.Exits

/-!
# How statements run

A statement runs some of its parts and then ends: normally, or by a jump.  A jump ends the
statements around it as well, up to the one to which it is addressed: a loop, a `switch`, the
statement behind a label, or the function.  Conditions may hold or not, a loop may take any number
of turns, and nothing is thrown.  What does not direct the flow of control runs as a whole and ends
normally, so a function is opaque where it is written.

A run leaves a trace: the statements in the order in which they were begun.

## Main definitions

* `Completion` — how a run ends.
* `Task` — what is run: a statement, a sequence of statements, or the turns of a loop.
* `Tree.Selects` — which of its parts a statement runs.
* `Tree.Runs` — the runs of a task, with their traces.

## Main results

* `Tree.Runs.exists_endedBy` — a run that does not end normally was ended by a jump.
* `Tree.Runs.staysWithin` — a trace stays within what is run.
* `Tree.Runs.count_eq_one` — a sequence that ends normally runs each of its statements once.
* `Tree.Runs.exists_turns` — a loop whose body always ends normally takes whole turns.
-/

namespace Declutter

/-! ### Completions -/

/-- How the run of a statement ends. -/
inductive Completion where
  | normal
  /-- By a `break`, perhaps with a label. -/
  | broken (label : Option String)
  /-- By a `continue`, perhaps with a label. -/
  | continued (label : Option String)
  | returned
  deriving DecidableEq, Repr

namespace Completion

variable {c : Completion} {label : String}

/-- How a loop or `switch` ends whose body ended so, if it takes no other turn. -/
def afterBreak : Completion → Completion
  | broken none => normal
  | c => c

/-- How a statement behind a label ends, the label included. -/
def atLabel (label : String) (c : Completion) : Completion :=
  if c = broken (some label) then normal else c

/-- Whether a loop behind some labels goes on after a turn that ended so. -/
def goesOn (labels : List String) : Completion → Bool
  | normal | continued none => true
  | continued (some label) => labels.contains label
  | _ => false

/-- Whether a jump is addressed to the innermost construct of some kinds, this one among them. -/
def isAbsorbedBy (k : Kind) : Completion → Bool
  | broken none => k.absorbsBreak
  | continued none => k.absorbsContinue
  | _ => false

theorem of_afterBreak (h : c.afterBreak ≠ normal) :
    c.afterBreak = c ∧ c ≠ normal ∧ c ≠ broken none := by
  cases c with
  | normal => exact absurd rfl h
  | broken label =>
    cases label with
    | none => exact absurd rfl h
    | some label => simp [afterBreak]
  | continued label => simp [afterBreak]
  | returned => simp [afterBreak]

theorem of_atLabel (h : c.atLabel label ≠ normal) : c.atLabel label = c ∧ c ≠ normal := by
  unfold atLabel at h ⊢
  split at h
  · exact absurd rfl h
  · rename_i hother
    rw [if_neg hother]
    exact ⟨rfl, h⟩

/-- A construct that is no loop and no body of a `switch` absorbs nothing. -/
theorem isAbsorbedBy_eq_false {k : Kind} (hloop : k.isLoop = false) (hswitch : k ≠ .switchBody) :
    c.isAbsorbedBy k = false := by
  unfold isAbsorbedBy
  split
  · simp [Kind.absorbsBreak, hloop, hswitch]
  · exact hloop
  · rfl

/-- What is no jump without a label is not absorbed. -/
theorem isAbsorbedBy_eq_false_of_ne {k : Kind} (hb : c ≠ broken none)
    (hc : c ≠ continued none ∨ k.isLoop = false) : c.isAbsorbedBy k = false := by
  unfold isAbsorbedBy
  split
  · exact absurd rfl hb
  · exact hc.resolve_left fun h => h rfl
  · rfl

end Completion

/-! ### Runs -/

/-- What is run. -/
inductive Task where
  /-- A statement behind some labels. -/
  | statement (labels : List String) (i : NodeId)
  /-- Statements one after the other. -/
  | sequence (l : List NodeId)
  /-- The turns that a loop behind some labels has still to take. -/
  | turns (labels : List String) (body : NodeId)

/-- The statements of which a task consists. -/
def Task.roots : Task → List NodeId
  | statement _ i => [i]
  | sequence l => l
  | turns _ body => [body]

namespace Tree

section

variable (t : Tree)

/-- How a jump ends: a `break` or a `continue`, with the label if there is one, or a `return`. -/
def jump? (i : NodeId) : Option Completion :=
  let label := (t.child? i "label").map t.text
  match t.kind i with
  | .breakStatement => some (.broken label)
  | .continueStatement => some (.continued label)
  | .returnStatement => some .returned
  | _ => none

/-- How a statement ends whose parts ended so: a body of a `switch` is left by a `break`. -/
def afterParts (i : NodeId) (c : Completion) : Completion :=
  if t.kind i = .switchBody then c.afterBreak else c

end

/-- The parts that a statement runs one after the other, where conditions may hold or not. -/
inductive Selects (t : Tree) (i : NodeId) : List NodeId → Prop
  | block (hkind : t.kind i = .block) : Selects t i (t.children i)
  | consequence {s : NodeId} (hkind : t.kind i = .ifStatement)
      (hs : t.child? i "consequence" = some s) : Selects t i [s]
  | alternative {s : NodeId} (hkind : t.kind i = .ifStatement)
      (hs : t.child? i "alternative" = some s) : Selects t i [s]
  | neither (hkind : t.kind i = .ifStatement) (hs : t.child? i "alternative" = none) :
      Selects t i []
  | otherwise (hkind : t.kind i = .elseClause) : Selects t i (t.children i)
  | switch {s : NodeId} (hkind : t.kind i = .switchStatement) (hs : t.child? i "body" = some s) :
      Selects t i [s]
  /-- From one of the cases on; from none if no case applies. -/
  | fromCase {l : List NodeId} (hkind : t.kind i = .switchBody) (hl : l <:+ t.children i) :
      Selects t i l
  | ofCase (hkind : t.kind i = .switchCase) :
      Selects t i ((t.children i).filter fun c => !t.hasField c "value")
  | attempt {s : NodeId} (hkind : t.kind i = .tryStatement) (hs : t.child? i "body" = some s)
      (hnone : t.child? i "finalizer" = none) : Selects t i [s]
  | finalizer {s : NodeId} (hkind : t.kind i = .finallyClause)
      (hs : t.child? i "body" = some s) : Selects t i [s]
  | scope {s : NodeId} (htype : t.type i = "with_statement") (hs : t.child? i "body" = some s) :
      Selects t i [s]

/-- The runs of a task, each with its trace and its end. -/
inductive Runs (t : Tree) : Task → List NodeId → Completion → Prop
  | done : Runs t (.sequence []) [] .normal
  | next {s : NodeId} {rest trace trace' : List NodeId} {c : Completion}
      (hs : Runs t (.statement [] s) trace .normal) (hrest : Runs t (.sequence rest) trace' c) :
      Runs t (.sequence (s :: rest)) (trace ++ trace') c
  | stop {s : NodeId} {rest trace : List NodeId} {c : Completion}
      (hs : Runs t (.statement [] s) trace c) (hc : c ≠ .normal) :
      Runs t (.sequence (s :: rest)) trace c
  | plain {labels : List String} {i : NodeId} (hplain : t.isControl i = false) :
      Runs t (.statement labels i) [i] .normal
  | jump {labels : List String} {i : NodeId} {c : Completion} (hjump : t.jump? i = some c) :
      Runs t (.statement labels i) [i] c
  | parts {labels : List String} {i : NodeId} {l trace : List NodeId} {c : Completion}
      (hl : t.Selects i l) (hrun : Runs t (.sequence l) trace c) :
      Runs t (.statement labels i) (i :: trace) (t.afterParts i c)
  | labelled {labels : List String} {i label s : NodeId} {trace : List NodeId} {c : Completion}
      (hkind : t.kind i = .labeledStatement) (hlabel : t.child? i "label" = some label)
      (hs : t.child? i "body" = some s)
      (hrun : Runs t (.statement (t.text label :: labels) s) trace c) :
      Runs t (.statement labels i) (i :: trace) (c.atLabel (t.text label))
  /-- The body of a `do` runs at least once. -/
  | loop {labels : List String} {i s : NodeId} {trace : List NodeId} {c : Completion}
      (hkind : (t.kind i).isLoop = true) (hs : t.child? i "body" = some s)
      (hrun : Runs t (.turns labels s) trace c) (honce : t.kind i = .doStatement → trace ≠ []) :
      Runs t (.statement labels i) (i :: trace) c
  /-- What a `finally` does counts, if it does not end normally. -/
  | finish {labels : List String} {i s f : NodeId} {trace trace' : List NodeId}
      {c c' : Completion} (hkind : t.kind i = .tryStatement) (hs : t.child? i "body" = some s)
      (hf : t.child? i "finalizer" = some f) (hrun : Runs t (.statement [] s) trace c)
      (hlast : Runs t (.statement [] f) trace' c') :
      Runs t (.statement labels i) (i :: (trace ++ trace')) (if c' = .normal then c else c')
  | finished {labels : List String} {s : NodeId} : Runs t (.turns labels s) [] .normal
  | again {labels : List String} {s : NodeId} {trace trace' : List NodeId} {c c' : Completion}
      (hturn : Runs t (.statement [] s) trace c) (hgo : c.goesOn labels = true)
      (hrest : Runs t (.turns labels s) trace' c') :
      Runs t (.turns labels s) (trace ++ trace') c'
  | last {labels : List String} {s : NodeId} {trace : List NodeId} {c : Completion}
      (hturn : Runs t (.statement [] s) trace c) (hstop : c.goesOn labels = false) :
      Runs t (.turns labels s) trace c.afterBreak

variable {t : Tree} {i j s : NodeId} {l trace : List NodeId} {c : Completion} {task : Task}
  {labels : List String}

/-! ### The jump that ends a run -/

/-- A jump within a statement, outside its functions, that no construct on the way up to the
statement absorbs, the statement included. -/
structure EndedBy (t : Tree) (c : Completion) (i j : NodeId) : Prop where
  visited : j ∈ t.visited (t.kind · == .function) i
  jump : t.jump? j = some c
  passes : ∀ a ∈ t.pathUp j i, c.isAbsorbedBy (t.kind a) = false

theorem kind_of_jump? (h : t.jump? i = some c) :
    t.kind i = .breakStatement ∨ t.kind i = .continueStatement ∨ t.kind i = .returnStatement := by
  unfold jump? at h
  dsimp only at h
  split at h
  · exact .inl ‹_›
  · exact .inr (.inl ‹_›)
  · exact .inr (.inr ‹_›)
  · cases h

/-- A jump ends a statement around the one that it ends first, if that does not absorb it. -/
theorem EndedBy.outer (hn : t.InPreorder) (h : t.EndedBy c s j) (hs : s ∈ t.children i)
    (hopen : t.kind i ≠ .function) (hpass : c.isAbsorbedBy (t.kind i) = false) :
    t.EndedBy c i j := by
  have hsize := hn.lt_size_of_mem hs
  obtain ⟨hle, hlt, -⟩ := (hn.mem_visited_iff hsize).mp h.visited
  have hj : j < t.nodes.size := Nat.lt_of_lt_of_le hlt (hn.stop_le s hsize)
  refine ⟨hn.visited_subset (by simpa using hopen) hs h.visited, h.jump, ?_⟩
  intro a ha
  rw [hn.pathUp_of_mem hj hs ((hn.mem_chain_iff hj).mpr ⟨hle, hlt⟩)] at ha
  rcases List.mem_append.mp ha with ha | ha
  · exact h.passes a ha
  · rw [List.mem_singleton.mp ha]
    exact hpass

theorem child_subset {field : String} (h : t.child? i field = some s) : [s] ⊆ t.children i := by
  intro s' hs'
  rw [List.mem_singleton.mp hs']
  exact (mem_of_child? h).1

/-- The parts that a statement runs are children of it. -/
theorem Selects.subset (h : t.Selects i l) : l ⊆ t.children i := by
  cases h with
  | block | otherwise => exact List.Subset.refl _
  | neither => exact List.nil_subset _
  | fromCase hkind hl => exact hl.subset
  | ofCase => exact List.filter_sublist.subset
  | consequence _ h | alternative _ h | switch _ h | attempt _ h | finalizer _ h | scope _ h =>
    exact child_subset h

/-- The statement `with` has no kind of its own. -/
theorem InPreorder.kind_of_with (hn : t.InPreorder) (h : t.type i = "with_statement")
    (hs : s ∈ t.children i) : t.kind i = .other := by
  rw [hn.kind_eq i (lt_size_of_mem_children hs), h]
  decide

/-- What runs its parts one after the other is no function and no loop. -/
theorem Selects.kind_cases (hn : t.InPreorder) (h : t.Selects i l) :
    t.kind i ≠ .function ∧ (t.kind i).isLoop = false := by
  cases h with
  | scope htype hs =>
    rw [hn.kind_of_with htype (mem_of_child? hs).1]
    decide
  | block hkind | consequence hkind | alternative hkind | neither hkind | otherwise hkind
  | switch hkind | fromCase hkind | ofCase hkind | attempt hkind | finalizer hkind =>
    rw [hkind]
    decide

/-- What runs its parts one after the other directs the flow of control. -/
theorem Selects.isControl (h : t.Selects i l) : t.isControl i = true := by
  cases h with
  | scope htype => simp [Tree.isControl, htype]
  | block hkind | consequence hkind | alternative hkind | neither hkind | otherwise hkind
  | switch hkind | fromCase hkind | ofCase hkind | attempt hkind | finalizer hkind =>
    simp [Tree.isControl, hkind, Kind.isControl]

/-- The turns of a loop do not end by a jump that is addressed to the loop. -/
theorem Runs.of_turns (h : t.Runs (.turns labels s) trace c) :
    c ≠ .broken none ∧ c ≠ .continued none := by
  generalize htask : Task.turns labels s = task at h
  induction h with
  | finished => simp
  | again _ _ _ _ ih => exact ih htask
  | @last labels' s' trace c hturn hstop =>
    cases c with
    | normal => simp [Completion.goesOn] at hstop
    | broken label => cases label <;> simp [Completion.afterBreak]
    | continued label =>
      cases label with
      | none => simp [Completion.goesOn] at hstop
      | some label => simp [Completion.afterBreak]
    | returned => simp [Completion.afterBreak]
  | _ => cases htask

/-- A jump that ends a part of a statement ends the statement, if that does not absorb it. -/
theorem exists_endedBy_outer (hn : t.InPreorder) (hl : l ⊆ t.children i)
    (hopen : t.kind i ≠ .function) (hpass : c.isAbsorbedBy (t.kind i) = false)
    (h : ∃ s ∈ l, ∃ j, t.EndedBy c s j) : ∃ s ∈ [i], ∃ j, t.EndedBy c s j := by
  obtain ⟨s, hs, j, hj⟩ := h
  exact ⟨i, .head _, j, hj.outer hn (hl hs) hopen hpass⟩

/-- How the parts of a statement ended, if the statement does not end normally. -/
theorem Selects.of_afterParts (hn : t.InPreorder) (hl : t.Selects i l)
    (hc : t.afterParts i c ≠ .normal) :
    t.afterParts i c = c ∧ c ≠ .normal ∧ c.isAbsorbedBy (t.kind i) = false := by
  have hloop := (hl.kind_cases hn).2
  unfold afterParts at hc ⊢
  split at hc
  · rename_i hswitch
    obtain ⟨heq, hne, hb⟩ := Completion.of_afterBreak hc
    rw [if_pos hswitch]
    exact ⟨heq, hne, Completion.isAbsorbedBy_eq_false_of_ne hb (.inr hloop)⟩
  · rename_i hswitch
    rw [if_neg hswitch]
    exact ⟨rfl, hc, Completion.isAbsorbedBy_eq_false hloop hswitch⟩

/-- A jump ends itself. -/
theorem endedBy_of_jump? (hn : t.InPreorder) (hjump : t.jump? i = some c) : t.EndedBy c i i := by
  have hkind := kind_of_jump? hjump
  have hi : i < t.nodes.size := lt_size_of_kind (by rcases hkind with h | h | h <;> simp [h])
  refine ⟨hn.self_mem_visited hi, hjump, ?_⟩
  intro a ha
  rw [pathUp_self, List.mem_singleton] at ha
  rw [ha]
  refine Completion.isAbsorbedBy_eq_false ?_ ?_
  · rcases hkind with h | h | h <;> simp [h, Kind.isLoop]
  · rcases hkind with h | h | h <;> simp [h]

/-- **A run that does not end normally** was ended by a jump that nothing on the way absorbs. -/
theorem Runs.exists_endedBy (hn : t.InPreorder) (h : t.Runs task trace c) (hc : c ≠ .normal) :
    ∃ i ∈ task.roots, ∃ j, t.EndedBy c i j := by
  induction h with
  | done | plain | finished => exact absurd rfl hc
  | next _ _ _ ih =>
    obtain ⟨i, hi, hj⟩ := ih hc
    exact ⟨i, .tail _ hi, hj⟩
  | stop _ _ ih =>
    obtain ⟨i, hi, hj⟩ := ih hc
    rw [List.mem_singleton.mp hi] at hj
    exact ⟨_, .head _, hj⟩
  | jump hjump => exact ⟨_, .head _, _, endedBy_of_jump? hn hjump⟩
  | parts hl _ ih =>
    obtain ⟨heq, hne, hpass⟩ := hl.of_afterParts hn hc
    rw [heq]
    exact exists_endedBy_outer hn hl.subset (hl.kind_cases hn).1 hpass (ih hne)
  | labelled hkind _ hs _ ih =>
    obtain ⟨heq, hne⟩ := Completion.of_atLabel hc
    rw [heq]
    refine exists_endedBy_outer hn (child_subset hs) (by simp [hkind]) ?_ (ih hne)
    exact Completion.isAbsorbedBy_eq_false (by simp [hkind, Kind.isLoop]) (by simp [hkind])
  | @loop _ i _ _ _ hkind hs hrun _ ih =>
    have hopen : t.kind i ≠ .function := by
      intro hfunction
      rw [hfunction] at hkind
      cases hkind
    obtain ⟨hb, hcontinue⟩ := hrun.of_turns
    exact exists_endedBy_outer hn (child_subset hs) hopen
      (Completion.isAbsorbedBy_eq_false_of_ne hb (.inl hcontinue)) (ih hc)
  | @finish _ i _ _ _ _ c c' hkind hs hf _ _ ih ih' =>
    have hopen : t.kind i ≠ .function := by simp [hkind]
    have hpass : ∀ c : Completion, c.isAbsorbedBy (t.kind i) = false := fun c =>
      Completion.isAbsorbedBy_eq_false (by simp [hkind, Kind.isLoop]) (by simp [hkind])
    split at hc
    · rename_i hnormal
      rw [if_pos hnormal]
      exact exists_endedBy_outer hn (child_subset hs) hopen (hpass c) (ih hc)
    · rename_i habrupt
      rw [if_neg habrupt]
      exact exists_endedBy_outer hn (child_subset hf) hopen (hpass c') (ih' hc)
  | again _ _ _ _ ih => exact ih hc
  | last _ _ ih =>
    obtain ⟨heq, hne, -⟩ := Completion.of_afterBreak hc
    rw [heq]
    exact ih hne

/-! ### Traces -/

/-- What lies within a node of the table is a node of the table. -/
theorem lt_size_of_isWithin (hs : s < t.nodes.size)
    (h : t.isWithin j s = true) : j < t.nodes.size := by
  by_contra hj
  have hp : t.parent? j = none := by
    cases hp : t.parent? j with
    | none => rfl
    | some p => exact absurd (lt_size_of_parent hp) hj
  rw [isWithin, List.contains_iff_mem, chain_of_root hp, List.mem_singleton] at h
  exact hj (h ▸ hs)

/-- What lies within a child lies properly within its parent. -/
theorem InPreorder.isWithin_of_child (hn : t.InPreorder) (hs : s ∈ t.children i)
    (h : t.isWithin j s = true) : i < j ∧ t.isWithin j i = true := by
  have hj := lt_size_of_isWithin (hn.lt_size_of_mem hs) h
  have hb := hn.child_bounds hs
  have hle := ((hn.isWithin_iff hj).mp h).1
  exact ⟨Nat.lt_of_lt_of_le hb.1 hle, hn.isWithin_trans hj h (hn.isWithin_of_mem_children hs)⟩

/-- Children do not overlap. -/
theorem InPreorder.eq_of_isWithin (hn : t.InPreorder) {s' : NodeId} (hs : s ∈ t.children i)
    (hs' : s' ∈ t.children i) (h : t.isWithin j s = true) (h' : t.isWithin j s' = true) :
    s = s' := by
  have hj := lt_size_of_isWithin (hn.lt_size_of_mem hs) h
  rw [hn.isWithin_iff hj] at h h'
  rcases hn.lt_or_lt hs hs' with heq | hlt | hlt
  · exact heq
  · omega
  · omega

/-- Every node of a trace lies within one of some others. -/
def StaysWithin (t : Tree) (roots trace : List NodeId) : Prop :=
  ∀ n ∈ trace, ∃ i ∈ roots, t.isWithin n i = true

theorem StaysWithin.mono {roots roots' : List NodeId} (h : t.StaysWithin roots trace)
    (hsub : roots ⊆ roots') : t.StaysWithin roots' trace := by
  intro n hn
  obtain ⟨i, hi, hwithin⟩ := h n hn
  exact ⟨i, hsub hi, hwithin⟩

theorem StaysWithin.append {trace' : List NodeId} (h : t.StaysWithin l trace)
    (h' : t.StaysWithin l trace') : t.StaysWithin l (trace ++ trace') := by
  intro n hn
  rcases List.mem_append.mp hn with hn | hn
  · exact h n hn
  · exact h' n hn

/-- What stays within the parts of a statement comes behind the statement and stays within it. -/
theorem StaysWithin.under (hn : t.InPreorder) (hl : l ⊆ t.children i)
    (h : t.StaysWithin l trace) : t.StaysWithin [i] (i :: trace) ∧ ∀ n ∈ trace, i < n := by
  have hbelow : ∀ n ∈ trace, i < n ∧ t.isWithin n i = true := by
    intro n hmem
    obtain ⟨s, hs, hwithin⟩ := h n hmem
    exact hn.isWithin_of_child (hl hs) hwithin
  refine ⟨fun n hmem => ⟨i, .head _, ?_⟩, fun n hmem => (hbelow n hmem).1⟩
  rcases List.mem_cons.mp hmem with rfl | hmem
  · exact isWithin_self t n
  · exact (hbelow n hmem).2

/-- What stays within two parts of a statement stays within the parts of it. -/
theorem StaysWithin.append_parts {p q : NodeId} {trace' : List NodeId}
    (h : t.StaysWithin [p] trace) (h' : t.StaysWithin [q] trace') :
    t.StaysWithin [p, q] (trace ++ trace') :=
  (h.mono (by simp)).append (h'.mono (by simp))

/-- **A trace stays within what is run.** -/
theorem Runs.staysWithin (hn : t.InPreorder) (h : t.Runs task trace c) :
    t.StaysWithin task.roots trace := by
  induction h with
  | done | finished =>
    intro n hmem
    cases hmem
  | next _ _ ih ih' =>
    exact (ih.mono (by simp [Task.roots])).append (ih'.mono (by simp [Task.roots]))
  | stop _ _ ih => exact ih.mono (by simp [Task.roots])
  | @plain _ i _ | @jump _ i _ _ =>
    intro n hmem
    rw [List.mem_singleton.mp hmem]
    exact ⟨i, .head _, isWithin_self t i⟩
  | parts hl _ ih => exact (ih.under hn hl.subset).1
  | labelled _ _ hs _ ih | loop _ hs _ _ ih => exact (ih.under hn (child_subset hs)).1
  | finish _ hs hf _ _ ih ih' =>
    have hparts := List.cons_subset.mpr ⟨(mem_of_child? hs).1, child_subset hf⟩
    exact ((ih.append_parts ih').under hn hparts).1
  | again _ _ _ ih ih' => exact ih.append ih'
  | last _ _ ih => exact ih

/-- The trace of a statement begins with it, and the rest lies below it. -/
theorem Runs.of_statement (hn : t.InPreorder) (h : t.Runs (.statement labels i) trace c) :
    ∃ below, trace = i :: below ∧ ∀ n ∈ below, i < n := by
  cases h with
  | plain | jump => exact ⟨[], rfl, fun n hmem => nomatch hmem⟩
  | parts hl hrun => exact ⟨_, rfl, ((hrun.staysWithin hn).under hn hl.subset).2⟩
  | labelled _ _ hs hrun | loop _ hs hrun =>
    exact ⟨_, rfl, ((hrun.staysWithin hn).under hn (child_subset hs)).2⟩
  | finish _ hs hf hrun hlast =>
    have hparts := List.cons_subset.mpr ⟨(mem_of_child? hs).1, child_subset hf⟩
    have hwithin := (hrun.staysWithin hn).append_parts (hlast.staysWithin hn)
    exact ⟨_, rfl, (hwithin.under hn hparts).2⟩

/-- A sequence that ends normally runs its first statements and then the others. -/
theorem Runs.of_append {l' : List NodeId} (h : t.Runs (.sequence (l ++ l')) trace .normal) :
    ∃ first second, trace = first ++ second ∧ t.Runs (.sequence l) first .normal ∧
      t.Runs (.sequence l') second .normal := by
  induction l generalizing trace with
  | nil => exact ⟨[], trace, rfl, .done, h⟩
  | cons s rest ih =>
    cases h with
    | stop _ hc => exact absurd rfl hc
    | next hrun hruns =>
      obtain ⟨first, second, rfl, hfirst, hsecond⟩ := ih hruns
      exact ⟨_, second, (List.append_assoc ..).symm, .next hrun hfirst, hsecond⟩

/-- **A sequence that ends normally** runs each of its statements once. -/
theorem Runs.count_eq_one (hn : t.InPreorder) (h : t.Runs (.sequence l) trace .normal)
    (hsub : l ⊆ t.children i) (hnodup : l.Nodup) : ∀ s ∈ l, trace.count s = 1 := by
  induction l generalizing trace with
  | nil =>
    intro s hs
    cases hs
  | cons first rest ih =>
    obtain ⟨hfirst, hrest⟩ := List.nodup_cons.mp hnodup
    intro s hs
    cases h with
    | stop _ hc => exact absurd rfl hc
    | @next _ _ trace trace' _ hrun hruns =>
      have hself : t.isWithin s s = true := isWithin_self t s
      rw [List.count_append]
      rcases List.mem_cons.mp hs with rfl | hs
      · -- The statement itself is begun first, and nothing else in the traces is it.
        obtain ⟨below, rfl, hbelow⟩ := hrun.of_statement hn
        have hnot : s ∉ below := fun hmem => Nat.lt_irrefl s (hbelow s hmem)
        have hlater : s ∉ trace' := by
          intro hmem
          obtain ⟨s', hs', hwithin⟩ := hruns.staysWithin hn s hmem
          have heq := hn.eq_of_isWithin (hsub (.head _)) (hsub (.tail _ hs')) hself hwithin
          exact hfirst (heq ▸ hs')
        rw [List.count_cons_self, List.count_eq_zero.mpr hnot, List.count_eq_zero.mpr hlater]
      · have hearlier : s ∉ trace := by
          intro hmem
          obtain ⟨s', hs', hwithin⟩ := hrun.staysWithin hn s hmem
          rw [List.mem_singleton.mp hs'] at hwithin
          have heq := hn.eq_of_isWithin (hsub (.tail _ hs)) (hsub (.head _)) hself hwithin
          exact hfirst (heq ▸ hs)
        have hsubRest : rest ⊆ t.children i := fun s hs => hsub (.tail _ hs)
        rw [List.count_eq_zero.mpr hearlier, ih hruns hsubRest hrest s hs]

/-! ### Plain statements, blocks and loops -/

theorem isControl_of_isLoop (h : (t.kind i).isLoop = true) : t.isControl i = true := by
  unfold isControl
  revert h
  cases t.kind i <;> simp [Kind.isLoop, Kind.isControl]

/-- What does not direct the flow of control runs as a whole. -/
theorem Runs.of_plain (hplain : t.isControl i = false)
    (h : t.Runs (.statement labels i) trace c) : trace = [i] ∧ c = .normal := by
  have hkind : ∀ k : Kind, k.isControl = true → t.kind i ≠ k := by
    rintro k hk rfl
    simp [isControl, hk] at hplain
  cases h with
  | plain => exact ⟨rfl, rfl⟩
  | jump hjump =>
    rcases kind_of_jump? hjump with h | h | h <;> exact absurd h (hkind _ rfl)
  | parts hl =>
    rw [hl.isControl] at hplain
    cases hplain
  | labelled h | finish h => exact absurd h (hkind _ rfl)
  | loop h =>
    rw [isControl_of_isLoop h] at hplain
    cases hplain

/-- What the statements of a block do one after the other, the block does. -/
theorem Runs.block (hkind : t.kind i = .block) (hparts : t.children i = l)
    (h : t.Runs (.sequence l) trace c) : t.Runs (.statement labels i) (i :: trace) c := by
  have hselects : t.Selects i l := hparts ▸ .block hkind
  have hends : t.afterParts i c = c := if_neg (by simp [hkind])
  rw [← hends]
  exact .parts hselects h

/-- A block runs its statements one after the other. -/
theorem Runs.of_block (hn : t.InPreorder) (hkind : t.kind i = .block)
    (h : t.Runs (.statement labels i) trace c) :
    ∃ rest, trace = i :: rest ∧ t.Runs (.sequence (t.children i)) rest c := by
  cases h with
  | plain hplain => simp [isControl, hkind, Kind.isControl] at hplain
  | jump hjump =>
    have := kind_of_jump? hjump
    simp [hkind] at this
  | @parts _ _ _ trace c hl hrun =>
    have hends : t.afterParts i c = c := if_neg (by simp [hkind])
    rw [hends]
    cases hl with
    | block => exact ⟨trace, rfl, hrun⟩
    | scope htype hs =>
      rw [hn.kind_of_with htype (mem_of_child? hs).1] at hkind
      cases hkind
    | consequence h | alternative h | neither h | otherwise h | switch h | fromCase h | ofCase h
    | attempt h | finalizer h =>
      rw [hkind] at h
      cases h
  | labelled h | finish h =>
    rw [hkind] at h
    cases h
  | loop h =>
    rw [hkind] at h
    cases h

/-- A loop runs its turns. -/
theorem Runs.of_loop (hn : t.InPreorder) (hkind : (t.kind i).isLoop = true)
    (hbody : t.child? i "body" = some s) (h : t.Runs (.statement labels i) trace c) :
    ∃ rest, trace = i :: rest ∧ t.Runs (.turns labels s) rest c := by
  cases h with
  | plain hplain =>
    rw [isControl_of_isLoop hkind] at hplain
    cases hplain
  | jump hjump =>
    rcases kind_of_jump? hjump with h | h | h
    all_goals
      rw [h] at hkind
      cases hkind
  | parts hl hrun =>
    rw [(hl.kind_cases hn).2] at hkind
    cases hkind
  | labelled h | finish h =>
    rw [h] at hkind
    cases hkind
  | loop _ hs hrun =>
    obtain rfl := Option.some.inj (hbody.symm.trans hs)
    exact ⟨_, rfl, hrun⟩

/-- **A loop whose body always ends normally** takes whole turns. -/
theorem Runs.exists_turns (h : t.Runs (.turns labels s) trace c)
    (hbody : ∀ turn c, t.Runs (.statement [] s) turn c → c = .normal) :
    c = .normal ∧ ∃ turns : List (List NodeId), trace = turns.flatten ∧
      ∀ turn ∈ turns, t.Runs (.statement [] s) turn .normal := by
  generalize htask : Task.turns labels s = task at h
  induction h with
  | finished => exact ⟨rfl, [], rfl, fun turn hmem => nomatch hmem⟩
  | @again _ s' trace _ c _ hturn _ _ _ ih =>
    obtain ⟨rfl, rfl⟩ := Task.turns.inj htask
    obtain ⟨hnormal, turns, rfl, hturns⟩ := ih rfl
    refine ⟨hnormal, trace :: turns, rfl, ?_⟩
    intro turn hmem
    rcases List.mem_cons.mp hmem with rfl | hmem
    · rw [← hbody _ _ hturn]
      exact hturn
    · exact hturns turn hmem
  | last hturn hstop =>
    obtain ⟨rfl, rfl⟩ := Task.turns.inj htask
    rw [hbody _ _ hturn] at hstop
    cases hstop
  | _ => cases htask

end Tree

end Declutter
