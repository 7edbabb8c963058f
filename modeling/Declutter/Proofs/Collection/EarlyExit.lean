import Declutter.Proofs.Collection.Filling
import Declutter.Proofs.Syntax.Execution

/-!
# Bodies without early exit

The scan for early exits decides by the kinds of what stands between a jump and the body.  It is
sound for the runs of the body: where it finds nothing, the body always ends normally, and each
statement that stands directly in it is begun once in every turn.

The scan looks at what stands below a body, so it never finds a body that is a jump itself, as in
`for (;;) break;`.  The analysis asks it about blocks only.

## Main definitions

* `Tree.statementsIn` — the statements that stand directly in a body.

## Main results

* `Tree.EndedBy.isExitFrom` — the jump that ends a run is one that the scan finds.
* `Tree.every_statement_once` — the scan is sound.
* `Tree.bare_jump_overlooked` — bodies that are jumps.
-/

namespace Declutter

namespace Tree

/-- The statements that stand directly in a body: those of a block, or the body alone. -/
def statementsIn (t : Tree) (body : NodeId) : List NodeId :=
  if t.kind body = .block then t.children body else [body]

variable {t : Tree} {body i j s : NodeId} {trace : List NodeId} {c : Completion}
  {labels : List String}

/-! ### What the scan finds -/

/-- What stands between a node and a body is on the way up from the node. -/
theorem InPreorder.mem_pathUp_of_mem_takeWhile (hn : t.InPreorder) (hj : j < t.nodes.size)
    (hbody : body ∈ t.chain j) {a : NodeId}
    (ha : a ∈ (t.chain j).takeWhile (· != body)) : a ∈ t.pathUp j body := by
  obtain ⟨hchain, way, hway⟩ := hn.chain_eq_append hj hbody
  rw [hway] at hchain ⊢
  rw [hchain, List.append_assoc, List.takeWhile_append] at ha
  split at ha
  · simp at ha
    exact List.mem_append_left _ ha
  · exact List.mem_append_left _ ((List.takeWhile_sublist _).subset ha)

/-- A jump that passes over the constructs between it and a body is not enclosed by one of them. -/
theorem InPreorder.isEnclosedWithin_eq_false (hn : t.InPreorder) (hj : j < t.nodes.size)
    (hbody : body ∈ t.chain j) (hne : j ≠ body) {p : Kind → Bool}
    (hpass : ∀ a ∈ t.pathUp j body, p (t.kind a) = false) :
    t.isEnclosedWithin j body p = false := by
  refine List.any_eq_false.mpr ?_
  intro a ha
  have hchain : a ∈ (t.chain j).takeWhile (· != body) := by
    rw [chain, List.takeWhile_cons_of_pos (by simpa using hne)]
    exact .tail _ ha
  rw [hpass a (hn.mem_pathUp_of_mem_takeWhile hj hbody hchain)]
  decide

/-- What has a label has a child. -/
theorem isEmpty_children_of_label {label : NodeId} (h : t.child? j "label" = some label) :
    (t.children j).isEmpty = false := by
  have hmem := (mem_of_child? h).1
  cases hchildren : t.children j with
  | nil =>
    rw [hchildren] at hmem
    cases hmem
  | cons => rfl

/-- **The jump that ends a run of a body** is an exit from the body, unless it is the body. -/
theorem EndedBy.isExitFrom (hn : t.InPreorder) (hsize : body < t.nodes.size)
    (h : t.EndedBy c body j) (hne : j ≠ body) : t.isExitFrom body j = true := by
  obtain ⟨hle, hlt, -⟩ := (hn.mem_visited_iff hsize).mp h.visited
  have hj : j < t.nodes.size := Nat.lt_of_lt_of_le hlt (hn.stop_le body hsize)
  have hbody : body ∈ t.chain j := (hn.mem_chain_iff hj).mpr ⟨hle, hlt⟩
  have hjump := h.jump
  have hpasses := h.passes
  unfold jump? at hjump
  unfold Tree.isExitFrom
  dsimp only at hjump
  split at hjump
  · rename_i hkind
    rw [hkind]
    cases hlabel : t.child? j "label" with
    | some label => simp [isEmpty_children_of_label hlabel]
    | none =>
      rw [hlabel] at hjump
      obtain rfl := Option.some.inj hjump
      simp [hn.isEnclosedWithin_eq_false hj hbody hne (p := Kind.absorbsBreak) hpasses]
  · rename_i hkind
    rw [hkind]
    cases hlabel : t.child? j "label" with
    | some label => simp [isEmpty_children_of_label hlabel]
    | none =>
      rw [hlabel] at hjump
      obtain rfl := Option.some.inj hjump
      simp [hn.isEnclosedWithin_eq_false hj hbody hne (p := Kind.absorbsContinue) hpasses]
  · rename_i hkind
    rw [hkind]
  · cases hjump

/-- A body that is no jump and in which the scan finds nothing always ends normally. -/
theorem Runs.eq_normal (hn : t.InPreorder) (hjump : t.jump? body = none)
    (hscan : t.hasEarlyExit body = false) (h : t.Runs (.statement labels body) trace c) :
    c = .normal := by
  by_contra hc
  obtain ⟨i, hi, j, hended⟩ := h.exists_endedBy hn hc
  obtain rfl := List.mem_singleton.mp hi
  have hne : j ≠ i := by
    rintro rfl
    rw [hended.jump] at hjump
    cases hjump
  have hsize : i < t.nodes.size := by
    by_contra hi
    have hvisited := hended.visited
    rw [visited, node_of_size_le (Nat.le_of_not_lt hi), visitedFrom] at hvisited
    cases hvisited
  obtain ⟨s, hs, hvisited⟩ := hn.exists_child_of_visited hsize hended.visited hne
  have hbelow := List.any_eq_false.mp hscan s hs
  exact hbelow (List.any_eq_true.mpr ⟨j, hvisited, hended.isExitFrom hn hsize hne⟩)

/-- Each statement that stands directly in a body is begun once in a run that ends normally. -/
theorem Runs.count_statementsIn (hn : t.InPreorder)
    (h : t.Runs (.statement labels body) trace .normal) :
    ∀ s ∈ t.statementsIn body, trace.count s = 1 := by
  intro s hs
  unfold statementsIn at hs
  split at hs
  · rename_i hblock
    obtain ⟨rest, rfl, hrun⟩ := h.of_block hn hblock
    have hne : body ≠ s := Nat.ne_of_lt (hn.child_bounds hs).1
    rw [List.count_cons_of_ne hne]
    exact hrun.count_eq_one hn (List.Subset.refl _) (hn.nodup_children body) s hs
  · obtain rfl := List.mem_singleton.mp hs
    obtain ⟨below, rfl, hbelow⟩ := h.of_statement hn
    have hnot : s ∉ below := fun hmem => Nat.lt_irrefl s (hbelow s hmem)
    rw [List.count_cons_self, List.count_eq_zero.mpr hnot]

/-- **The scan for early exits is sound.**  If it finds nothing in a body that is no jump itself,
every run of the body ends normally and begins each of its statements once; and a loop with this
body takes whole turns only, in each of which this holds.  So it does for the bodies in which the
analysis takes a statement to run once for each element of a collection. -/
theorem every_statement_once (l : Language) (source : Bytes) (root : Concrete) :
    let t := Tree.ofConcrete l source root
    (∀ body, t.jump? body = none → t.hasEarlyExit body = false →
      (∀ labels trace c, t.Runs (.statement labels body) trace c →
        c = .normal ∧ ∀ s ∈ t.statementsIn body, trace.count s = 1) ∧
      ∀ loop, (t.kind loop).isLoop = true → t.child? loop "body" = some body →
        ∀ labels trace c, t.Runs (.statement labels loop) trace c →
          c = .normal ∧ ∃ turns : List (List NodeId), trace = loop :: turns.flatten ∧
            ∀ turn ∈ turns, t.Runs (.statement [] body) turn .normal ∧
              ∀ s ∈ t.statementsIn body, turn.count s = 1) ∧
    ∀ (b : BindingTable) (s : NodeId), (b.enclosingIteration? t s).isSome = true →
      ∃ body, t.parent? s = some body ∧ t.hasEarlyExit body = false ∧
        ∀ labels trace c, t.Runs (.statement labels body) trace c →
          c = .normal ∧ trace.count s = 1 := by
  intro t
  have hn : t.InPreorder := Tree.inPreorder_ofConcrete l source root
  refine ⟨fun body hjump hscan => ⟨?_, ?_⟩, ?_⟩
  · intro labels trace c hrun
    obtain rfl := hrun.eq_normal hn hjump hscan
    exact ⟨rfl, hrun.count_statementsIn hn⟩
  · intro loop hloop hbody labels trace c hrun
    obtain ⟨rest, rfl, hturns⟩ := hrun.of_loop hn hloop hbody
    obtain ⟨hnormal, turns, rfl, hall⟩ :=
      hturns.exists_turns fun turn c hturn => hturn.eq_normal hn hjump hscan
    refine ⟨hnormal, turns, rfl, ?_⟩
    intro turn hmem
    exact ⟨hall turn hmem, (hall turn hmem).count_statementsIn hn⟩
  · intro b s hs
    obtain ⟨⟨loop, source⟩, hloop⟩ := Option.isSome_iff_exists.mp hs
    obtain ⟨body, owner, hbody, -, hblock, -, hscan, -⟩ :=
      BindingTable.block_of_enclosingIteration hloop
    have hjump : t.jump? body = none := by simp [jump?, hblock]
    have hdirect : s ∈ t.statementsIn body := by
      rw [statementsIn, if_pos hblock]
      exact hn.mem_children_iff.mpr hbody
    refine ⟨body, hbody, hscan, ?_⟩
    intro labels trace c hrun
    obtain rfl := hrun.eq_normal hn hjump hscan
    exact ⟨rfl, hrun.count_statementsIn hn s hdirect⟩

end Tree

/-! ### Two programs -/

namespace Sample

/-- A loop `for (const s of x)` at an offset, with a body. -/
def loopTree (k : Nat) (body : Concrete) : Concrete :=
  construct "for_in_statement" k body.head.stop [
    token "for" k, token "(" (k + 4), token "const" (k + 5) (some "kind"),
    nameTree (k + 11) (some "left"), token "of" (k + 13) (some "operator"),
    nameTree (k + 16) (some "right"), token ")" (k + 17), body]

/-- The body of a loop holds another loop, which is left early. -/
def leavingInner : Bytes := Utf8.encode
  "const x = y;\nfor (const s of x) \x7b\n  while (c) \x7b\n    break;\n  \x7d\n  f(s);\n\x7d\n"

/-- The tree of `leavingInner`. -/
def leavingInnerTree : Concrete :=
  construct "program" 0 73 [
    constantTree 0 (nameTree 10 (some "value")),
    loopTree 13 (construct "statement_block" 32 72 [
      token "\x7b" 32,
      construct "while_statement" 36 62 [
        token "while" 36,
        construct "parenthesized_expression" 42 45 [token "(" 42, nameTree 43, token ")" 44]
          (some "condition"),
        construct "statement_block" 46 62 [
          token "\x7b" 46,
          construct "break_statement" 52 58 [token "break" 52, token ";" 57],
          token "\x7d" 61]
          (some "body")],
      statementTree (callTree (nameTree 65 (some "function")) [nameTree 67]),
      token "\x7d" 71]
      (some "body"))]

/-- The bodies of two loops are jumps, and one of them fills a sequence on the way. -/
def bareJumps : Bytes := Utf8.encode (
  "function f(x) \x7b\n  const a = [];\n  for (const s of x) break;\n" ++
  "  for (const s of x) return a.push(s);\n\x7d\n")

/-- The tree of `bareJumps`. -/
def bareJumpsTree : Concrete :=
  construct "program" 0 101 [
    construct "function_declaration" 0 100 [
      token "function" 0,
      nameTree 9 (some "name"),
      construct "formal_parameters" 10 13 [token "(" 10, nameTree 11, token ")" 12]
        (some "parameters"),
      construct "statement_block" 14 100 [
        token "\x7b" 14,
        constantTree 18
          (construct "array" 28 30 [token "[" 28, token "]" 29] (some "value")),
        loopTree 34 (construct "break_statement" 53 59 [token "break" 53, token ";" 58]
          (some "body")),
        loopTree 62 (construct "return_statement" 81 98 [
          token "return" 81,
          callTree (construct "member_expression" 88 94 [
            nameTree 88 (some "object"), token "." 89,
            construct "property_identifier" 90 94 [] (some "property")]
            (some "function")) [nameTree 95],
          token ";" 97]
          (some "body")),
        token "\x7d" 99]
        (some "body")]]

end Sample

/-- **The exception.**  The scan finds nothing in a body that is a jump, and the body does not end
normally.  As the analysis asks about blocks only, such a body is not taken to run once for each
element. -/
theorem Tree.bare_jump_overlooked :
    let t := Tree.ofConcrete .javascript Sample.bareJumps Sample.bareJumpsTree
    (t.text 13 = "break;" ∧ t.hasEarlyExit 13 = false ∧
        t.Runs (.statement [] 13) [13] (.broken none)) ∧
      (t.text 17 = "return a.push(s);" ∧ t.hasEarlyExit 17 = false ∧
        t.Runs (.statement [] 17) [17] .returned ∧
        (BindingTable.ofTree t).enclosingIteration? t 17 = none) ∧
      ¬ ∀ loop body, (t.kind loop).isLoop = true → t.child? loop "body" = some body →
        t.hasEarlyExit body = false → ∀ labels trace c,
          t.Runs (.statement labels body) trace c → c = .normal := by
  intro t
  have hbreak : t.text 13 = "break;" ∧ t.hasEarlyExit 13 = false ∧
      t.jump? 13 = some (.broken none) := by
    decide +kernel
  have hreturn : t.text 17 = "return a.push(s);" ∧ t.hasEarlyExit 17 = false ∧
      t.jump? 17 = some .returned ∧ (BindingTable.ofTree t).enclosingIteration? t 17 = none := by
    decide +kernel
  have hloop : (t.kind 10).isLoop = true ∧ t.child? 10 "body" = some 13 := by decide +kernel
  obtain ⟨htext, hscan, hjump⟩ := hbreak
  obtain ⟨htext', hscan', hjump', hnotAsked⟩ := hreturn
  refine ⟨⟨htext, hscan, .jump hjump⟩, ⟨htext', hscan', .jump hjump', hnotAsked⟩, fun hall => ?_⟩
  cases hall 10 13 hloop.1 hloop.2 hscan [] _ _ (.jump hjump)

/-- The `break` ends a turn of the inner loop, and the call behind that is still begun once in every
turn of the outer one. -/
theorem Tree.every_statement_once_behind_break :
    let t := Tree.ofConcrete .javascript Sample.leavingInner Sample.leavingInnerTree
    t.Runs (.statement [] 13) [13] (.broken none) ∧
      t.Runs (.statement [] 8) [8, 9, 12, 13, 14] .normal ∧
      (∀ labels trace c, t.Runs (.statement labels 5) trace c →
        c = .normal ∧ ∃ turns : List (List NodeId), trace = 5 :: turns.flatten ∧
          ∀ turn ∈ turns, turn.count 14 = 1) ∧
      ∃ body, t.parent? 14 = some body ∧ ∀ labels trace c,
        t.Runs (.statement labels body) trace c → c = .normal ∧ trace.count 14 = 1 := by
  intro t
  have hfacts : (t.jump? 8 = none ∧ t.hasEarlyExit 8 = false ∧
      t.jump? 13 = some (.broken none)) ∧ ((t.kind 5).isLoop = true ∧
      t.child? 5 "body" = some 8 ∧ t.kind 8 = .block ∧ t.children 8 = [9, 14]) ∧
      (t.kind 9 = .whileStatement ∧ t.child? 9 "body" = some 12 ∧ t.kind 12 = .block ∧
      t.children 12 = [13] ∧ t.isControl 14 = false) ∧
      ((BindingTable.ofTree t).enclosingIteration? t 14).isSome = true := by
    decide +kernel
  obtain ⟨⟨hjump, hscan, hbreak⟩, ⟨hloop, hbody, hblock, hparts⟩, ⟨hinner, hinnerBody, hinnerBlock,
    hinnerParts, hplain⟩, hiteration⟩ := hfacts
  obtain ⟨hscanned, hasked⟩ := every_statement_once .javascript Sample.leavingInner
    Sample.leavingInnerTree
  have hruns : t.Runs (.statement [] 13) [13] (.broken none) := .jump hbreak
  refine ⟨hruns, ?_, ?_, ?_⟩
  · have hturn : t.Runs (.statement [] 12) [12, 13] (.broken none) :=
      .block hinnerBlock hinnerParts (.stop hruns (by decide))
    have hwhile : t.Runs (.statement [] 9) [9, 12, 13] .normal :=
      .loop (by simp [hinner, Kind.isLoop]) hinnerBody (.last hturn rfl) (by simp)
    exact .block hblock hparts (.next hwhile (.next (.plain hplain) .done))
  · intro labels trace c hrun
    obtain ⟨-, hall⟩ := hscanned 8 hjump hscan
    obtain ⟨hnormal, turns, htrace, hturns⟩ := hall 5 hloop hbody labels trace c hrun
    refine ⟨hnormal, turns, htrace, ?_⟩
    intro turn hmem
    have hdirect : 14 ∈ t.statementsIn 8 := by
      rw [statementsIn, if_pos hblock, hparts]
      decide
    exact (hturns turn hmem).2 14 hdirect
  · obtain ⟨body, hbody, -, hall⟩ := hasked _ 14 hiteration
    exact ⟨body, hbody, hall⟩

end Declutter
