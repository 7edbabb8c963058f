import Declutter.Proofs.Syntax.Places

/-!
# Finding the first fault

Where a syntax error lies is found out with a cursor that goes through all nodes of a concrete tree,
into comments and tokens too.  It goes down wherever it can, and it remembers when it comes back to
a node from below: such a node was looked at before, and its children as well.  So every node is
looked at once, a node before its children, and the first one that marks an error is the one at the
least place.

## Main definitions

* `Search`, `Search.next?` — where the search stands, and where it goes from there.
* `Concrete.findFault?` — the search.
* `Concrete.everywhere`, `Concrete.preorder` — all nodes of a tree, with and without their places.

## Main results

* `Search.run_eq` — the search finds the first fault among the nodes that are left.
* `Concrete.findFault?_eq_some_iff` — it finds the fault at the least place.
* `Tree.parse_locates_first_fault` — a source with errors is refused at that place.
-/

namespace Declutter

/-! ### The search -/

/-- Where the search for a fault stands. -/
structure Search where
  cursor : Cursor
  /-- Whether the search has come back to the node from below. -/
  visited : Bool

namespace Search

/-- Where the search goes: down, unless it comes from there, else to the next sibling, else back to
the node around. -/
def next? (s : Search) : Option Search :=
  match if s.visited then none else s.cursor.firstChild? with
  | some child => some ⟨child, false⟩
  | none =>
    match s.cursor.nextSibling? with
    | some sibling => some ⟨sibling, false⟩
    | none => s.cursor.parent?.map fun parent => ⟨parent, true⟩

/-- A bound of the turns that are left: a node is entered once and left once. -/
def todo (s : Search) : Nat :=
  (if s.visited then 1 else 2 * s.cursor.node.count) + 2 * s.cursor.ahead + s.cursor.around.length

theorem todo_lt_of_next? {s s' : Search} (h : s.next? = some s') : s'.todo < s.todo := by
  obtain ⟨⟨⟨head, children⟩, later, around⟩, visited⟩ := s
  have hcount := (Concrete.node head children).count_pos
  rw [next?] at h
  split at h
  · -- Down, which is only done at a node that is met for the first time.
    rename_i child hchild
    obtain rfl := Option.some.inj h
    cases visited with
    | true => cases hchild
    | false =>
      cases children with
      | nil => cases hchild
      | cons d rest =>
        obtain rfl := Option.some.inj hchild
        simp only [todo, Cursor.ahead, Concrete.count, Concrete.countIn, List.map_cons,
          List.sum_cons, List.length_cons, Bool.false_eq_true, if_false]
        omega
  · cases later with
    | cons d rest =>
      obtain rfl := Option.some.inj h
      cases visited <;> simp only [todo, Cursor.ahead, Concrete.countIn, Bool.false_eq_true,
        if_true, if_false] <;> omega
    | nil =>
      cases around with
      | nil => cases h
      | cons frame around =>
        obtain rfl := Option.some.inj h
        cases visited <;> simp only [todo, Cursor.ahead, Concrete.countIn, List.map_cons,
          List.sum_cons, List.length_cons, Bool.false_eq_true, if_true, if_false] <;> omega

/-- The search: a turn looks at the node under the cursor, unless the search has come back to it. -/
def run (s : Search) : Option Concrete :=
  if !s.visited && s.cursor.node.head.isFault then some s.cursor.node
  else
    match _h : s.next? with
    | none => none
    | some s' => run s'
termination_by s.todo
decreasing_by exact todo_lt_of_next? _h

end Search

/-- The first node of a tree that marks a syntax error, looked for with a cursor. -/
def Concrete.findFault? (root : Concrete) : Option Concrete := Search.run ⟨.ofRoot root, false⟩

/-! ### All nodes of a tree -/

namespace Concrete

mutual

/-- All nodes of a tree with their places, parents before children. -/
def everywhere : Concrete → List (List Nat × Concrete)
  | node head children => ([], node head children) :: everywhereIn 0 children

/-- All nodes of siblings, the first of which has the number `k`. -/
def everywhereIn (k : Nat) : List Concrete → List (List Nat × Concrete)
  | [] => []
  | c :: rest => c.everywhere.map (inChild k) ++ everywhereIn (k + 1) rest

end

/-- All nodes of a tree, parents before children. -/
def preorder (c : Concrete) : List Concrete := c.everywhere.map (·.2)

variable {c d : Concrete} {p : List Nat} {k : Nat} {l : List Concrete}

theorem map_snd_everywhereIn (k : Nat) (l : List Concrete) :
    (everywhereIn k l).map (·.2) = l.flatMap preorder := by
  induction l generalizing k with
  | nil => rfl
  | cons c rest ih =>
    rw [everywhereIn, List.map_append, ih, List.map_map, List.flatMap_cons]
    rfl

theorem preorder_node (h : Head) (children : List Concrete) :
    (node h children).preorder = node h children :: children.flatMap preorder := by
  rw [preorder, everywhere, List.map_cons, map_snd_everywhereIn]

theorem mem_everywhereIn_iff :
    (p, d) ∈ everywhereIn k l ↔ ∃ j e q, l[j]? = some e ∧ p = (k + j) :: q ∧
      (q, d) ∈ e.everywhere := by
  induction l generalizing k with
  | nil => simp [everywhereIn]
  | cons c rest ih =>
    rw [everywhereIn, List.mem_append, ih]
    constructor
    · rintro (h | ⟨j, e, q, hj, rfl, h⟩)
      · obtain ⟨⟨q, e⟩, hmem, heq⟩ := List.mem_map.mp h
        obtain ⟨rfl, rfl⟩ := Prod.mk.inj heq
        exact ⟨0, c, q, rfl, rfl, hmem⟩
      · exact ⟨j + 1, e, q, hj, by rw [Nat.add_assoc, Nat.add_comm 1 j], h⟩
    · rintro ⟨_ | j, e, q, hj, rfl, h⟩
      · obtain rfl := Option.some.inj hj
        exact .inl (List.mem_map.mpr ⟨(q, d), h, rfl⟩)
      · exact .inr ⟨j, e, q, hj, by rw [Nat.add_assoc, Nat.add_comm 1 j], h⟩

/-- **The nodes of a tree** are what is at its places. -/
theorem mem_everywhere_iff : (p, d) ∈ c.everywhere ↔ c.at? p = some d := by
  induction p generalizing c with
  | nil =>
    cases c
    simp [everywhere, mem_everywhereIn_iff, at?, eq_comm]
  | cons k p ih =>
    rw [at?_cons_eq_some_iff]
    cases c with
    | node h children =>
      rw [everywhere, List.mem_cons, mem_everywhereIn_iff]
      constructor
      · rintro (h | ⟨j, e, q, hj, heq, h⟩)
        · cases h
        · obtain ⟨rfl, rfl⟩ := List.cons.inj heq
          exact ⟨e, by rwa [Nat.zero_add], ih.mp h⟩
      · rintro ⟨e, he, h⟩
        exact .inr ⟨k, e, p, he, by rw [Nat.zero_add], ih.mpr h⟩

mutual

/-- They come in the order of their places. -/
theorem pairwise_everywhere (c : Concrete) : (c.everywhere.map (·.1)).Pairwise (· < ·) := by
  cases c with
  | node h children =>
    rw [everywhere, List.map_cons, List.pairwise_cons]
    refine ⟨fun p hp => ?_, pairwise_everywhereIn 0 children⟩
    obtain ⟨⟨p, d⟩, hmem, rfl⟩ := List.mem_map.mp hp
    obtain ⟨j, e, q, -, rfl, -⟩ := mem_everywhereIn_iff.mp hmem
    exact List.nil_lt_cons _ _

theorem pairwise_everywhereIn (k : Nat) (l : List Concrete) :
    ((everywhereIn k l).map (·.1)).Pairwise (· < ·) := by
  cases l with
  | nil => exact .nil
  | cons c rest =>
    rw [everywhereIn, List.map_append, List.pairwise_append]
    refine ⟨?_, pairwise_everywhereIn (k + 1) rest, ?_⟩
    · rw [List.map_map, List.pairwise_map]
      have hinner := pairwise_everywhere c
      rw [List.pairwise_map] at hinner
      exact hinner.imp fun hlt => List.cons_lt_cons_iff.mpr (.inr ⟨rfl, hlt⟩)
    · -- The places among the later siblings begin with a greater number.
      intro p hp q hq
      obtain ⟨x, hx, rfl⟩ := List.mem_map.mp hp
      obtain ⟨y, -, rfl⟩ := List.mem_map.mp hx
      obtain ⟨⟨q, d⟩, hmem, rfl⟩ := List.mem_map.mp hq
      obtain ⟨j, e, q, -, rfl, -⟩ := mem_everywhereIn_iff.mp hmem
      exact List.cons_lt_cons_iff.mpr (.inl (by omega))

end

end Concrete

/-! ### What the search finds -/

namespace Search

/-- The nodes that the search has not looked at yet, in the order in which it will. -/
def rest (s : Search) : List Concrete :=
  (if s.visited then [] else s.cursor.node.preorder) ++
    (s.cursor.later.flatMap Concrete.preorder ++
      s.cursor.around.flatMap fun frame => frame.2.flatMap Concrete.preorder)

/-- A turn looks at the node under the cursor, if it is met for the first time, and leaves the
others. -/
theorem rest_eq_next (s : Search) :
    s.rest = (if s.visited then [] else [s.cursor.node]) ++ s.next?.elim [] rest := by
  obtain ⟨⟨⟨head, children⟩, later, around⟩, visited⟩ := s
  -- Where the search does not go down, it is done with the node and goes on behind it.
  have hbehind : later.flatMap Concrete.preorder ++
      around.flatMap (fun frame => frame.2.flatMap Concrete.preorder) =
        Option.elim (match (⟨.node head children, later, around⟩ : Cursor).nextSibling? with
          | some sibling => some ⟨sibling, false⟩
          | none => (⟨.node head children, later, around⟩ : Cursor).parent?.map
              fun parent => ⟨parent, true⟩) [] rest := by
    cases later with
    | cons d later => simp [Cursor.nextSibling?, rest, List.flatMap_cons]
    | nil =>
      cases around with
      | nil => rfl
      | cons frame around => simp [Cursor.nextSibling?, Cursor.parent?, rest, List.flatMap_cons]
  unfold next?
  cases visited with
  | true => exact hbehind
  | false =>
    cases children with
    | nil =>
      rw [rest, Concrete.preorder_node]
      exact congrArg _ hbehind
    | cons d children =>
      simp [rest, Concrete.preorder_node, Cursor.firstChild?, Concrete.children,
        List.flatMap_cons]

/-- **The search finds the first fault among the nodes that are left.** -/
theorem run_eq (s : Search) : s.run = s.rest.find? (·.head.isFault) := by
  induction hn : s.todo using Nat.strongRecOn generalizing s with
  | ind n ih =>
    rw [run, rest_eq_next, List.find?_append]
    have hlater : (match _h : s.next? with
        | none => none
        | some s' => run s') = (s.next?.elim [] rest).find? (·.head.isFault) := by
      split
      · rename_i hnext
        rw [hnext]
        rfl
      · rename_i s' hnext
        rw [hnext]
        exact ih s'.todo (hn ▸ todo_lt_of_next? hnext) s' rfl
    rw [hlater]
    cases s.visited with
    | true => rfl
    | false =>
      cases hfault : s.cursor.node.head.isFault <;> simp [hfault]

end Search

namespace Concrete

variable {c d root : Concrete}

/-- The search goes through the whole tree. -/
theorem findFault?_eq_find? (root : Concrete) :
    root.findFault? = root.preorder.find? (·.head.isFault) := by
  rw [findFault?, Search.run_eq]
  simp [Search.rest, Cursor.ofRoot]

mutual

/-- The recursion finds what the search finds. -/
theorem firstFault?_eq_find? (c : Concrete) :
    c.firstFault? = (c.preorder.find? (·.head.isFault)).map head := by
  cases c with
  | node h children =>
    rw [firstFault?, preorder_node, List.find?_cons, firstFaultIn?_eq_find? children]
    cases hfault : h.isFault <;> simp [head, hfault]

theorem firstFaultIn?_eq_find? (l : List Concrete) :
    firstFaultIn? l = ((l.flatMap preorder).find? (·.head.isFault)).map head := by
  cases l with
  | nil => rfl
  | cons c rest =>
    rw [firstFaultIn?, List.flatMap_cons, List.find?_append, firstFault?_eq_find? c,
      firstFaultIn?_eq_find? rest]
    cases c.preorder.find? (·.head.isFault) <;> rfl

end

/-- The search finds nothing exactly if there is no fault at any place. -/
theorem findFault?_eq_none_iff :
    root.findFault? = none ↔ ∀ p d, root.at? p = some d → d.head.isFault = false := by
  rw [findFault?_eq_find?, preorder, List.find?_eq_none, List.forall_mem_map]
  constructor
  · intro h p d hd
    simpa using h (p, d) (mem_everywhere_iff.mpr hd)
  · rintro h ⟨p, d⟩ hmem
    simpa using h p d (mem_everywhere_iff.mp hmem)

/-- **The search finds the fault at the least place.** -/
theorem findFault?_eq_some_iff :
    root.findFault? = some d ↔ ∃ p, root.at? p = some d ∧ d.head.isFault = true ∧
      ∀ q e, q < p → root.at? q = some e → e.head.isFault = false := by
  have hsorted := pairwise_everywhere root
  rw [List.pairwise_map] at hsorted
  rw [findFault?_eq_find?, preorder, List.find?_map, Option.map_eq_some_iff]
  constructor
  · rintro ⟨⟨p, d⟩, hfind, rfl⟩
    obtain ⟨hfault, front, back, heq, hfront⟩ := List.find?_eq_some_iff_append.mp hfind
    refine ⟨p, mem_everywhere_iff.mp (heq ▸ by simp), hfault, fun q e hlt he => ?_⟩
    -- What is at a lesser place stands further to the front.
    have hmem := mem_everywhere_iff.mpr he
    rw [heq, List.pairwise_append] at hsorted
    rw [heq, List.mem_append, List.mem_cons] at hmem
    rcases hmem with hmem | heq | hmem
    · simpa using hfront (q, e) hmem
    · exact absurd (congrArg Prod.fst heq) (ne_of_lt hlt)
    · exact absurd ((List.pairwise_cons.mp hsorted.2.1).1 _ hmem) (lt_asymm hlt)
  · rintro ⟨p, hd, hfault, hfirst⟩
    obtain ⟨front, back, heq⟩ := List.append_of_mem (mem_everywhere_iff.mpr hd)
    refine ⟨(p, d), List.find?_eq_some_iff_append.mpr ⟨hfault, front, back, heq, ?_⟩, rfl⟩
    rintro ⟨q, e⟩ hmem
    rw [heq, List.pairwise_append] at hsorted
    have he := hfirst q e (hsorted.2.2 _ hmem _ (.head _))
      (mem_everywhere_iff.mp (heq ▸ List.mem_append_left _ hmem))
    simp [he]

end Concrete

/-! ### Where a source is refused -/

namespace Tree

/-- **A source is refused at its first syntax error.**  For every concrete tree the search comes to
an end, with the node that is first in preorder among those that mark an error, wherever they are,
or with none if there is no such node.  A source that is text is refused exactly if the grammar
found errors in it, with the span of that node, or of the root if there is none. -/
theorem parse_locates_first_fault {m : Type → Type} [Monad m] (grammar : Grammar m) (l : Language)
    (s : Bytes) (hs : 0 ∉ s.take 8192) :
    (∀ root : Concrete,
      root.firstFault? = root.findFault?.map Concrete.head ∧
      (∀ d, root.findFault? = some d ↔ ∃ p, root.at? p = some d ∧ d.head.isFault = true ∧
        ∀ q e, q < p → root.at? q = some e → e.head.isFault = false) ∧
      (root.findFault? = none ↔ ∀ p d, root.at? p = some d → d.head.isFault = false)) ∧
    (Tree.parse grammar l s = do
      let parsed ← grammar l s
      return parsed.toTree l s) ∧
    ∀ parsed : Parsed,
      ((∃ e, parsed.toTree l s = .error e) ↔ parsed.faulty = true) ∧
      ∀ e, parsed.toTree l s = .error e →
        let fault := (parsed.root.findFault?.getD parsed.root).head
        e.span? = some (.ofOffsets s fault.start fault.stop) := by
  have hfirst : ∀ root : Concrete, root.firstFault? = root.findFault?.map Concrete.head :=
    fun root => by rw [Concrete.firstFault?_eq_find?, Concrete.findFault?_eq_find?]
  refine ⟨fun root => ⟨hfirst root, fun d => Concrete.findFault?_eq_some_iff,
    Concrete.findFault?_eq_none_iff⟩, ?_, fun parsed => ?_⟩
  · have hbinary : s.isBinary = false := by
      rw [Bytes.isBinary, ← Bool.not_eq_true, List.contains_iff_mem]
      exact hs
    rw [Tree.parse, hbinary]
    rfl
  · rw [Parsed.toTree, hfirst]
    cases parsed.faulty with
    | false =>
      rw [if_neg Bool.false_ne_true]
      exact ⟨by simp, fun e h => nomatch h⟩
    | true =>
      rw [if_pos rfl]
      cases parsed.root.findFault? with
      | none => exact ⟨by simp, fun e h => Except.error.inj h ▸ rfl⟩
      | some d => exact ⟨by simp, fun e h => Except.error.inj h ▸ rfl⟩

/-- Text that fits nowhere stands in a comment, and behind it a terminator is missing. -/
def faultyTree : Concrete :=
  let node (type : String) (missing : Bool) (start stop : Nat) (children : List Concrete) :=
    Concrete.node ⟨type, true, missing, start, stop, none⟩ children
  node "program" false 0 11 [
    node "expression_statement" false 0 1 [node "identifier" false 0 1 []],
    node "comment" false 2 11 [node "comment_text" false 4 11 [], node "ERROR" false 5 9 []],
    node ";" true 11 11 []]

/-- The text in the comment is named, not the terminator. -/
theorem sample_first_fault :
    let source := Utf8.encode "f /* @@@ */"
    0 ∉ source.take 8192 ∧
      faultyTree.findFault? = some (.node ⟨"ERROR", true, false, 5, 9, none⟩ []) ∧
      ∃ e, Tree.parse (m := Id) (fun _ _ => ⟨faultyTree, true⟩) .javascript source = .error e ∧
        e.span? = some (.ofOffsets source 5 9) := by
  intro source
  have hsource : 0 ∉ source.take 8192 := by decide +kernel
  obtain ⟨-, hparse, hlocates⟩ := parse_locates_first_fault (m := Id)
    (fun _ _ => ⟨faultyTree, true⟩) .javascript source hsource
  have hfault : faultyTree.findFault? = some (.node ⟨"ERROR", true, false, 5, 9, none⟩ []) :=
    (Concrete.findFault?_eq_find? faultyTree).trans rfl
  obtain ⟨e, he⟩ := (hlocates ⟨faultyTree, true⟩).1.mpr rfl
  refine ⟨hsource, hfault, e, hparse.trans he, ?_⟩
  rw [(hlocates ⟨faultyTree, true⟩).2 e he, hfault]
  rfl

end Tree

end Declutter
