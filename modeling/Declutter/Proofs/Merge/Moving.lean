import Declutter.Proofs.Expression.Heap
import Declutter.Proofs.Merge.Observation

/-!
# Values that move to the first push

Where sequences are filled side by side, the merge pushes one record in the place of the first push,
and the other values move there.  If the pushes are not adjacent, they move across other statements;
this is allowed if they are trivially pure and read only names that keep their values.

Such a value may still refer to an array or an object that the statements in between change.  It is
the same at its new place unless it spreads what was changed, or writes it into a template.

## Main definitions

* `MergePlan.JumpsOver` — the statements across which a value moves.

## Main results

* `MergePlan.mem_of_areAdjacent` — what stands between adjacent statements.
* `MergePlan.movable_of_jumpsOver` — a value that moves across a statement passed the checks.
* `MergePlan.moved_value_steady` — what a value that may move depends on.
* `MergePlan.moved_spread_differs` — a value that is not the same at its new place.
-/

namespace Declutter

open Attempt

/-! ### Consecutive positions -/

/-- A run of consecutive numbers is an interval. -/
theorem MergePlan.eq_range'_of_isConsecutive {a : Nat} {l : List Nat}
    (h : isConsecutive (a :: l) = true) : a :: l = List.range' a (l.length + 1) := by
  induction l generalizing a with
  | nil => rfl
  | cons b rest ih =>
    rw [isConsecutive, Bool.and_eq_true, beq_iff_eq] at h
    obtain ⟨rfl, hrest⟩ := h
    have hrange := ih hrest
    rw [List.length_cons, List.range'_succ, ← hrange]

/-- What lies between two numbers of a run of consecutive ones is in it. -/
theorem MergePlan.mem_of_isConsecutive {l : List Nat} (h : isConsecutive l = true) {a b c : Nat}
    (ha : a ∈ l) (hc : c ∈ l) (hab : a ≤ b) (hbc : b ≤ c) : b ∈ l := by
  cases l with
  | nil => cases ha
  | cons first rest =>
    rw [eq_range'_of_isConsecutive h, List.mem_range'_1] at ha hc ⊢
    omega

/-- The position of an element is where it is. -/
theorem getElem?_of_findIdx? {l : List NodeId} {a : NodeId} {k : Nat}
    (h : l.findIdx? (· == a) = some k) : l[k]? = some a := by
  obtain ⟨hk, hat, -⟩ := List.findIdx?_eq_some_iff_getElem.mp h
  rw [beq_iff_eq] at hat
  rw [List.getElem?_eq_getElem hk, hat]

namespace Tree

variable {t : Tree} {i c d : Nat}

/-- The children of a node have their positions in the order of their numbers. -/
theorem InPreorder.lt_of_findIdx? (hn : t.InPreorder) {j k : Nat}
    (hc : (t.children i).findIdx? (· == c) = some j)
    (hd : (t.children i).findIdx? (· == d) = some k) (hcd : c < d) : j < k := by
  obtain ⟨hj, hcj, -⟩ := List.findIdx?_eq_some_iff_getElem.mp hc
  obtain ⟨hk, hdk, -⟩ := List.findIdx?_eq_some_iff_getElem.mp hd
  rw [beq_iff_eq] at hcj hdk
  have hi : i < t.nodes.size := lt_size_of_mem_children (List.getElem_mem hj)
  have hordered := List.pairwise_iff_getElem.mp (hn.tiles i hi).pairwise
  by_contra hle
  rcases Nat.eq_or_lt_of_le (Nat.le_of_not_lt hle) with rfl | hlt
  · exact Nat.lt_irrefl _ (hcj.symm.trans hdk ▸ hcd)
  · have hdc := (hordered k j hk hj hlt).2
    rw [hcj, hdk] at hdc
    exact Nat.lt_asymm hcd hdc

end Tree

namespace MergePlan

variable {p : MergePlan} {m : CollectionId} {push value w : NodeId}

theorem positionIn_eq_ok {siblings : List NodeId} {statement : NodeId} {k : Nat} :
    p.positionIn siblings statement = .ok k ↔ siblings.findIdx? (· == statement) = some k :=
  fetch_eq_ok

/-- **What stands between adjacent statements** is one of them. -/
theorem mem_of_areAdjacent (hn : p.tree.InPreorder) {statements : List NodeId}
    (h : p.areAdjacent statements = .ok true) {first last : NodeId} (hfirst : first ∈ statements)
    (hlast : last ∈ statements) (hparent : p.tree.parent? w = p.tree.parent? first)
    (hbehind : first < w) (hbefore : w < last) : w ∈ statements := by
  unfold areAdjacent at h
  obtain ⟨head, -, h⟩ := bind_eq_ok.mp h
  obtain ⟨body, -, h⟩ := bind_eq_ok.mp h
  obtain ⟨positions, hpositions, h⟩ := bind_eq_ok.mp h
  have hconsecutive := pure_eq_ok.mp h
  have hposition : ∀ s ∈ statements, ∃ k ∈ positions,
      (p.tree.children body).findIdx? (· == s) = some k := by
    intro s hs
    obtain ⟨k, hk, hat⟩ := exists_of_mapM hpositions hs
    exact ⟨k, hk, positionIn_eq_ok.mp hat⟩
  obtain ⟨j, hj, hfirstAt⟩ := hposition first hfirst
  obtain ⟨k, hk, hlastAt⟩ := hposition last hlast
  have hmem : w ∈ p.tree.children body := by
    rw [hn.mem_children_iff, hparent]
    exact hn.parent_of_mem body first (List.mem_of_getElem? (getElem?_of_findIdx? hfirstAt))
  obtain ⟨i, hwAt⟩ : ∃ i, (p.tree.children body).findIdx? (· == w) = some i :=
    Option.isSome_iff_exists.mp (by simpa using hmem)
  have hbetween := mem_of_isConsecutive hconsecutive hj hk
    (Nat.le_of_lt (hn.lt_of_findIdx? hfirstAt hwAt hbehind))
    (Nat.le_of_lt (hn.lt_of_findIdx? hwAt hlastAt hbefore))
  obtain ⟨s, hs, hsAt⟩ := (mem_of_mapM hpositions).mp hbetween
  -- The position of `w` is that of one of the statements, which therefore is `w`.
  have hat := getElem?_of_findIdx? (positionIn_eq_ok.mp hsAt)
  rw [getElem?_of_findIdx? hwAt] at hat
  rw [Option.some.inj hat]
  exact hs

/-- Whether the value that a statement pushes moves across another statement of the block, which is
none of the pushes: there is an earlier push in front of it. -/
structure JumpsOver (p : MergePlan) (push w : NodeId) : Prop where
  earlier : ∃ first, p.IsPush first ∧ (p.tree.span first).start < (p.tree.span push).start ∧
    p.tree.parent? w = p.tree.parent? first ∧ first < w
  before : w < push
  other : ¬ p.IsPush w

/-- A value that may move is trivially pure and reads only names that keep their values. -/
theorem of_checkMovable {offset : Nat} (h : p.checkMovable offset (m, value) = .ok ()) :
    p.tree.isTriviallyPure value = true ∧
      p.tree.readsOnlyStable p.table.kindOf? value = true := by
  unfold checkMovable at h
  obtain ⟨_, hcheck, -⟩ := bind_eq_ok.mp h
  exact Bool.and_eq_true_iff.mp (require_eq_ok.mp hcheck)

/-- A value that is pushed is part of the program. -/
theorem lt_size_of_pushedValue (hn : p.tree.InPreorder)
    (h : p.pushedValue (m, push) = .ok (m, value)) : value < p.tree.nodes.size := by
  unfold pushedValue at h
  obtain ⟨call, -, h⟩ := bind_eq_ok.mp h
  obtain ⟨arguments, -, h⟩ := bind_eq_ok.mp h
  obtain ⟨found, hfound, h⟩ := bind_eq_ok.mp h
  obtain rfl := (Prod.mk.inj (pure_eq_ok.mp h)).2
  exact hn.lt_size_of_mem (List.mem_of_mem_head? (fetch_eq_ok.mp hfound))

/-- **A value that moves across a statement** was checked: the pushes are not adjacent, and it is
not the first value. -/
theorem movable_of_jumpsOver (hn : p.tree.InPreorder) {draft : Draft}
    (h : p.coBuiltDraft = .ok draft) (hm : m ∈ p.removed)
    (hpush : (p.collection m).populate = some push)
    (hvalue : p.pushedValue (m, push) = .ok (m, value)) (hjumps : p.JumpsOver push w) :
    p.tree.isTriviallyPure value = true ∧
      p.tree.readsOnlyStable p.table.kindOf? value = true := by
  obtain ⟨declarations, filled, values, -, -, hfilled, hordered, hvalues, -, hmoves, -⟩ :=
    exists_filled_of_coBuiltDraft h
  obtain ⟨first, ⟨k, hk, hfirst⟩, hstart, hparent, hbehind⟩ := hjumps.earlier
  have hlastIn : (m, push) ∈ filled := (hfilled _).mpr ⟨hm, hpush⟩
  have hfirstIn : (k, first) ∈ filled := (hfilled _).mpr ⟨hk, hfirst⟩
  rcases hmoves with hadjacent | ⟨offset, hmovable⟩
  · -- Between adjacent pushes there is no other statement.
    have hmem := mem_of_areAdjacent hn hadjacent (List.mem_map_of_mem hfirstIn)
      (List.mem_map_of_mem hlastIn) hparent hbehind hjumps.before
    obtain ⟨v, hv, rfl⟩ := List.mem_map.mp hmem
    exact absurd ⟨v.1, (hfilled v).mp hv⟩ hjumps.other
  · refine of_checkMovable (hmovable (m, value) ?_)
    cases mapM_eq_ok.mp hvalues with
    | nil => cases hlastIn
    | cons _ hrest =>
      rcases List.mem_cons.mp hlastIn with rfl | hlastIn
      · -- The first push does not begin behind another one.
        rcases List.mem_cons.mp hfirstIn with heq | hfirstIn
        · obtain rfl := (Prod.mk.inj heq).2
          exact absurd hstart (Nat.lt_irrefl _)
        · exact absurd hstart (Nat.not_lt.mpr ((List.pairwise_cons.mp hordered).1 _ hfirstIn))
      · exact (mem_of_mapM (mapM_eq_ok.mpr hrest)).mpr ⟨_, hlastIn, hvalue⟩

/-- **What a value that may move depends on.**  An expression that is trivially pure and reads only
names that keep their values has the same value in any two states that agree on these names, if it
sees the same of the arrays and objects that it spreads or writes into a template.  So does a value
that a merge moves across another statement. -/
theorem moved_value_steady {Val Ref : Type} (D : ValueDomain Val Ref) (l : Language)
    (source : Bytes) (root : Concrete) (pure : List String) (marker : String) :
    let t := Tree.ofConcrete l source root
    let b := BindingTable.ofTree t
    let a := Arena.ofTree b t
    (∀ e < t.nodes.size, t.isTriviallyPure e = true → t.readsOnlyStable b.kindOf? e = true →
        D.Steady t b e) ∧
      ∀ g ∈ a.groups b t, g.pattern = .coBuilt →
        let p := ofGroup t b a pure marker t.spelledNames g
        ∀ r, p.rewrite = .ok r → ∀ m ∈ p.removed, ∀ push value w,
          (p.collection m).populate = some push → p.pushedValue (m, push) = .ok (m, value) →
          p.JumpsOver push w → D.Steady t b value := by
  intro t b a
  have hn : t.InPreorder := Tree.inPreorder_ofConcrete l source root
  have hsteady : ∀ e < t.nodes.size, t.isTriviallyPure e = true →
      t.readsOnlyStable b.kindOf? e = true → D.Steady t b e := fun e he htrivial hstable =>
    ValueDomain.steady_of_movable hn he htrivial hstable
  refine ⟨hsteady, ?_⟩
  intro g hg hpattern p r hr m hm push value w hpush hvalue hjumps
  obtain ⟨declared, -, hdeclared, -⟩ := rewrite_eq_ok hr
  have hpattern : p.group.pattern = .coBuilt := hpattern
  rw [declarationDraft, hpattern] at hdeclared
  obtain ⟨htrivial, hstable⟩ := movable_of_jumpsOver hn hdeclared hm hpush hvalue hjumps
  exact hsteady value (lt_size_of_pushedValue hn hvalue) htrivial hstable

end MergePlan

/-! ### A program -/

namespace Sample

/-- An array is spread in a value that moves across a statement that adds to it. -/
def spreading : Bytes := Utf8.encode ("const src = get();\nconst l = get();\nconst a = [];\n" ++
  "const b = [];\nfor (const s of src) \x7b\n  a.push(1);\n  l.push(s);\n  b.push([...l]);\n\x7d\n")

/-- The tree of `spreading`. -/
def spreadingTree : Concrete :=
  construct "program" 0 133 [
    sourceDeclaration,
    constantTree 19 (construct "call_expression" 29 34 [
      construct "identifier" 29 32 [] (some "function"),
      construct "arguments" 32 34 [token "(" 32, token ")" 33] (some "arguments")]
      (some "value")),
    emptyDeclaration 36, emptyDeclaration 50,
    construct "for_in_statement" 64 132 [
      token "for" 64, token "(" 68, token "const" 69 (some "kind"), nameTree 75 (some "left"),
      token "of" 77 (some "operator"), construct "identifier" 80 83 [] (some "right"),
      token ")" 83,
      construct "statement_block" 85 132 [
        token "\x7b" 85, pushNumber 89, pushTree 102 (nameTree 109),
        pushTree 115 (construct "array" 122 128 [
          token "[" 122, construct "spread_element" 123 127 [token "..." 123, nameTree 126],
          token "]" 127]),
        token "\x7d" 131] (some "body")]]

/-- Values with one array on the heap. -/
inductive Datum where
  | number (n : Nat)
  | reference
  | array (elements : List Datum)

/-- A meaning of the literals and operators for these values. -/
def data : ValueDomain Datum Unit where
  literal text := .number text.length
  unary _ v := v
  binary _ v _ := v
  isTruthy _ := true
  array _ elements := .array elements
  object _ := .number 0
  template _ _ := .number 0
  display _ _ := ""
  reference? v :=
    match v with
    | .reference => some ()
    | _ => none
  own v :=
    match v with
    | .array elements => ⟨elements, []⟩
    | _ => ⟨[], []⟩
  nothing := .number 0
  other _ _ := .number 0

/-- A state in which all names refer to the array, and the array holds some elements. -/
def holding (elements : List Datum) : Store Datum Unit :=
  ⟨fun _ => .reference, fun _ => ⟨elements, []⟩⟩

end Sample

/-- The value of an array that spreads a name. -/
theorem ValueDomain.eval_spread {Val Ref : Type} {D : ValueDomain Val Ref} {t : Tree}
    {key : NodeId → Key} {s : Store Val Ref} {i c n : NodeId} (hn : t.InPreorder)
    (hi : t.kind i = .array ∧ t.children i = [c]) (hc : t.kind c = .spread ∧ t.children c = [n])
    (hname : t.kind n = .identifier) :
    D.eval t key s i = D.array (t.text i) (D.contents s (s.env (key n))).elements := by
  have hin : D.evalBelow t key s i c = D.eval t key s c := evalBelow_of_mem hn (by simp [hi.2])
  have hinner : D.evalBelow t key s c n = D.eval t key s n := evalBelow_of_mem hn (by simp [hc.2])
  have hvalue : D.eval t key s n = s.env (key n) := by simp [eval_eq, step, hname]
  have hspread : D.eval t key s c = s.env (key n) := by
    rw [eval_eq, step]
    simp [hc, part, hinner, hvalue]
  rw [eval_eq, step]
  simp [hi, elementsOf, hc.1, hin, hspread]

namespace MergePlan

/-- The merge takes place, and the second value moves across the statement between the pushes. -/
theorem sample_moves :
    let t := Tree.ofConcrete .javascript Sample.spreading Sample.spreadingTree
    let b := BindingTable.ofTree t
    let a := Arena.ofTree b t
    let g : Group := ⟨[1, 2], 0, .coBuilt, some 21, false⟩
    let p := ofGroup t b a [] "" t.spelledNames g
    (∀ e ∈ [38, 45], e < t.nodes.size ∧ t.isTriviallyPure e = true ∧
        t.readsOnlyStable b.kindOf? e = true) ∧
      g ∈ a.groups b t ∧ 2 ∈ p.removed ∧ (p.collection 2).populate = some 39 ∧
      p.pushedValue (2, 39) = .ok (2, 45) ∧ p.JumpsOver 39 32 ∧
      ∃ r, p.rewrite = .ok r ∧ (Edit.applyAll t.source r.edits).1 =
        Utf8.encode ("const src = get();\nconst l = get();\nconst srcRecords = [];\n" ++
          "for (const s of src) \x7b\n  srcRecords.push(\x7b aItem: 1, bItem: [...l] \x7d);\n" ++
          "  l.push(s);\n\x7d\n") := by
  intro t b a g p
  have hfacts : (∀ e ∈ [38, 45], e < t.nodes.size ∧ t.isTriviallyPure e = true ∧
        t.readsOnlyStable b.kindOf? e = true) ∧
      a.groups b t = [g] ∧ (2 ∈ p.removed ∧ (p.collection 2).populate = some 39) ∧
      (p.pushedValue (2, 39)).toOption = some (2, 45) ∧
      (1 ∈ p.removed ∧ (p.collection 1).populate = some 25) ∧
      ((p.tree.span 25).start < (p.tree.span 39).start ∧ p.tree.parent? 32 = p.tree.parent? 25) ∧
      (∀ k ∈ p.removed, (p.collection k).populate ≠ some 32) ∧
      p.rewrite.toOption.map (fun r => (Edit.applyAll t.source r.edits).1) =
        some (Utf8.encode ("const src = get();\nconst l = get();\nconst srcRecords = [];\n" ++
          "for (const s of src) \x7b\n  srcRecords.push(\x7b aItem: 1, bItem: [...l] \x7d);\n" ++
          "  l.push(s);\n\x7d\n")) := by
    decide +kernel
  obtain ⟨hchecks, hgroups, ⟨hm, hpush⟩, hvalue, hfirst, ⟨hstart, hparent⟩, hother, happlied⟩ :=
    hfacts
  refine ⟨hchecks, by rw [hgroups]; exact .head _, hm, hpush, toOption_eq_some.mp hvalue,
    ⟨⟨25, ⟨1, hfirst⟩, hstart, hparent, by decide⟩, by decide, ?_⟩,
    exists_of_toOption_map happlied⟩
  rintro ⟨k, hk, hpopulate⟩
  exact hother k hk hpopulate

/-- A name and an array that spreads another one; the array moves. -/
theorem sample_moved_value_steady :
    let t := Tree.ofConcrete .javascript Sample.spreading Sample.spreadingTree
    let b := BindingTable.ofTree t
    let a := Arena.ofTree b t
    let g : Group := ⟨[1, 2], 0, .coBuilt, some 21, false⟩
    let p := ofGroup t b a [] "" t.spelledNames g
    (38 < t.nodes.size ∧ t.isTriviallyPure 38 = true ∧ t.readsOnlyStable b.kindOf? 38 = true) ∧
      (g ∈ a.groups b t ∧ p.JumpsOver 39 32) ∧
      Sample.data.Steady t b 38 ∧ Sample.data.Steady t b 45 := by
  intro t b a g p
  obtain ⟨hchecks, hg, hm, hpush, hvalue, hjumps, r, hr, -⟩ := sample_moves
  have hname := hchecks 38 (by simp)
  obtain ⟨hsteady, hmoved⟩ := moved_value_steady Sample.data .javascript Sample.spreading
    Sample.spreadingTree [] ""
  exact ⟨hname, ⟨hg, hjumps⟩, hsteady 38 hname.1 hname.2.1 hname.2.2,
    hmoved g hg rfl r hr 2 hm 39 45 32 hpush hvalue hjumps⟩

/-- **The exception.**  An array that spreads `l` is trivially pure and reads only names that keep
their values, and the merge moves it across a statement that adds an element to `l`.  In the state
before that statement it has another value than in the state behind it. -/
theorem moved_spread_differs :
    let t := Tree.ofConcrete .javascript Sample.spreading Sample.spreadingTree
    let b := BindingTable.ofTree t
    let a := Arena.ofTree b t
    let g : Group := ⟨[1, 2], 0, .coBuilt, some 21, false⟩
    let p := ofGroup t b a [] "" t.spelledNames g
    let earlier := Sample.holding []
    let later := Sample.holding [.number 0]
    (t.text 45 = "[...l]" ∧ t.isTriviallyPure 45 = true ∧ t.readsOnlyStable b.kindOf? 45 = true) ∧
      (b.AgreeStably earlier later ∧
        Sample.data.eval t (b.key t) earlier 45 ≠ Sample.data.eval t (b.key t) later 45) ∧
      (g ∈ a.groups b t ∧ t.text 32 = "l.push(s);" ∧ p.JumpsOver 39 32 ∧
        p.pushedValue (2, 39) = .ok (2, 45)) ∧
      ∃ r, p.rewrite = .ok r ∧ (Edit.applyAll t.source r.edits).1 =
        Utf8.encode ("const src = get();\nconst l = get();\nconst srcRecords = [];\n" ++
          "for (const s of src) \x7b\n  srcRecords.push(\x7b aItem: 1, bItem: [...l] \x7d);\n" ++
          "  l.push(s);\n\x7d\n") := by
  intro t b a g p earlier later
  have hfacts : ((t.kind 45 = .array ∧ t.children 45 = [46]) ∧
        (t.kind 46 = .spread ∧ t.children 46 = [47]) ∧ t.kind 47 = .identifier) ∧
      t.text 45 = "[...l]" ∧ t.text 32 = "l.push(s);" := by
    decide +kernel
  obtain ⟨⟨harray, hspread, hname⟩, htext, hjumped⟩ := hfacts
  obtain ⟨hchecks, hg, -, -, hvalue, hjumps, hrewrite⟩ := sample_moves
  have hn : t.InPreorder := Tree.inPreorder_ofConcrete ..
  have hdiffer : Sample.data.eval t (b.key t) earlier 45 ≠
      Sample.data.eval t (b.key t) later 45 := by
    rw [ValueDomain.eval_spread hn harray hspread hname,
      ValueDomain.eval_spread hn harray hspread hname]
    intro heq
    -- One array is empty, and the other one has an element.
    cases Sample.Datum.array.inj heq
  exact ⟨⟨htext, (hchecks 45 (by simp)).2⟩, ⟨fun _ _ => rfl, hdiffer⟩,
    ⟨hg, hjumped, hjumps, hvalue⟩, hrewrite⟩

end MergePlan

end Declutter
