import Declutter.Proofs.Collection.Mutation
import Declutter.Proofs.Merge.Coverage

/-!
# Marked elements of merged collections

An iteration that knows the index may mark elements of a view as done, by statements `c[i] = v`.
When the view is merged, the mark becomes a field of the record.  A callback that iterates over the
records could take this field out of the record at its head; but what it then holds is the value
before any mark, so a field that is marked has to be read from the record each time.

The rewrite looks for marks among the accesses of the callback at its own index.  A member that is
marked only there, or nowhere, is read as it should be.  A mark at another index goes unnoticed,
also if it stands in a loop within the callback.

## Main definitions

* `MergePlan.Replaces` — whether some edits replace a node by a text.
* `MergePlan.TakesApart` — how an iteration reads the records after the rewrite.

## Main results

* `MergePlan.takesApart_of_contextDraft` — how an iteration is rewritten.
* `MergePlan.marked_not_taken` — a member that an iteration marks at its index stays in the record.
* `MergePlan.marked_within_taken` — a member that is marked in a loop within the callback.
-/

namespace Declutter

open Attempt

/-! ### Markers -/

/-- Whether a child of a subscript is its object, if it has that role, and an identifier, if it is a
name. -/
def Tree.IsObjectOf (t : Tree) (i c : NodeId) : Prop :=
  t.hasField c "object" = true → t.child? i "object" = some c ∧
    (t.isReferenceNode c = true → t.kind c = .identifier)

instance (t : Tree) (i c : NodeId) : Decidable (t.IsObjectOf i c) :=
  inferInstanceAs (Decidable (_ → _))

/-- What the grammars promise of subscripts: there is one object, and if it is a name, then one that
stands for its value. -/
def Tree.SubscriptShaped (t : Tree) : Prop :=
  ∀ i < t.nodes.size, t.kind i = .subscript → ∀ c ∈ t.children i, t.IsObjectOf i c

instance (t : Tree) : Decidable t.SubscriptShaped :=
  inferInstanceAs (Decidable (∀ i < _, _))

namespace BindingTable

variable {b : BindingTable} {t : Tree} {contexts : List ZipContext} {subscript : NodeId}
  {context : ZipContext}

/-- What marks an element assigns to it. -/
theorem Marks.isTarget (h : b.Marks t contexts subscript context) :
    t.isTarget subscript = true := by
  obtain ⟨assignment, statement, hparent, -, hkind, -, hleft, -⟩ := h.statement
  simp [Tree.isTarget, hparent, hkind, Kind.isAssignment, hleft]

/-- **A marker of an iteration** is one of the accesses at its index. -/
theorem Marks.mem_indexedAccesses (h : b.Marks t contexts subscript context) (hn : t.InPreorder)
    (hb : b.Accounted t) (hs : t.SubscriptShaped) {target : BindingId} {u : Usage}
    (hu : u ∈ (b.binding target).usages) (hparent : t.parent? u.node = some subscript)
    (hobject : t.hasField u.node "object" = true) (hkind : t.kind subscript = .subscript) :
    (subscript, target) ∈ b.indexedAccesses t context := by
  obtain ⟨-, hsize, href⟩ := hb.usage u hu
  have hmem := hn.mem_children_iff.mpr hparent
  have hin := Tree.lt_size_of_mem_children hmem
  obtain ⟨hchild, hname⟩ := hs subscript hin hkind u.node hmem hobject
  obtain ⟨place, hplace, hplaceKind, hindex⟩ := h.index
  have hbelow : subscript ∈ t.subtree context.body := by
    have hwithin : t.isWithin subscript context.body = true := by
      rw [Tree.isWithin, Tree.chain, List.contains_iff_mem]
      exact .tail _ h.iteration.2
    have hbounds := (hn.isWithin_iff hin).mp hwithin
    exact (hn.mem_subtree_iff (Nat.lt_of_le_of_lt hbounds.1 hin)).mpr hbounds
  refine List.mem_filterMap.mpr ⟨subscript, hbelow, ?_⟩
  have haccessed : b.accessedAt? t context.index subscript = some target := by
    simp [accessedAt?, hkind, hchild, hplace, hname href, hplaceKind, hindex, hb.of_usage u hu]
  rw [haccessed, Option.map_some]

end BindingTable

namespace MergePlan

/-! ### How an iteration reads the records -/

/-- Whether some edits replace a node by a text. -/
def Replaces (p : MergePlan) (edits : List Edit) (n : NodeId) (text : String) : Prop :=
  ∃ e ∈ edits, sameEdit ⟨p.tree.span n, text⟩ e = true

/-- A field of the record at the index of an iteration. -/
def fieldAt (p : MergePlan) (context : ZipContext) (target : BindingId) : String :=
  s!"{p.recordName}[" ++ (p.table.binding context.index).name ++ "]." ++ p.fieldOf target

/-- How an iteration reads the records after a rewrite: a callback takes out the element, and with
it the fields of some other members that it accesses at the index and does not write; every other
access at the index goes to the record. -/
structure TakesApart (p : MergePlan) (context : ZipContext) (locals : List BindingId)
    (edits : List Edit) : Prop where
  head : match context.indexing with
    | .loop _ => locals = []
    | .callback _ _ callback => ∃ first, (p.tree.functionParameters callback).head? = some first ∧
        p.Replaces edits first (recordText
          (entryText (p.fieldOf context.collection) (p.tree.text first) :: locals.map p.fieldOf))
  access : ∀ access ∈ p.memberAccesses context, p.Replaces edits access.1
    (if access.2 ∈ locals then p.fieldOf access.2 else p.fieldAt context access.2)
  accessed : ∀ target ∈ locals, target ≠ context.collection ∧
    ∃ n, (n, target) ∈ p.memberAccesses context
  unwritten : ∀ access ∈ p.memberAccesses context, access.2 ∈ locals →
    p.tree.isTarget access.1 = false

variable {p : MergePlan} {context : ZipContext} {locals : List BindingId} {edits more : List Edit}

theorem TakesApart.imp (h : p.TakesApart context locals edits)
    (hmore : ∀ n text, p.Replaces edits n text → p.Replaces more n text) :
    p.TakesApart context locals more := by
  refine ⟨?_, fun access haccess => hmore _ _ (h.access access haccess), h.accessed, h.unwritten⟩
  have hhead := h.head
  split
  · rename_i hindexing
    rw [hindexing] at hhead
    exact hhead
  · rename_i hindexing
    rw [hindexing] at hhead
    obtain ⟨first, hfirst, hpattern⟩ := hhead
    exact ⟨first, hfirst, hmore _ _ hpattern⟩

/-- An edit of a draft replaces what it is meant to, also when repetitions are gone. -/
theorem Replaces.of_ofEdits {r : Rewrite} {n : NodeId} {text : String}
    (h : p.Replaces edits n text) (hsub : edits ⊆ more)
    (hr : Rewrite.ofEdits (distinctBy sameEdit [] more) = .ok r) : p.Replaces r.edits n text := by
  obtain ⟨e, he, hsame⟩ := h
  obtain ⟨e', he', hsame'⟩ := exists_sameEdit_of_ofEdits hr (hsub he)
  simp only [sameEdit, Bool.and_eq_true, beq_iff_eq] at hsame hsame'
  refine ⟨e', he', ?_⟩
  simp [sameEdit, hsame, hsame']

theorem replaces_of_mem {n : NodeId} {text : String} (h : ⟨p.tree.span n, text⟩ ∈ edits) :
    p.Replaces edits n text :=
  ⟨_, h, by simp [sameEdit]⟩

/-- The text of an access, by whether its member was taken out of the record. -/
theorem accessText_eq {fields : List (BindingId × String)}
    (hfields : ∀ l ∈ fields, l.2 = p.fieldOf l.1) (target : BindingId) :
    p.accessText context fields target =
      if target ∈ fields.map (·.1) then p.fieldOf target else p.fieldAt context target := by
  unfold accessText
  cases hlookup : fields.lookup target with
  | none =>
    have hnone : target ∉ fields.map (·.1) := by
      intro hmem
      obtain ⟨l, hl, rfl⟩ := List.mem_map.mp hmem
      simpa using List.lookup_eq_none_iff.mp hlookup l hl
    rw [if_neg hnone, fieldAt]
  | some field =>
    have hmem : (target, field) ∈ fields := mem_of_lookup hlookup
    rw [if_pos (List.mem_map.mpr ⟨_, hmem, rfl⟩)]
    exact hfields _ hmem

/-- **How an iteration that knows the index is rewritten.** -/
theorem takesApart_of_contextDraft {draft : Draft} (h : p.contextDraft context = .ok draft)
    (hconcerns : p.concerns context = true) :
    ∃ locals, p.TakesApart context locals draft.edits := by
  obtain ⟨hother, -⟩ | ⟨-, ⟨head, fields⟩, hhead, hmarked, rfl⟩ := contextDraft_cases h
  · rw [hconcerns] at hother
    cases hother
  -- The accesses are rewritten alike, whatever the head is.
  have haccess : (∀ l ∈ fields, l.2 = p.fieldOf l.1) → ∀ access ∈ p.memberAccesses context,
      p.Replaces (head.edits ++ (p.memberAccesses context).map fun access =>
          ⟨p.tree.span access.1, p.accessText context fields access.2⟩) access.1
        (if access.2 ∈ fields.map (·.1) then p.fieldOf access.2
          else p.fieldAt context access.2) := by
    intro hfields access haccess
    rw [← accessText_eq hfields]
    exact replaces_of_mem (List.mem_append_right _ (List.mem_map_of_mem haccess))
  refine ⟨fields.map (·.1), ?_⟩
  obtain ⟨length, object, hindexing, -, heq⟩ |
    ⟨method, receiver, callback, first, fields', hindexing, hfirst, hlocals, heq⟩ :=
      headDraft_cases hhead
  · obtain ⟨rfl, rfl⟩ := Prod.mk.inj heq
    refine ⟨by rw [hindexing]; rfl, haccess (by simp), by simp, by simp⟩
  · obtain ⟨rfl, rfl⟩ := Prod.mk.inj heq
    have hlocal : ∀ l ∈ fields, _ := fun l hl => of_mem_localFields (hlocals ▸ hl)
    refine ⟨?_, haccess fun l hl => (hlocal l hl).1, ?_, ?_⟩
    · have hpattern : (fields.map (·.1)).map p.fieldOf = fields.map (·.2) := by
        rw [List.map_map]
        exact List.map_congr_left fun l hl => (hlocal l hl).1.symm
      rw [hindexing]
      refine ⟨first, hfirst, replaces_of_mem (List.mem_append_left _ ?_)⟩
      rw [hpattern]
      exact .tail _ (.head _)
    · intro target htarget
      obtain ⟨l, hl, rfl⟩ := List.mem_map.mp htarget
      exact ⟨(hlocal l hl).2.1, (hlocal l hl).2.2.1⟩
    · intro access haccess htarget
      obtain ⟨l, hl, heq⟩ := List.mem_map.mp htarget
      by_contra hwritten
      rw [Bool.not_eq_false] at hwritten
      exact (hlocal l hl).2.2.2 access.1 (heq ▸ haccess) (hmarked access haccess hwritten)

/-- A rewrite replaces what the drafts of its iterations do. -/
theorem exists_contextDraft {r : Rewrite} (h : p.rewrite = .ok r)
    (hcontext : context ∈ p.arena.contexts) :
    ∃ draft, p.contextDraft context = .ok draft ∧
      ∀ n text, p.Replaces draft.edits n text → p.Replaces r.edits n text := by
  obtain ⟨declared, used, -, hused, hedits⟩ := rewrite_eq_ok h
  obtain ⟨drafts, edits, hdrafts, -, -, hall⟩ := usageDraft_eq_ok hused
  obtain ⟨draft, hdraft, hok⟩ := exists_of_mapM hdrafts hcontext
  have hsub : draft.edits ⊆ declared.edits ++ used.edits := by
    intro e he
    rw [hall]
    exact List.mem_append_right _
      (List.mem_append_left _ (Draft.mem_edits_concat.mpr ⟨draft, hdraft, he⟩))
  exact ⟨draft, hok, fun n text hreplaces => hreplaces.of_ofEdits hsub hedits⟩

/-- **A member that an iteration marks stays in the record.**  Where a merge rewrites an iteration
that knows the index, its callback takes out the element and the fields of some other members; every
other access at the index goes to the record.  No access at the index to a member that is taken out
is a marker on record, so no marker of such a member belongs to this iteration. -/
theorem marked_not_taken (l : Language) (source : Bytes) (root : Concrete) (pure : List String)
    (marker : String) (g : Group) :
    let t := Tree.ofConcrete l source root
    let b := BindingTable.ofTree t
    let a := Arena.ofTree b t
    let p := ofGroup t b a pure marker t.spelledNames g
    ∀ r, p.rewrite = .ok r → ∀ context ∈ a.contexts, p.concerns context = true →
      ∃ locals, p.TakesApart context locals r.edits ∧
        (∀ target ∈ locals, ∀ n, (n, target) ∈ p.memberAccesses context →
          ∀ m other, (n, other) ∉ (a.collection m).markers) ∧
        (t.SubscriptShaped → ∀ target ∈ locals, ∀ m, (a.collection m).binding = target →
          ∀ n, (n, context) ∉ (a.collection m).markers) := by
  intro t b a p r hr context hcontext hconcerns
  have hn : t.InPreorder := Tree.inPreorder_ofConcrete l source root
  obtain ⟨draft, hok, hkept⟩ := exists_contextDraft hr hcontext
  obtain ⟨locals, htakes⟩ := takesApart_of_contextDraft hok hconcerns
  have hunmarked : ∀ target ∈ locals, ∀ n, (n, target) ∈ p.memberAccesses context →
      ∀ m other, (n, other) ∉ (a.collection m).markers := by
    intro target htarget n haccess m other hmarker
    have hwritten : t.isTarget n = true := (Arena.exists_usage_of_marker hmarker).2.isTarget
    have hunwritten : t.isTarget n = false := htakes.unwritten (n, target) haccess htarget
    rw [hwritten] at hunwritten
    cases hunwritten
  refine ⟨locals, htakes.imp hkept, hunmarked, ?_⟩
  rintro hs _ htarget m rfl n hmarker
  obtain ⟨⟨u, hu, hparent, hobject, hkind⟩, hmarks⟩ := Arena.exists_usage_of_marker hmarker
  have hindexed := hmarks.mem_indexedAccesses hn (BindingTable.accounted_ofTree t) hs hu hparent
    hobject hkind
  -- The member is taken out because of some access at the index, so it is one of the group.
  obtain ⟨-, k, hk⟩ := htakes.accessed _ htarget
  have hmember := (List.mem_filter.mp hk).2
  exact hunmarked _ htarget n (List.mem_filter.mpr ⟨hindexed, hmember⟩) m context hmarker

end MergePlan

/-! ### A program -/

namespace Sample

/-- The access `d[i]` at an offset. -/
def elementTree (k : Nat) (field : Option String := none) : Concrete :=
  construct "subscript_expression" k (k + 4)
    [nameTree k (some "object"), token "[" (k + 1), nameTree (k + 2) (some "index"),
      token "]" (k + 3)] field

/-- The statement `d[i] = true;` at an offset. -/
def markStatement (k : Nat) : Concrete :=
  statementTree (construct "assignment_expression" k (k + 11) [
    elementTree k (some "left"), token "=" (k + 5),
    construct "true" (k + 7) (k + 11) [] (some "right")])

/-- The loop `for (let j = 0; j < a.length; j++) { … }` at an offset, around a statement that marks
an element. -/
def markingLoop (k : Nat) : Concrete :=
  construct "for_statement" k (k + 57) [
    token "for" k, token "(" (k + 4),
    construct "lexical_declaration" (k + 5) (k + 15) [
      token "let" (k + 5) (some "kind"),
      construct "variable_declarator" (k + 9) (k + 14) [
        nameTree (k + 9) (some "name"), token "=" (k + 11),
        construct "number" (k + 13) (k + 14) [] (some "value")],
      token ";" (k + 14)] (some "initializer"),
    construct "binary_expression" (k + 16) (k + 28) [
      nameTree (k + 16) (some "left"), token "<" (k + 18) (some "operator"),
      construct "member_expression" (k + 20) (k + 28) [
        nameTree (k + 20) (some "object"), token "." (k + 21),
        construct "property_identifier" (k + 22) (k + 28) [] (some "property")] (some "right")]
      (some "condition"),
    token ";" (k + 28),
    construct "update_expression" (k + 30) (k + 33)
      [nameTree (k + 30) (some "argument"), token "++" (k + 31) (some "operator")]
      (some "increment"),
    token ")" (k + 33),
    construct "statement_block" (k + 35) (k + 57)
      [token "\x7b" (k + 35), markStatement (k + 41), token "\x7d" (k + 56)] (some "body")]

/-- One view is marked at the index of a callback, and another one in a loop within it. -/
def done : Bytes := Utf8.encode ("const src = get();\nconst a = src.map(s => s.x);\n" ++
  "const d = src.map(s => s.y);\nconst e = src.map(s => s.z);\na.forEach((v, i) => \x7b\n" ++
  "  for (let j = 0; j < a.length; j++) \x7b\n    d[j] = true;\n  \x7d\n  e[i] = true;\n" ++
  "  f(d[i], e[i]);\n\x7d);\n")

/-- The tree of `done`. -/
def doneTree : Concrete :=
  construct "program" 0 224 [
    sourceDeclaration, viewDeclaration 19, viewDeclaration 48, viewDeclaration 77,
    statementTree (construct "call_expression" 106 222 [
      construct "member_expression" 106 115 [
        nameTree 106 (some "object"), token "." 107,
        construct "property_identifier" 108 115 [] (some "property")] (some "function"),
      construct "arguments" 115 222 [
        token "(" 115,
        construct "arrow_function" 116 221 [
          construct "formal_parameters" 116 122
            [token "(" 116, nameTree 117, token "," 118, nameTree 120, token ")" 121]
            (some "parameters"),
          token "=>" 123,
          construct "statement_block" 126 221 [
            token "\x7b" 126, markingLoop 130, markStatement 190,
            statementTree (construct "call_expression" 205 218 [
              nameTree 205 (some "function"),
              construct "arguments" 206 218
                [token "(" 206, elementTree 207, token "," 211, elementTree 213, token ")" 217]
                (some "arguments")]),
            token "\x7d" 220] (some "body")],
        token ")" 221] (some "arguments")])]

/-- The iteration of the callback. -/
def doneContext : ZipContext := ⟨47, 1, 8, 56, .callback "forEach" 49 52⟩

/-- The iteration of the loop within the callback. -/
def doneLoop : ZipContext := ⟨57, 1, 9, 69, .loop 64⟩

end Sample

namespace MergePlan

/-- The views are merged; the callback accesses two of them at its index, and marks one. -/
theorem sample_done :
    let t := Tree.ofConcrete .javascript Sample.done Sample.doneTree
    let b := BindingTable.ofTree t
    let a := Arena.ofTree b t
    let g : Group := ⟨[1, 2, 3], 0, .derivedViews, none, false⟩
    let p := ofGroup t b a [] "" t.spelledNames g
    (g ∈ a.groups b t ∧ 2 ∈ p.removed ∧ t.SubscriptShaped ∧
        t.isWithin 72 Sample.doneContext.body = true) ∧
      (a.contexts = [Sample.doneContext, Sample.doneLoop] ∧
        p.concerns Sample.doneContext = true ∧
        p.memberAccesses Sample.doneContext = [(78, 5), (86, 3), (89, 5)]) ∧
      ((b.binding 3).name = "d" ∧ (a.collection 2).binding = 3 ∧
        (a.collection 2).markers = [(72, Sample.doneLoop)] ∧ (a.collection 3).binding = 5 ∧
        (a.collection 3).markers = [(78, Sample.doneContext)]) ∧
      ∃ r, p.rewrite = .ok r ∧ ⟨t.span 54, "\x7b aItem: v, dItem \x7d"⟩ ∈ r.edits ∧
        ⟨t.span 72, "srcRecords[j].dItem"⟩ ∈ r.edits ∧ ⟨t.span 86, "dItem"⟩ ∈ r.edits := by
  intro t b a g p
  have hfacts : (a.groups b t = [g] ∧ 2 ∈ p.removed ∧ t.SubscriptShaped ∧
        t.isWithin 72 Sample.doneContext.body = true) ∧
      (a.contexts = [Sample.doneContext, Sample.doneLoop] ∧
        p.concerns Sample.doneContext = true ∧
        p.memberAccesses Sample.doneContext = [(78, 5), (86, 3), (89, 5)]) ∧
      ((b.binding 3).name = "d" ∧ (a.collection 2).binding = 3 ∧
        (a.collection 2).markers = [(72, Sample.doneLoop)] ∧ (a.collection 3).binding = 5 ∧
        (a.collection 3).markers = [(78, Sample.doneContext)]) ∧
      p.rewrite.toOption.map (fun r => [⟨t.span 54, "\x7b aItem: v, dItem \x7d"⟩,
        ⟨t.span 72, "srcRecords[j].dItem"⟩, ⟨t.span 86, "dItem"⟩].map r.edits.contains) =
          some [true, true, true] := by
    decide +kernel
  obtain ⟨⟨hgroups, hshape⟩, hcontexts, hmarkers, hrewrite⟩ := hfacts
  obtain ⟨r, hr, hedits⟩ := exists_of_toOption_map hrewrite
  simp only [List.map_cons, List.map_nil, List.cons.injEq, and_true, List.contains_iff_mem]
    at hedits
  exact ⟨⟨by rw [hgroups]; exact .head _, hshape⟩, hcontexts, hmarkers, r, hr, hedits⟩

/-- The view that is marked at the index of the callback is not taken out. -/
theorem sample_marked_not_taken :
    let t := Tree.ofConcrete .javascript Sample.done Sample.doneTree
    let b := BindingTable.ofTree t
    let a := Arena.ofTree b t
    let g : Group := ⟨[1, 2, 3], 0, .derivedViews, none, false⟩
    let p := ofGroup t b a [] "" t.spelledNames g
    (t.SubscriptShaped ∧ Sample.doneContext ∈ a.contexts ∧
        p.concerns Sample.doneContext = true) ∧
      ∃ r, p.rewrite = .ok r ∧ ∃ locals, p.TakesApart Sample.doneContext locals r.edits ∧
        5 ∉ locals ∧ ∀ target ∈ locals, ∀ m, (a.collection m).binding = target →
          ∀ n, (n, Sample.doneContext) ∉ (a.collection m).markers := by
  intro t b a g p
  obtain ⟨⟨-, -, hshaped, -⟩, ⟨hcontexts, hconcerns, haccesses⟩, ⟨-, -, -, -, hmarkers⟩, r, hr,
    -⟩ := sample_done
  have hcontext : Sample.doneContext ∈ a.contexts := by
    rw [hcontexts]
    exact .head _
  obtain ⟨locals, htakes, hunmarked, hnone⟩ := marked_not_taken .javascript Sample.done
    Sample.doneTree [] "" g r hr Sample.doneContext hcontext hconcerns
  refine ⟨⟨hshaped, hcontext, hconcerns⟩, r, hr, locals, htakes, ?_, hnone hshaped⟩
  intro hlocal
  refine hunmarked 5 hlocal 78 ?_ 3 Sample.doneContext ?_
  · rw [haccesses]
    exact .head _
  · rw [hmarkers]
    exact .head _

/-- **The exception.**  The view `d` is marked in a loop within the callback, at the index of the
loop.  The callback takes its field out of the record at its head, so what it reads behind the loop
is the value before the mark. -/
theorem marked_within_taken :
    let t := Tree.ofConcrete .javascript Sample.done Sample.doneTree
    let b := BindingTable.ofTree t
    let a := Arena.ofTree b t
    let g : Group := ⟨[1, 2, 3], 0, .derivedViews, none, false⟩
    let p := ofGroup t b a [] "" t.spelledNames g
    (g ∈ a.groups b t ∧ 2 ∈ p.removed ∧ (b.binding (a.collection 2).binding).name = "d" ∧
        (72, Sample.doneLoop) ∈ (a.collection 2).markers ∧
        t.isWithin 72 Sample.doneContext.body = true ∧
        (86, (a.collection 2).binding) ∈ p.memberAccesses Sample.doneContext) ∧
      ∃ r, p.rewrite = .ok r ∧ ⟨t.span 54, "\x7b aItem: v, dItem \x7d"⟩ ∈ r.edits ∧
        ⟨t.span 72, "srcRecords[j].dItem"⟩ ∈ r.edits ∧ ⟨t.span 86, "dItem"⟩ ∈ r.edits := by
  intro t b a g p
  obtain ⟨⟨hg, hremoved, -, hwithin⟩, ⟨-, -, haccesses⟩, ⟨hname, hbinding, hmarkers, -⟩,
    hrewrite⟩ := sample_done
  rw [hbinding, hmarkers, haccesses]
  exact ⟨⟨hg, hremoved, hname, .head _, hwithin, .tail _ (.head _)⟩, hrewrite⟩

end MergePlan

end Declutter
