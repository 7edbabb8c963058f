import Declutter.Proofs.Analysis.RecordNames
import Declutter.Proofs.Binding.Visibility
import Declutter.Proofs.Merge.Marking
import Declutter.Proofs.Naming
import Declutter.Proofs.Rewrite.Mentions

/-!
# The names that a merge introduces

A merge declares its collection of records under a new name; it makes up a parameter for the
function that derives the records, if the callbacks of the members have none; and an iteration that
knows the index takes the fields that it reads out of the record, as new names beside the element.
All of these names are fresh: no identifier of the program spells them, so no reference of the
program comes to mean what they stand for, and no declaration of the program takes their place.

## Main definitions

* `MergePlan.newLocals` — the names that a callback takes out of the record.
* `MergePlan.Introduces` — the names that a rewrite introduces.
* `Tree.IsUnused` — whether a name occurs nowhere in a program.

## Main results

* `MergePlan.FieldsApart.eq_of_fieldOf_eq` — members have different fields.
* `MergePlan.FieldsApart.nodup_newLocals` — the names in one callback differ.
* `MergePlan.Introduces.notMem_names` — a name that is introduced is not in use.
* `MergePlan.introduced_names_fresh` — what this means for a program.
-/

namespace Declutter

theorem nodup_eraseDups {α : Type} [BEq α] [LawfulBEq α] (l : List α) : l.eraseDups.Nodup := by
  induction hk : l.length using Nat.strongRecOn generalizing l with
  | ind k ih =>
    cases l with
    | nil => exact List.nodup_nil
    | cons a rest =>
      rw [List.eraseDups_cons]
      refine List.nodup_cons.mpr ⟨?_, ih _ ?_ _ rfl⟩
      · simp [List.mem_eraseDups]
      · rw [← hk, List.length_cons]
        exact Nat.lt_succ_of_le (List.length_filter_le _ _)

theorem mem_spelledNames {t : Tree} {name : String} :
    name ∈ t.spelledNames ↔
      ∃ n < t.nodes.size, t.isReferenceNode n = true ∧ t.text n = name := by
  simp [Tree.spelledNames, Tree.ids, and_assoc]

/-- Whether a name occurs nowhere in a program: no identifier spells it, and no scope knows it. -/
structure Tree.IsUnused (t : Tree) (name : String) : Prop where
  not_spelled : ∀ n < t.nodes.size, t.isReferenceNode n = true → t.text n ≠ name
  not_resolved : ∀ s, (BindingTable.ofTree t).resolve? t name s = none

/-- A name that no identifier spells is known to no scope. -/
theorem Tree.isUnused_of_notMem {t : Tree} {name : String} (h : name ∉ t.spelledNames) :
    t.IsUnused name := by
  have hspelled : ∀ n < t.nodes.size, t.isReferenceNode n = true → t.text n ≠ name :=
    fun n hn href heq => h (mem_spelledNames.mpr ⟨n, hn, href, heq⟩)
  refine ⟨hspelled, fun s => ?_⟩
  cases hi : (BindingTable.ofTree t).resolve? t name s with
  | none => rfl
  | some i =>
    -- A binding has the name of the identifier that declares it.
    have hbinding := BindingTable.spelled_ofTree t (BindingTable.lt_size_of_resolve hi)
    have hname := BindingTable.name_of_resolve hi
    exact absurd (hbinding.name_eq.symm.trans hname)
      (hspelled _ (Tree.lt_size_of_isReferenceNode hbinding.isReferenceNode)
        hbinding.isReferenceNode)

namespace MergePlan

/-! ### Fields -/

section

variable {nameOf : BindingId → String} {taken : List String} {members : List BindingId}

theorem notMem_of_chooseFields {entry : BindingId × String}
    (h : entry ∈ chooseFields nameOf taken members) : entry.2 ∉ taken := by
  induction members generalizing taken with
  | nil => cases h
  | cons i rest ih =>
    rw [chooseFields] at h
    rcases List.mem_cons.mp h with rfl | h
    · exact fresh_notMem _ _
    · exact fun hmem => ih h (List.mem_append_left _ hmem)

/-- The fields that are chosen differ. -/
theorem nodup_chooseFields : ((chooseFields nameOf taken members).map (·.2)).Nodup := by
  induction members generalizing taken with
  | nil => exact List.nodup_nil
  | cons i rest ih =>
    rw [chooseFields]
    refine List.nodup_cons.mpr ⟨fun hmem => ?_, ih⟩
    obtain ⟨entry, hentry, heq⟩ := List.mem_map.mp hmem
    exact notMem_of_chooseFields hentry (List.mem_append_right _ (List.mem_singleton.mpr heq))

/-- Every member gets a field. -/
theorem map_fst_chooseFields : (chooseFields nameOf taken members).map (·.1) = members := by
  induction members generalizing taken with
  | nil => rfl
  | cons i rest ih => rw [chooseFields, List.map_cons, ih]

end

variable {p : MergePlan} {context : ZipContext} {edits : List Edit} {name : String}

/-- Whether the members have fields, and different ones. -/
structure FieldsApart (p : MergePlan) : Prop where
  keys : p.fields.map (·.1) = p.group.members.map p.bindingId
  nodup : (p.fields.map (·.2)).Nodup

theorem fieldsApart_ofGroup (t : Tree) (b : BindingTable) (a : Arena) (pure : List String)
    (marker : String) (names : List String) (g : Group) :
    (ofGroup t b a pure marker names g).FieldsApart :=
  ⟨map_fst_chooseFields, nodup_chooseFields⟩

theorem FieldsApart.mem_fields (h : p.FieldsApart) {i : BindingId} (hi : p.hasMember i = true) :
    (i, p.fieldOf i) ∈ p.fields := by
  have hkey : i ∈ p.fields.map (·.1) := by
    rw [h.keys]
    exact List.contains_iff_mem.mp hi
  obtain ⟨entry, hentry, rfl⟩ := List.mem_map.mp hkey
  obtain ⟨field, hfield⟩ : ∃ field, p.fields.lookup entry.1 = some field := by
    rw [← Option.isSome_iff_exists, List.lookup_isSome_iff]
    exact ⟨entry, hentry, beq_self_eq_true _⟩
  rw [fieldOf, hfield]
  exact mem_of_lookup hfield

/-- **Members have different fields.** -/
theorem FieldsApart.eq_of_fieldOf_eq (h : p.FieldsApart) {i j : BindingId}
    (hi : p.hasMember i = true) (hj : p.hasMember j = true) (heq : p.fieldOf i = p.fieldOf j) :
    i = j :=
  congrArg Prod.fst (List.inj_on_of_nodup_map h.nodup (h.mem_fields hi) (h.mem_fields hj) heq)

/-! ### What a callback takes out of the record -/

/-- The names that a callback takes out of the record, beside the element that its parameter stands
for. -/
def newLocals (p : MergePlan) (context : ZipContext) (first : NodeId) : List String :=
  (p.localFields context (p.memberAccesses context) (p.fieldOf context.collection)
    (p.tree.text first)).map (·.2)

/-- What takes the place of the parameter of a callback: the field of the element with the
parameter, and the names that are taken out besides. -/
def patternText (p : MergePlan) (context : ZipContext) (first : NodeId) : String :=
  recordText (entryText (p.fieldOf context.collection) (p.tree.text first) ::
    p.newLocals context first)

/-- A name that is taken out is a field of a member, is not in use, and is neither the parameter nor
the field of the element. -/
theorem of_mem_newLocals {first : NodeId} (h : name ∈ p.newLocals context first) :
    (∃ target, p.hasMember target = true ∧ target ≠ context.collection ∧
        name = p.fieldOf target) ∧
      name ∉ p.names ∧ name ≠ p.tree.text first ∧ name ≠ p.fieldOf context.collection := by
  obtain ⟨l, hl, rfl⟩ := List.mem_map.mp h
  obtain ⟨hfield, hother, ⟨n, hn⟩, -⟩ := of_mem_localFields hl
  obtain ⟨target, -, htaken⟩ := List.mem_filterMap.mp hl
  dsimp only at htaken
  split at htaken
  · cases htaken
  rename_i hkeep
  obtain rfl := Option.some.inj htaken
  simp only [Bool.or_eq_true, not_or, beq_iff_eq, List.contains_iff_mem] at hkeep
  exact ⟨⟨target, (List.mem_filter.mp hn).2, hother, rfl⟩, hkeep.1.1.2, hkeep.1.2, hkeep.2⟩

/-- **The names that are taken out in one callback differ.** -/
theorem FieldsApart.nodup_newLocals (h : p.FieldsApart) (context : ZipContext) (first : NodeId) :
    (p.newLocals context first).Nodup := by
  refine List.Nodup.map_on (fun l hl k hk heq => ?_)
    (List.Nodup.filterMap (fun target target' l hl hl' => ?_) (nodup_eraseDups _))
  · -- Each is the field of its member, and members have different fields.
    obtain ⟨hl₁, -, ⟨n, hn⟩, -⟩ := of_mem_localFields hl
    obtain ⟨hk₁, -, ⟨m, hm⟩, -⟩ := of_mem_localFields hk
    have hfst : l.1 = k.1 := h.eq_of_fieldOf_eq (List.mem_filter.mp hn).2 (List.mem_filter.mp hm).2
      (hl₁.symm.trans (heq.trans hk₁))
    exact Prod.ext hfst heq
  · dsimp only at hl hl'
    split at hl
    · cases hl
    split at hl'
    · cases hl'
    rw [Option.mem_def, Option.some.injEq] at hl hl'
    exact congrArg Prod.fst (hl.trans hl'.symm)

/-! ### What is introduced -/

/-- The names that some edits of a merge introduce: that of the collection of records, which they
declare; the parameter that is made up if no callback has one; and the names that callbacks take out
of the record. -/
inductive Introduces (p : MergePlan) (edits : List Edit) : String → Prop
  | record {d : NodeId} {value : String}
      (hedit : p.Replaces edits d (p.declarationText value d)) : Introduces p edits p.recordName
  | parameter {d : NodeId} {value : String} (hpattern : p.group.pattern = .derivedViews)
      (hnone : ∀ m ∈ p.removed, (p.collection m).derivation = .map → p.callbackParameter? m = none)
      (hvalue : p.IsViewValue value) (hedit : p.Replaces edits d (p.declarationText value d)) :
      Introduces p edits p.viewParameter
  | taken {context : ZipContext} {method : String} {receiver callback first : NodeId}
      {name : String} (hcontext : context ∈ p.arena.contexts)
      (hindexing : context.indexing = .callback method receiver callback)
      (hfirst : (p.tree.functionParameters callback).head? = some first)
      (hedit : p.Replaces edits first (p.patternText context first))
      (hname : name ∈ p.newLocals context first) : Introduces p edits name

/-- The parameter that is made up if no callback has one. -/
theorem viewParameter_eq
    (hnone : ∀ m ∈ p.removed, (p.collection m).derivation = .map →
      p.callbackParameter? m = none) :
    p.viewParameter = fresh (if singularize (p.nameOf p.group.anchor) == p.nameOf p.group.anchor
      then "item" else singularize (p.nameOf p.group.anchor)) p.names := by
  have hall : (p.removed.filter fun m => (p.collection m).derivation == .map).findSome?
      p.callbackParameter? = none := by
    rw [List.findSome?_eq_none_iff]
    intro m hm
    obtain ⟨hremoved, hmap⟩ := List.mem_filter.mp hm
    exact hnone m hremoved (by simpa using hmap)
  rw [viewParameter, parameterName, hall]

/-- **A name that is introduced is not in use.** -/
theorem Introduces.notMem_names (hrecord : p.recordName ∉ p.names) (h : p.Introduces edits name) :
    name ∉ p.names := by
  cases h with
  | record _ => exact hrecord
  | parameter _ hnone _ _ =>
    rw [viewParameter_eq hnone]
    exact fresh_notMem _ _
  | taken _ _ _ _ hname => exact (of_mem_newLocals hname).2.1

/-! ### A rewrite introduces them -/

section

variable {r : Rewrite} (h : p.rewrite = .ok r)
include h

theorem introduces_recordName : p.Introduces r.edits p.recordName := by
  obtain ⟨declared, used, hdeclared, -, hr⟩ := rewrite_eq_ok h
  obtain ⟨m, -, d, value, -, hmem⟩ := exists_declaration_of_draft hdeclared
  exact .record ((replaces_of_mem hmem).of_ofEdits (List.subset_append_left _ _) hr)

theorem introduces_viewParameter (hpattern : p.group.pattern = .derivedViews)
    (hnone : ∀ m ∈ p.removed, (p.collection m).derivation = .map →
      p.callbackParameter? m = none) : p.Introduces r.edits p.viewParameter := by
  obtain ⟨declared, used, hdeclared, -, hr⟩ := rewrite_eq_ok h
  rw [declarationDraft, hpattern] at hdeclared
  obtain ⟨declarations, value, -, hdeclarations, -, hvalue, rfl⟩ := viewDraft_eq_ok hdeclared
  obtain ⟨m, -, d, -, hmem⟩ := exists_declaration_of_edits hdeclarations fun e he => he
  exact .parameter hpattern hnone hvalue
    ((replaces_of_mem hmem).of_ofEdits (List.subset_append_left _ _) hr)

/-- The callback of an iteration takes its new names out of the record. -/
theorem exists_pattern (hcontext : context ∈ p.arena.contexts)
    (hconcerns : p.concerns context = true) {method : String} {receiver callback : NodeId}
    (hindexing : context.indexing = .callback method receiver callback) :
    ∃ first, (p.tree.functionParameters callback).head? = some first ∧
      p.Replaces r.edits first (p.patternText context first) := by
  obtain ⟨draft, hok, hkept⟩ := exists_contextDraft h hcontext
  obtain ⟨hother, -⟩ | ⟨-, head, hhead, -, rfl⟩ := contextDraft_cases hok
  · rw [hconcerns] at hother
    cases hother
  obtain ⟨length, object, hloop, -⟩ |
    ⟨method', receiver', callback', first, locals, hcallback, hfirst, rfl, rfl⟩ :=
      headDraft_cases hhead
  · rw [hindexing] at hloop
    cases hloop
  · rw [hindexing] at hcallback
    cases hcallback
    exact ⟨first, hfirst, hkept _ _ (replaces_of_mem (List.mem_append_left _ (.tail _ (.head _))))⟩

end

/-- **The names that a merge introduces are fresh.**  A rewrite declares its collection of records;
derives it with a parameter of its own if no callback has one; and every callback that it changes
takes names out of the record that differ from one another, from the parameter and from the field of
the element.  None of these names is spelled by an identifier of the program or known to one of its
scopes. -/
theorem introduced_names_fresh (l : Language) (source : Bytes) (root : Concrete)
    (pure : List String) (marker : String) (g : Group) :
    let t := Tree.ofConcrete l source root
    let b := BindingTable.ofTree t
    let a := Arena.ofTree b t
    let p := ofGroup t b a pure marker t.spelledNames g
    ∀ r, p.rewrite = .ok r →
      (p.Introduces r.edits p.recordName ∧
        (g.pattern = .derivedViews → (∀ m ∈ p.removed, (a.collection m).derivation = .map →
          p.callbackParameter? m = none) → p.Introduces r.edits p.viewParameter) ∧
        ∀ context ∈ a.contexts, p.concerns context = true → ∀ method receiver callback,
          context.indexing = .callback method receiver callback → ∃ first,
            (t.functionParameters callback).head? = some first ∧
            p.Replaces r.edits first (p.patternText context first) ∧
            (∀ name ∈ p.newLocals context first, p.Introduces r.edits name) ∧
            (t.text first :: p.newLocals context first).Nodup ∧
            p.fieldOf context.collection ∉ p.newLocals context first) ∧
      ∀ name, p.Introduces r.edits name → t.IsUnused name := by
  intro t b a p r hr
  have hrecord : p.recordName ∉ p.names := fresh_notMem _ _
  refine ⟨⟨introduces_recordName hr, introduces_viewParameter hr,
    fun context hcontext hconcerns method receiver callback hindexing => ?_⟩,
    fun name hname => Tree.isUnused_of_notMem (hname.notMem_names hrecord)⟩
  obtain ⟨first, hfirst, hpattern⟩ := exists_pattern hr hcontext hconcerns hindexing
  have hapart : p.FieldsApart := fieldsApart_ofGroup t b a pure marker t.spelledNames g
  refine ⟨first, hfirst, hpattern,
    fun name hname => .taken hcontext hindexing hfirst hpattern hname,
    List.nodup_cons.mpr ⟨fun hmem => ?_, hapart.nodup_newLocals context first⟩, fun hmem => ?_⟩
  · exact (of_mem_newLocals hmem).2.2.1 rfl
  · exact (of_mem_newLocals hmem).2.2.2 rfl

end MergePlan

/-! ### A program -/

namespace Sample

/-- The statement `a.forEach((v, i) => f(…));` at an offset, where what `f` is given has some
length. -/
def iterationTree (k n : Nat) (given : List Concrete) : Concrete :=
  statementTree (construct "call_expression" k (k + n + 24) [
    construct "member_expression" k (k + 9) [
      nameTree k (some "object"), token "." (k + 1),
      construct "property_identifier" (k + 2) (k + 9) [] (some "property")] (some "function"),
    construct "arguments" (k + 9) (k + n + 24) [
      token "(" (k + 9),
      construct "arrow_function" (k + 10) (k + n + 23) [
        construct "formal_parameters" (k + 10) (k + 16)
          [token "(" (k + 10), nameTree (k + 11), token "," (k + 12), nameTree (k + 14),
            token ")" (k + 15)] (some "parameters"),
        token "=>" (k + 17),
        construct "call_expression" (k + 20) (k + n + 23) [
          nameTree (k + 20) (some "function"),
          construct "arguments" (k + 21) (k + n + 23)
            (token "(" (k + 21) :: given ++ [token ")" (k + n + 22)]) (some "arguments")]
          (some "body")],
      token ")" (k + n + 23)] (some "arguments")])

/-- Two copies of one collection, the second one read at the index of an iteration over the
first. -/
def paired : Bytes := Utf8.encode ("const items = get();\nconst a = items.slice();\n" ++
  "const b = items.slice();\na.forEach((v, i) => f(b[i]));\n")

/-- The tree of `paired`. -/
def pairedTree : Concrete :=
  construct "program" 0 101 [
    listDeclaration 0 5, copyDeclaration 21 5, copyDeclaration 46 5,
    iterationTree 71 4 [elementTree 93]]

/-- The iteration over the first copy. -/
def pairedContext : ZipContext := ⟨24, 1, 4, 33, .callback "forEach" 26 29⟩

end Sample

/-- The merge of the copies introduces a name of each sort. -/
theorem sample_introduced_names :
    let t := Tree.ofConcrete .javascript Sample.paired Sample.pairedTree
    let b := BindingTable.ofTree t
    let a := Arena.ofTree b t
    let g : Group := ⟨[1, 2], 0, .derivedViews, none, false⟩
    let p := MergePlan.ofGroup t b a [] "" t.spelledNames g
    g ∈ a.groups b t ∧ ∃ r, p.rewrite = .ok r ∧
      ∀ name ∈ ["itemRecords", "item", "bItem"], p.Introduces r.edits name ∧ t.IsUnused name := by
  intro t b a g p
  have hfacts : (a.groups b t = [g] ∧ a.contexts = [Sample.pairedContext]) ∧
      (p.recordName = "itemRecords" ∧ p.viewParameter = "item" ∧
        ∀ m ∈ p.removed, (a.collection m).derivation = .map → p.callbackParameter? m = none) ∧
      (p.concerns Sample.pairedContext = true ∧
        ∀ first ∈ (t.functionParameters 29).head?,
          "bItem" ∈ p.newLocals Sample.pairedContext first) ∧
      p.rewrite.toOption.isSome = true := by
    decide +kernel
  obtain ⟨⟨hgroups, hcontexts⟩, ⟨hrecord, hparameter, hnone⟩, ⟨hconcerns, hlocal⟩, hrewrite⟩ :=
    hfacts
  obtain ⟨r, hr⟩ := Option.isSome_iff_exists.mp hrewrite
  have hr := Attempt.toOption_eq_some.mp hr
  obtain ⟨⟨hintroduced, hmade, hcallbacks⟩, hunused⟩ := MergePlan.introduced_names_fresh .javascript
    Sample.paired Sample.pairedTree [] "" g r hr
  have hcontext : Sample.pairedContext ∈ a.contexts := by
    rw [hcontexts]
    exact .head _
  obtain ⟨first, hfirst, -, htaken, -⟩ :=
    hcallbacks Sample.pairedContext hcontext hconcerns "forEach" 26 29 rfl
  refine ⟨by rw [hgroups]; exact .head _, r, hr, fun name hname => ?_⟩
  have hall : p.Introduces r.edits name := by
    simp only [List.mem_cons, List.not_mem_nil, or_false] at hname
    rcases hname with rfl | rfl | rfl
    · exact hrecord ▸ hintroduced
    · exact hparameter ▸ hmade rfl hnone
    · exact htaken _ (hlocal first hfirst)
  exact ⟨hall, hunused name hall⟩

end Declutter
