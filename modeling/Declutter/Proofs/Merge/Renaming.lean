import Declutter.Proofs.Binding.Exactness
import Declutter.Proofs.Collection.Mutation
import Declutter.Proofs.Merge.Parts
import Declutter.Proofs.Rewrite.Placement

/-!
# Renaming the parameter of a callback

The callbacks of merged views come to share one parameter, so the parameter of a callback gets a new
name in its body.  The references to it are replaced and nothing else is; where the new name stands
for something else in the body already, there is no merge.

Only identifiers and shorthand properties are looked at.  The shorthand names of patterns refer and
declare as well, but they are neither replaced nor asked whether they are spelled like the new name:
a pattern in the body may capture the references that were replaced.

## Main definitions

* `MergePlan.parameterBinding?` — what the parameter of a callback declares.
* `MergePlan.renameEdits` — the edits that give it a new name.
* `Tree.HasLeafNames` — what the grammars promise of names.

## Main results

* `MergePlan.editedText_eq` — the text of a node with edits in it.
* `MergePlan.nameNode_of_parameterBinding` — the parameter of a callback is declared outside its
  body.
* `MergePlan.renamed_body` — what the body of a callback is after its parameter was renamed.
* `MergePlan.pattern_captures` — the exception.
-/

namespace Declutter

open Attempt

/-! ### Names in the order of the source -/

namespace Tree

/-- What the grammars promise of names: they have no parts. -/
def HasLeafNames (t : Tree) : Prop :=
  ∀ n < t.nodes.size, t.isReferenceNode n = true → t.children n = []

instance (t : Tree) : Decidable t.HasLeafNames :=
  inferInstanceAs (Decidable (∀ n < _, t.isReferenceNode n = true → t.children n = []))

/-- Whether an identifier is a shorthand name in a pattern. -/
def IsPatternName (t : Tree) (n : NodeId) : Prop :=
  t.type n = "shorthand_property_identifier_pattern"

instance (t : Tree) (n : NodeId) : Decidable (t.IsPatternName n) :=
  inferInstanceAs (Decidable (t.type n = _))

variable {t : Tree} {i n f : NodeId} {names : List NodeId}

/-- Some names within a construct follow one another in the source. -/
theorem pairwise_names (ho : t.Ordered) (hs : t.Spaced) (hn : t.InPreorder)
    (hleaf : t.HasLeafNames) (hsub : names.Sublist (t.subtree i))
    (hnames : ∀ n ∈ names, t.isReferenceNode n = true) :
    names.Pairwise fun n m => (t.span n).stop ≤ (t.span m).start := by
  have hlt : names.Pairwise (· < ·) := List.Pairwise.sublist hsub List.pairwise_lt_range'
  refine hlt.imp_of_mem fun {n m} hnmem hmmem hnm => ?_
  have hnsize := hn.lt_size_of_mem_subtree (hsub.subset hnmem)
  have hmsize := hn.lt_size_of_mem_subtree (hsub.subset hmmem)
  have hstop : n + 1 = t.stop n := by
    have htiles := hn.tiles n hnsize
    rw [hleaf n hnsize (hnames n hnmem)] at htiles
    exact htiles
  exact ho.stop_le_start hs hn hnsize (hstop ▸ hnm) hmsize

/-! ### The parameter of a function -/

/-- **What a parameter is**: a part of the function outside its body, or the pattern of a part that
has a type. -/
theorem exists_part_of_functionParameter (h : n ∈ t.functionParameters f) :
    ∃ part, (t.child? f "parameter" = some part ∨
        ∃ list, t.child? f "parameters" = some list ∧ part ∈ t.children list) ∧
      (n = part ∨
        (t.type part = "required_parameter" ∨ t.type part = "optional_parameter") ∧
          t.child? part "pattern" = some n) := by
  unfold functionParameters at h
  split at h
  · rename_i single hsingle
    exact ⟨single, .inl hsingle, .inl (List.mem_singleton.mp h)⟩
  · rename_i list _ hlist
    obtain ⟨part, hpart, hpattern⟩ := List.mem_filterMap.mp h
    refine ⟨part, .inr ⟨list, hlist, hpart⟩, ?_⟩
    unfold parameterPattern? at hpattern
    split at hpattern
    · rename_i htype
      rw [Bool.or_eq_true, beq_iff_eq, beq_iff_eq] at htype
      cases hinner : t.child? part "pattern" with
      | none =>
        rw [hinner] at hpattern
        exact .inl (Option.some.inj hpattern).symm
      | some pattern =>
        rw [hinner] at hpattern
        exact .inr ⟨htype, hpattern⟩
    · split at hpattern
      · cases hpattern
      · exact .inl (Option.some.inj hpattern).symm
  · cases h

section

variable (hn : t.InPreorder)
include hn

/-- No parameter of a function stands within its body. -/
theorem parameter_outside_body {body : NodeId} (h : n ∈ t.functionParameters f)
    (hbody : t.child? f "body" = some body) : n ∉ t.subtree body := by
  obtain ⟨part, hpart, hparameter⟩ := exists_part_of_functionParameter h
  have hsize : part < t.nodes.size := by
    rcases hpart with hpart | ⟨list, -, hpart⟩
    · exact hn.lt_size_of_mem (mem_of_child? hpart).1
    · exact hn.lt_size_of_mem hpart
  have hmem : n ∈ t.subtree part := by
    rcases hparameter with rfl | ⟨-, hpattern⟩
    · exact hn.self_mem_subtree hsize
    · have hchild := (mem_of_child? hpattern).1
      exact hn.subtree_subset hchild (hn.self_mem_subtree (hn.lt_size_of_mem hchild))
  intro hinside
  rcases hpart with hpart | ⟨list, hlist, hpart⟩
  · exact disjoint_subtree_of_fields hn hpart hbody (by decide) hmem hinside
  · have hmem := hn.subtree_subset hpart hmem
    exact disjoint_subtree_of_fields hn hlist hbody (by decide) hmem hinside

/-- A parameter that is a name is declared by its function. -/
theorem mem_declaredParameters (h : n ∈ t.functionParameters f) (hleaf : t.isNameLeaf n = true) :
    t.bindingAt .param n ∈ t.declaredParameters f := by
  obtain ⟨part, hpart, hparameter⟩ := exists_part_of_functionParameter h
  have hsize : part < t.nodes.size := by
    rcases hpart with hpart | ⟨list, -, hpart⟩
    · exact hn.lt_size_of_mem (mem_of_child? hpart).1
    · exact hn.lt_size_of_mem hpart
  have hname : n ∈ t.patternNames part := by
    rcases hparameter with rfl | ⟨htype, hpattern⟩
    · refine List.mem_filter.mpr ⟨hn.self_mem_subtree hsize, ?_⟩
      simp [hleaf, pathUp_self]
    · -- A parameter with a type declares what its pattern does.
      have hchild := (mem_of_child? hpattern).1
      have hself := hn.self_mem_subtree (hn.lt_size_of_mem hchild)
      have hpath : t.pathUp n part = [n, part] := by
        have hmem := List.contains_iff_mem.mp (isWithin_self t n)
        rw [hn.pathUp_of_mem (hn.lt_size_of_mem hchild) hchild hmem, pathUp_self]
        rfl
      have hpart : t.isPatternPart n = true := by
        rw [isPatternPart, hn.parent_of_mem part n hchild]
        rcases htype with htype | htype
        · simp [htype, hpattern]
        · simp [htype, hpattern]
      refine List.mem_filter.mpr ⟨hn.subtree_subset hchild hself, ?_⟩
      simp [hleaf, hpath, hpart]
  unfold declaredParameters
  refine List.mem_map.mpr ⟨n, List.mem_flatMap.mpr ⟨part, ?_, hname⟩, rfl⟩
  rcases hpart with hpart | ⟨list, hlist, hpart⟩
  · rw [hpart]
    exact .head _
  · rw [hlist]
    exact List.mem_append_right _ hpart

end

end Tree

/-! ### The edits of a body -/

namespace MergePlan

/-- What the parameter of a member's callback declares, if that is a name. -/
def parameterBinding? (p : MergePlan) (m : CollectionId) : Option BindingId :=
  (p.callbackParameter? m).bind p.table.of?

/-- The edits that give the parameter of a member's callback a new name in the body: the identifiers
and shorthand properties that refer to it are replaced. -/
def renameEdits (p : MergePlan) (m : CollectionId) (body : NodeId) (name : String) : List Edit :=
  match p.parameterBinding? m with
  | none => []
  | some i =>
    let own := (p.table.binding i).name
    if own = name then []
    else ((p.bodyNames body).filter fun n => p.table.of? n == some i).map (p.renameEdit own name)

/-- The body of a member's callback with these edits carried out. -/
def renamedBytes (p : MergePlan) (m : CollectionId) (body : NodeId) (name : String) : Bytes :=
  Edit.splice p.tree.source (p.tree.span body).start (p.tree.span body).stop
    (p.renameEdits m body name)

variable {p : MergePlan} {m : CollectionId} {name text : String} {i : BindingId} {body n : NodeId}

/-- The edits replace some of the names of the body, in their order. -/
theorem exists_names_of_renameEdits (p : MergePlan) (m : CollectionId) (body : NodeId)
    (name : String) : ∃ (names : List NodeId) (own : String), names.Sublist (p.bodyNames body) ∧
      p.renameEdits m body name = names.map (p.renameEdit own name) := by
  unfold renameEdits
  split
  · exact ⟨[], "", List.nil_sublist _, rfl⟩
  · dsimp only
    split
    · exact ⟨[], "", List.nil_sublist _, rfl⟩
    · exact ⟨_, _, List.filter_sublist, rfl⟩

/-- **The text of a node with edits in it**, that replace something and are given in order. -/
theorem editedText_eq {edits : List Edit}
    (hspan : ∀ e ∈ edits, e.span.start < e.span.stop)
    (hordered : edits.Pairwise fun a b => a.span.stop ≤ b.span.start)
    (hfits : Edit.Fits (p.tree.span n).start (p.tree.span n).stop edits)
    (hlength : (p.tree.span n).stop ≤ p.tree.source.length) :
    p.editedText n edits = Utf8.decode
      (Edit.splice p.tree.source (p.tree.span n).start (p.tree.span n).stop edits) := by
  have hsorted : sortBy Edit.after edits = edits.reverse := by
    have hinOrder := Edit.inOrder_of_ascending hspan hordered
    rw [Edit.inOrder] at hinOrder
    exact List.reverse_eq_iff.mp hinOrder
  have hstart : Edit.Fits 0 (p.tree.span n).start [] := Nat.zero_le _
  have hsplit : Edit.splice p.tree.source 0 (p.tree.span n).stop edits =
      Bytes.slice p.tree.source 0 (p.tree.span n).start ++
        Edit.splice p.tree.source (p.tree.span n).start (p.tree.span n).stop edits :=
    Edit.splice_append p.tree.source hstart hfits
  have hbefore : (Bytes.slice p.tree.source 0 (p.tree.span n).start).length =
      (p.tree.span n).start := by
    have := hfits.le
    simp only [Bytes.slice, List.drop_zero, Nat.sub_zero, List.length_take]
    omega
  have hall : Edit.Fits 0 (p.tree.span n).stop edits.reverse.reverse := by
    rw [List.reverse_reverse]
    exact Edit.Fits.append hstart hfits
  unfold editedText
  dsimp only
  rw [hsorted, Edit.applyBelow_fst _ _ _ hall, List.reverse_reverse, List.append_nil, hsplit,
    List.drop_left' hbefore]

/-- What is known of the body of a callback, if its parameter can be renamed. -/
theorem exists_body_of_renamedBody (h : p.renamedBody m name = .ok text) :
    ∃ callback body, (p.collection m).callback = some callback ∧
      p.tree.child? callback "body" = some body ∧
      (∀ n ∈ p.bodyNames body, p.tree.text n = name →
        ∃ i, p.parameterBinding? m = some i ∧ p.table.of? n = some i) ∧
      text = parenthesize (p.tree.precedence body < Precedence.assignment)
        (p.editedText body (p.renameEdits m body name)) := by
  unfold renamedBody at h
  obtain ⟨body, hbody, h⟩ := bind_eq_ok.mp h
  obtain ⟨_, hfree, h⟩ := bind_eq_ok.mp h
  unfold callbackBody at hbody
  obtain ⟨callback, hcallback, hbody⟩ := bind_eq_ok.mp hbody
  refine ⟨callback, body, fetch_eq_ok.mp hcallback, fetch_eq_ok.mp hbody, ?_, ?_⟩
  · intro n hn htext
    have hown := List.all_eq_true.mp (require_eq_ok.mp hfree) n hn
    simp only [htext, bne_self_eq_false, Bool.false_or, Bool.and_eq_true, beq_iff_eq] at hown
    obtain ⟨i, hi⟩ := Option.isSome_iff_exists.mp hown.1
    exact ⟨i, hi, hown.2.trans hi⟩
  · rw [← pure_eq_ok.mp h]
    congr 2
    unfold renameEdits parameterBinding?
    cases (p.callbackParameter? m).bind p.table.of? with
    | none => simp
    | some i => simp

/-- The edits of a body fit into it. -/
theorem fits_renameEdits (hn : p.tree.InPreorder) (hs : p.tree.Spaced) (ho : p.tree.Ordered)
    (hleaf : p.tree.HasLeafNames) (m : CollectionId) (body : NodeId) (name : String) :
    (∀ e ∈ p.renameEdits m body name, ∃ n ∈ p.tree.subtree body, e.span = p.tree.span n ∧
        e.span.start < e.span.stop) ∧
      (p.renameEdits m body name).Pairwise (fun a b => a.span.stop ≤ b.span.start) ∧
      Edit.Fits (p.tree.span body).start (p.tree.span body).stop (p.renameEdits m body name) := by
  obtain ⟨names, own, hsub, hedits⟩ := p.exists_names_of_renameEdits m body name
  have hwithin : names.Sublist (p.tree.subtree body) := hsub.trans List.filter_sublist
  have hreference : ∀ n ∈ names, p.tree.isReferenceNode n = true := by
    intro n hnames
    obtain ⟨-, hkind⟩ := List.mem_filter.mp (hsub.subset hnames)
    rw [Tree.isReferenceNode, hkind, Bool.true_or]
  have hedit : ∀ e ∈ p.renameEdits m body name, ∃ n ∈ p.tree.subtree body,
      e.span = p.tree.span n ∧ e.span.start < e.span.stop := by
    intro e he
    rw [hedits] at he
    obtain ⟨n, hnames, rfl⟩ := List.mem_map.mp he
    have hmem := hwithin.subset hnames
    exact ⟨n, hmem, rfl, hs.name n (hn.lt_size_of_mem_subtree hmem) (hreference n hnames)⟩
  have hordered : (p.renameEdits m body name).Pairwise
      fun a b => a.span.stop ≤ b.span.start := by
    rw [hedits]
    exact List.pairwise_map.mpr (Tree.pairwise_names ho hs hn hleaf hwithin hreference)
  have hcovered : ∀ e ∈ p.renameEdits m body name,
      (p.tree.span body).start ≤ e.span.start ∧ e.span.stop ≤ (p.tree.span body).stop := by
    intro e he
    obtain ⟨n, hmem, hspan, -⟩ := hedit e he
    rw [hspan]
    exact Span.covers_iff.mp (hs.covers_of_isWithin hn (hn.isWithin_of_mem_subtree hmem))
  refine ⟨hedit, hordered, Edit.fits_of_ascending (hs.span_le body).1 (fun e he => (hcovered e he).1)
    (fun e he => ?_) (fun e he => (hcovered e he).2) hordered⟩
  obtain ⟨-, -, -, hlt⟩ := hedit e he
  exact Nat.le_of_lt hlt

/-! ### What the parameter declares -/

section

variable (hn : p.tree.InPreorder) (htable : p.table = BindingTable.ofTree p.tree)
  (harena : p.arena = Arena.ofTree p.table p.tree) (hmap : (p.collection m).derivation = .map)
  (hkind : ∀ parameter ∈ p.callbackParameter? m, p.tree.kind parameter ≠ .shorthandProperty)
include hn htable harena hmap hkind

/-- **The binding of a parameter** is declared by the parameter. -/
theorem nameNode_of_parameterBinding (hi : p.parameterBinding? m = some i) :
    p.callbackParameter? m = some (p.table.binding i).nameNode := by
  obtain ⟨parameter, hparameter, howner⟩ := Option.bind_eq_some_iff.mp hi
  obtain ⟨callback, hcallback, hfirst⟩ := Option.bind_eq_some_iff.mp hparameter
  have hmem : parameter ∈ p.tree.functionParameters callback := List.mem_of_mem_head? hfirst
  have hfunction : p.tree.kind callback = .function := by
    rw [collection, harena] at hcallback hmap
    exact Arena.kind_callback (by rw [hmap]; decide) hcallback
  have hsize : callback < p.tree.nodes.size := by
    obtain ⟨part, hpart | ⟨list, hlist, -⟩, -⟩ := Tree.exists_part_of_functionParameter hmem
    · exact Tree.lt_size_of_mem_children (Tree.mem_of_child? hpart).1
    · exact Tree.lt_size_of_mem_children (Tree.mem_of_child? hlist).1
  rw [htable] at howner ⊢
  have haccounts := BindingTable.accounted_ofTree p.tree
  have hreference : p.tree.isReferenceNode parameter = true := by
    obtain rfl | ⟨u, hu, rfl⟩ := haccounts.owned howner
    · exact (BindingTable.spelled_ofTree p.tree (haccounts.lt_size howner)).isReferenceNode
    · exact (haccounts.usage u hu).2.2
  have hleaf : p.tree.isNameLeaf parameter = true := by
    have hne := hkind parameter hparameter
    simpa [Tree.isReferenceNode, Tree.isNameLeaf, hne] using hreference
  have hdeclared : p.tree.bindingAt .param parameter ∈ p.tree.declared := by
    refine List.mem_flatMap.mpr ⟨callback, List.mem_range.mpr hsize, ?_⟩
    unfold Tree.declaredAt
    rw [hfunction]
    exact List.mem_append_right _ (Tree.mem_declaredParameters hn hmem hleaf)
  obtain hname | ⟨u, hu, hun⟩ := haccounts.owned howner
  · rw [hparameter, hname]
  · -- A declared name is no usage.
    exact absurd hun ((BindingTable.settled_ofTree p.tree).not_usage u hu _ hdeclared)

/-- What a name in the body belongs to that declares a binding: to a binding which is not the one of
the parameter. -/
theorem ne_parameterBinding {callback j : Nat} (h : p.tree.Nested)
    (hcallback : (p.collection m).callback = some callback)
    (hbody : p.tree.child? callback "body" = some body) (hj : j < p.table.bindings.size)
    (hinside : (p.table.binding j).nameNode ∈ p.tree.subtree body)
    (hi : p.parameterBinding? m = some i) :
    p.table.of? (p.table.binding j).nameNode ≠ some i := by
  intro howner
  have hnamed : p.table.Named p.tree := htable ▸ BindingTable.named_ofTree h hn
  obtain ⟨k, -, hk, hname⟩ := hnamed.owned j hj
  obtain rfl : k = i := Option.some.inj (hk.symm.trans howner)
  have hparameter := nameNode_of_parameterBinding hn htable harena hmap hkind hi
  obtain ⟨callback', hcallback', hfirst⟩ := Option.bind_eq_some_iff.mp hparameter
  obtain rfl : callback = callback' := Option.some.inj (hcallback.symm.trans hcallback')
  rw [hname] at hfirst
  exact Tree.parameter_outside_body hn (List.mem_of_mem_head? hfirst) hbody hinside

end

/-! ### The renamed body -/

/-- **The body of a callback after its parameter was renamed.**  Its text is the one of the body, in
parentheses if need be, in which the references to the parameter are replaced by the new name and
nothing else is changed; a shorthand property is written out.  Apart from the shorthand names of
patterns, which are left alone, all references are among those that are replaced, none that means
anything else is spelled like the new name, and nothing in the body declares that name. -/
theorem renamed_body (l : Language) (source : Bytes) (root : Concrete) (pure : List String)
    (marker : String) (names : List String) (g : Group) (m : CollectionId) (name text : String) :
    let t := Tree.ofConcrete l source root
    let b := BindingTable.ofTree t
    let p := ofGroup t b (Arena.ofTree b t) pure marker names g
    t.Spaced → t.Ordered → t.HasLeafNames → (p.collection m).derivation = .map →
    (∀ parameter ∈ p.callbackParameter? m, t.kind parameter ≠ .shorthandProperty) →
    p.renamedBody m name = .ok text →
    ∃ callback body inner, (p.collection m).callback = some callback ∧
      t.child? callback "body" = some body ∧
      (∀ i ∈ p.parameterBinding? m, p.callbackParameter? m = some (b.binding i).nameNode) ∧
      text = parenthesize (t.precedence body < Precedence.assignment) inner ∧
      inner = Utf8.decode (p.renamedBytes m body name) ∧
      (t.GrammarShaped → (Utf8.decode? t.source).isSome →
        Utf8.encode inner = p.renamedBytes m body name) ∧
      (∀ n ∈ t.subtree body, t.isReferenceNode n = true → ¬ t.IsPatternName n →
        n ∈ p.bodyNames body ∧
          (t.text n = name → ∃ i, p.parameterBinding? m = some i ∧ b.of? n = some i)) ∧
      ∀ j < b.bindings.size, (b.binding j).nameNode ∈ t.subtree body →
        (b.binding j).name = name → t.IsPatternName (b.binding j).nameNode := by
  intro t b p
  have hn : t.InPreorder := Tree.inPreorder_ofConcrete l source root
  have hnested : t.Nested := Tree.nested_ofConcrete l source root
  have htree : p.tree = t := rfl
  have htable : p.table = b := rfl
  have harena : p.arena = Arena.ofTree b t := rfl
  have hb : b = BindingTable.ofTree t := rfl
  -- From here on, the plan is known by these equations only.
  clear_value p b t
  subst htree htable
  intro hs ho hleaf hmap hkind h
  obtain ⟨callback, body, hcallback, hbody, hfree, htext⟩ := exists_body_of_renamedBody h
  obtain ⟨hedit, hordered, hfits⟩ := fits_renameEdits (p := p) hn hs ho hleaf m body name
  have hinner := editedText_eq (fun e he => (hedit e he).elim fun _ h => h.2.2) hordered hfits
    (hs.span_le body).2
  have hnames : ∀ n ∈ p.tree.subtree body, p.tree.isReferenceNode n = true →
      ¬ p.tree.IsPatternName n → n ∈ p.bodyNames body := by
    intro n hmem hreference hpattern
    refine List.mem_filter.mpr ⟨hmem, ?_⟩
    have htype : (p.tree.type n == "shorthand_property_identifier_pattern") = false :=
      beq_eq_false_iff_ne.mpr hpattern
    rwa [Tree.isReferenceNode, htype, Bool.or_false] at hreference
  refine ⟨callback, body, _, hcallback, hbody,
    fun i hi => nameNode_of_parameterBinding hn hb harena hmap hkind hi, htext, hinner, ?_, ?_, ?_⟩
  · intro hshaped hsource
    obtain ⟨-, hstart, hstop⟩ := hshaped.span_placed hsource body
    have hplaced : ∀ e ∈ p.renameEdits m body name, e.span.IsPlaced p.tree.source := by
      intro e he
      obtain ⟨n, -, hspan, -⟩ := hedit e he
      rw [hspan]
      exact hshaped.span_placed hsource n
    obtain ⟨cs, hcs⟩ := Edit.exists_encodeAll_splice hplaced hstart hstop hfits
    have hbytes : p.renamedBytes m body name = Utf8.encodeAll cs := hcs
    rw [hinner]
    change Utf8.encode (Utf8.decode (p.renamedBytes m body name)) = p.renamedBytes m body name
    rw [hbytes, Utf8.encode_decode_encodeAll]
  · intro n hmem hreference hpattern
    have hname := hnames n hmem hreference hpattern
    exact ⟨hname, hfree n hname⟩
  · intro j hj hinside hspelling
    by_contra hpattern
    -- The name would have been looked at, and would have to be the parameter itself.
    have hspelled : (p.table.binding j).Spelled p.tree := by
      rw [hb] at hj ⊢
      exact BindingTable.spelled_ofTree p.tree hj
    have hname := hnames _ hinside hspelled.isReferenceNode hpattern
    obtain ⟨i, hi, howner⟩ := hfree _ hname (hspelled.name_eq.symm.trans hspelling)
    exact ne_parameterBinding hn hb harena hmap hkind hnested hcallback hbody hj hinside hi howner

end MergePlan

/-! ### Two programs -/

namespace Sample

/-- Two views of one collection, the second of functions that take a part of what they get. -/
def viewsOfFunctions : Bytes := Utf8.encode
  "const src = get();
const a = src.map(x => x);
const b = src.map(y => (\x7bz\x7d) => (\x7by\x7d));
a.forEach((v, i) => use(v, b[i]));
"

/-- The same where this part has the name of the parameter of the first view. -/
def viewsOfCapturingFunctions : Bytes := Utf8.encode
  "const src = get();
const a = src.map(x => x);
const b = src.map(y => (\x7bx\x7d) => (\x7by\x7d));
a.forEach((v, i) => use(v, b[i]));
"

/-- The declaration of the second view. -/
def functionsDeclaration : Concrete :=
  construct "lexical_declaration" 46 85 [
    token "const" 46 (some "kind"),
    construct "variable_declarator" 52 84 [
      nameTree 52 (some "name"), token "=" 54,
      callTree
        (construct "member_expression" 56 63 [
          construct "identifier" 56 59 [] (some "object"), token "." 59,
          construct "property_identifier" 60 63 [] (some "property")] (some "function"))
        [construct "arrow_function" 64 83 [
          nameTree 64 (some "parameter"), token "=>" 66,
          construct "arrow_function" 69 83 [
            construct "formal_parameters" 69 74 [
              token "(" 69,
              construct "object_pattern" 70 73 [
                token "\x7b" 70, construct "shorthand_property_identifier_pattern" 71 72 [],
                token "\x7d" 72],
              token ")" 73] (some "parameters"),
            token "=>" 75,
            construct "parenthesized_expression" 78 83 [
              token "(" 78,
              construct "object" 79 82 [
                token "\x7b" 79, construct "shorthand_property_identifier" 80 81 [],
                token "\x7d" 81],
              token ")" 82] (some "body")] (some "body")]]
        (some "value")],
    token ";" 84]

/-- The tree of both programs. -/
def viewsOfFunctionsTree : Concrete :=
  construct "program" 0 121 [
    sourceDeclaration, mappedDeclaration, functionsDeclaration,
    statementTree (callTree
      (construct "member_expression" 86 95 [
        nameTree 86 (some "object"), token "." 87,
        construct "property_identifier" 88 95 [] (some "property")] (some "function"))
      [construct "arrow_function" 96 118 [
        construct "formal_parameters" 96 102
          [token "(" 96, nameTree 97, token "," 98, nameTree 100, token ")" 101]
          (some "parameters"),
        token "=>" 103,
        callTree (construct "identifier" 106 109 [] (some "function")) [
          nameTree 110, token "," 111,
          construct "subscript_expression" 113 117 [
            nameTree 113 (some "object"), token "[" 114, nameTree 115 (some "index"),
            token "]" 116]]
          (some "body")]])]

end Sample

namespace MergePlan

/-- The parameter of the second callback gets the name of the first one. -/
theorem sample_renamed_body :
    let t := Tree.ofConcrete .javascript Sample.viewsOfFunctions Sample.viewsOfFunctionsTree
    let b := BindingTable.ofTree t
    let p := ofGroup t b (Arena.ofTree b t) [] "" t.spelledNames
      ⟨[1, 2], 0, .derivedViews, none, false⟩
    t.Spaced ∧ t.Ordered ∧ t.HasLeafNames ∧ t.child? 26 "body" = some 28 ∧
      b.of? 34 = some 4 ∧ (b.binding 4).nameNode = 27 ∧ p.callbackParameter? 2 = some 27 ∧
      p.renamedBody 2 "x" = .ok "(\x7bz\x7d) => (\x7by: x\x7d)" ∧
      Utf8.decode (p.renamedBytes 2 28 "x") = "(\x7bz\x7d) => (\x7by: x\x7d)" ∧
      34 ∈ p.bodyNames 28 := by
  intro t b p
  have hs : t.Spaced := by decide +kernel
  have ho : t.Ordered := by decide +kernel
  have hleaf : t.HasLeafNames := by decide +kernel
  have hfacts : ((p.collection 2).derivation = .map ∧ (p.collection 2).callback = some 26) ∧
      (∀ parameter ∈ p.callbackParameter? 2, t.kind parameter ≠ .shorthandProperty) ∧
      (t.child? 26 "body" = some 28 ∧ b.of? 34 = some 4 ∧ (b.binding 4).nameNode = 27 ∧
        p.parameterBinding? 2 = some 4) ∧
      (p.renamedBody 2 "x").toOption = some "(\x7bz\x7d) => (\x7by: x\x7d)" ∧
      ¬ t.precedence 28 < Precedence.assignment ∧
      34 ∈ t.subtree 28 ∧ t.isReferenceNode 34 = true ∧ ¬ t.IsPatternName 34 := by
    decide +kernel
  obtain ⟨⟨hmap, hcallback⟩, hkind, ⟨hbody, hof, hname, howner⟩, htext, hplain, hmem, hreference,
    hpattern⟩ := hfacts
  have hok := toOption_eq_some.mp htext
  obtain ⟨callback, body, inner, hcallback', hbody', hparameter, hwrapped, hinner, -, hnames, -⟩ :=
    renamed_body .javascript Sample.viewsOfFunctions Sample.viewsOfFunctionsTree [] ""
      t.spelledNames ⟨[1, 2], 0, .derivedViews, none, false⟩ 2 "x" _ hs ho hleaf hmap hkind hok
  obtain rfl : 26 = callback := Option.some.inj (hcallback.symm.trans hcallback')
  obtain rfl : 28 = body := Option.some.inj (hbody.symm.trans hbody')
  rw [parenthesize, if_neg (by simpa using hplain)] at hwrapped
  refine ⟨hs, ho, hleaf, hbody, hof, hname, ?_, hok, ?_, (hnames 34 hmem hreference hpattern).1⟩
  · rw [← hname]
    exact hparameter 4 howner
  · exact hinner.symm.trans hwrapped.symm

/-- **The exception.**  The pattern in the body has the new name already, and a reference that is
replaced stands in its scope: it comes to mean what the pattern declares. -/
theorem pattern_captures :
    let t := Tree.ofConcrete .javascript Sample.viewsOfCapturingFunctions Sample.viewsOfFunctionsTree
    let b := BindingTable.ofTree t
    let a := Arena.ofTree b t
    let g : Group := ⟨[1, 2], 0, .derivedViews, none, false⟩
    let p := ofGroup t b a [] "" t.spelledNames g
    g ∈ a.groups b t ∧ p.parameterBinding? 2 = some 4 ∧ b.of? 34 = some 4 ∧
      (b.binding 5).name = "x" ∧ (b.binding 5).nameNode = 31 ∧ t.isWithin 31 28 = true ∧
      (b.binding 5).scope ∈ t.scopeChain (t.scopeOf 34) ∧
      (p.renamedBody 2 "x").toOption = some "(\x7bx\x7d) => (\x7by: x\x7d)" ∧
      (p.rewrite.toOption.map fun r => (Edit.applyAll t.source r.edits).1) =
        some (Utf8.encode ("const src = get();\n" ++
          "const srcRecords = src.map(x => (\x7b aItem: x, " ++
          "bItem: (\x7bx\x7d) => (\x7by: x\x7d) \x7d));\n" ++
          "srcRecords.forEach((\x7b aItem: v, bItem \x7d, i) => use(v, bItem));\n")) := by
  intro t b a g p
  have hgroups : a.groups b t = [g] := by decide +kernel
  refine ⟨by rw [hgroups]; exact .head _, ?_⟩
  decide +kernel

end MergePlan

end Declutter
