import Declutter.Proofs.Binding.Visibility
import Declutter.Proofs.Merge.Observation

/-!
# Where the records are named

A merge declares its records in the place of the members, which stand next to each other and hence
lie in one scope.  All that it writes elsewhere has to stand where this scope is visible.  A usage
of a removed member does, for the name meant the member there.  An iteration may be named after a
member that is kept, which may well be declared further out; but somewhere in it a removed member is
named, and the iteration starts behind the declaration of that member, so the scope cannot be one
that is opened within the iteration, and is visible around it.

## Main definitions

* `Tree.DeclaresInBlocks` — what the grammars promise of the places of declarations.
* `Tree.Sees` — whether a scope is visible at a node.
* `MergePlan.DeclaredIn` — what is known of the statement that declares a removed member.
* `MergePlan.Writes` — the nodes in whose place a merge writes something.

## Main results

* `Tree.Nested.sees_around` — what is visible within a construct is visible around it, unless it is
  opened there.
* `MergePlan.OfProgram.exists_scope` — the removed members are declared in one scope.
* `MergePlan.OfProgram.sees_of_concerns` — the scope is visible around an iteration that changes.
* `MergePlan.OfProgram.sees_of_writes` — the scope is visible wherever a merge writes.
* `MergePlan.merged_name_in_scope` — the same for the groups of a program.
-/

namespace Declutter

open Attempt

/-! ### What a node sees -/

namespace Tree

/-- Whether no part of a function or of a class is a declaration of variables or an export, as the
grammars promise: such statements stand in programs, blocks, cases and heads of loops. -/
def DeclaresInBlocks (t : Tree) : Prop :=
  ∀ i < t.nodes.size, (t.kind i).isNamedOutside = true → ∀ c ∈ t.children i,
    t.kind c ≠ .variableDeclaration ∧ t.kind c ≠ .exportStatement

instance (t : Tree) : Decidable t.DeclaresInBlocks :=
  inferInstanceAs (Decidable (∀ i < _, _))

/-- The construct around a declaration is neither a function nor a class. -/
theorem DeclaresInBlocks.isNamedOutside_eq_false {t : Tree} (h : t.DeclaresInBlocks)
    {c i : NodeId} (hc : c ∈ t.children i)
    (hkind : t.kind c = .variableDeclaration ∨ t.kind c = .exportStatement) :
    (t.kind i).isNamedOutside = false := by
  by_contra hnamed
  rw [Bool.not_eq_false] at hnamed
  obtain ⟨hvariable, hexport⟩ := h i (lt_size_of_mem_children hc) hnamed c hc
  exact hkind.elim hvariable hexport

/-- Whether a scope is visible at a node. -/
def Sees (t : Tree) (n : NodeId) (s : ScopeId) : Prop := s ∈ t.scopeChain (t.scopeOf n)

instance (t : Tree) (n : NodeId) (s : ScopeId) : Decidable (t.Sees n s) :=
  inferInstanceAs (Decidable (_ ∈ _))

variable {t : Tree} {c d n i : Nat} {s : ScopeId}

theorem sees_scopeOf (t : Tree) (n : NodeId) : t.Sees n (t.scopeOf n) := t.mem_scopeChain _

/-- What lies in one scope sees the same. -/
theorem Sees.of_scopeOf_eq (h : t.Sees n s) (heq : t.scopeOf i = t.scopeOf n) : t.Sees i s := by
  rw [Sees, heq]
  exact h

namespace Nested

variable (h : t.Nested) (hn : t.InPreorder)
include h hn

/-- A construct that opens no scope sees what its children see. -/
theorem sees_parent (hp : t.parent? n = some i) (hkind : (t.kind i).opensScope = false)
    (hs : t.Sees n s) : t.Sees i s :=
  hs.of_scopeOf_eq (h.scopeOf_child_eq (hn.mem_children_iff.mpr hp) hkind).symm

/-- The call of a method sees what the object sees. -/
theorem sees_call {access call : NodeId} (haccess : t.parent? n = some access)
    (hmember : t.kind access = .member) (hcall : t.parent? access = some call)
    (hkind : t.kind call = .call) (hs : t.Sees n s) : t.Sees call s := by
  have hmethod := h.sees_parent hn haccess (by rw [hmember]; rfl) hs
  exact h.sees_parent hn hcall (by rw [hkind]; rfl) hmethod

/-- Nodes with one parent that has no name outside lie in one scope. -/
theorem scopeOf_eq_of_parent_eq (hc : c < t.nodes.size) (hd : d < t.nodes.size)
    (hparent : t.parent? c = t.parent? d)
    (hkind : ∀ i, t.parent? d = some i → (t.kind i).isNamedOutside = false) :
    t.scopeOf c = t.scopeOf d := by
  cases hp : t.parent? d with
  | none =>
    -- Only the root has no parent.
    have hroot : ∀ n < t.nodes.size, t.parent? n = none → n = 0 := by
      intro n hsize hnone
      by_contra hne
      obtain ⟨i, -, hi⟩ := hn.exists_parent hsize hne
      rw [hn.mem_children_iff.mp hi] at hnone
      cases hnone
    rw [hroot d hd hp, hroot c hc (hparent.trans hp)]
  | some i =>
    exact h.scopeOf_sibling (hn.mem_children_iff.mpr (hparent.trans hp))
      (hn.mem_children_iff.mpr hp) (hkind i hp)

/-- What is visible around a construct is visible within it. -/
theorem sees_of_isWithin (hwithin : t.isWithin n i = true) (hs : t.Sees i s) : t.Sees n s := by
  by_cases heq : n = i
  · exact heq ▸ hs
  · have hsize : n < t.nodes.size := by
      rw [isWithin, List.contains_iff_mem] at hwithin
      cases hp : t.parent? n with
      | none =>
        rw [chain_of_root hp, List.mem_singleton] at hwithin
        exact absurd hwithin.symm heq
      | some p => exact lt_size_of_parent hp
    obtain ⟨inner, hchain, -⟩ := h.scopeChain_eq_append hn hsize hwithin
    rw [Sees, hchain]
    exact List.mem_append_right _ hs

/-- **What is visible within a construct** is visible around it, unless it is opened there. -/
theorem sees_around (hsize : n < t.nodes.size) (hwithin : t.isWithin n i = true) (hs : t.Sees n s)
    (houtside : t.isWithin (t.scope s).node i = false) : t.Sees i s := by
  obtain ⟨inner, hchain, hinner⟩ := h.scopeChain_eq_append hn hsize hwithin
  rw [Sees, hchain] at hs
  rcases List.mem_append.mp hs with hs | hs
  · rw [hinner s hs] at houtside
    cases houtside
  · exact hs

end Nested

end Tree

namespace MergePlan

variable {p : MergePlan} {m : CollectionId} {d : NodeId} {s : ScopeId} {r : Rewrite}
  {context : ZipContext} {n : NodeId} {e : Edit}

/-! ### The scope of the removed members -/

/-- What is known of the statement that declares a removed member: it lies in the scope of the
member, and all members are complete only behind it. -/
structure DeclaredIn (p : MergePlan) (s : ScopeId) (m : CollectionId) (d : NodeId) : Prop where
  declaration_eq : (p.binding m).declaration = some d
  kind_eq : p.tree.kind d = .variableDeclaration ∨ p.tree.kind d = .exportStatement
  scope_eq : (p.binding m).scope = s
  scopeOf_declaration : p.tree.scopeOf d = s
  scopeOf_name : p.tree.scopeOf (p.binding m).nameNode = s
  within : p.tree.isWithin (p.binding m).nameNode d = true
  complete : (p.tree.span d).stop ≤ p.ready

theorem DeclaredIn.lt_size (h : p.DeclaredIn s m d) : d < p.tree.nodes.size := by
  refine Tree.lt_size_of_kind ?_
  rcases h.kind_eq with hkind | hkind <;> rw [hkind] <;> decide

theorem kind_ne_var_of_checkPushed (h : p.checkPushed m = .ok ()) : (p.binding m).kind ≠ .var := by
  unfold checkPushed at h
  obtain ⟨_, -, h⟩ := bind_eq_ok.mp h
  intro hvar
  have hkind := require_eq_ok.mp h
  rw [hvar] at hkind
  exact absurd hkind (by decide)

theorem kind_ne_var_of_checkView (h : p.checkView m = .ok ()) : (p.binding m).kind ≠ .var := by
  unfold checkView at h
  dsimp only at h
  obtain ⟨_, -, h⟩ := bind_eq_ok.mp h
  obtain ⟨_, -, h⟩ := bind_eq_ok.mp h
  obtain ⟨_, hplain, -⟩ := bind_eq_ok.mp h
  intro hvar
  have hkind := require_eq_ok.mp hplain
  rw [hvar, Bool.and_eq_true] at hkind
  exact absurd hkind.1 (by decide)

/-- No removed member is declared by `var`. -/
theorem kind_ne_var_of_removed (h : p.rewrite = .ok r) (hm : m ∈ p.removed) :
    (p.binding m).kind ≠ .var := by
  obtain ⟨-, hchecks⟩ := checked_of_rewrite h
  split at hchecks
  · exact kind_ne_var_of_checkPushed (hchecks m hm)
  · exact kind_ne_var_of_checkView (hchecks m hm)

/-- The members that are removed are members. -/
theorem mem_members_of_removed (hm : m ∈ p.removed) : m ∈ p.group.members := by
  unfold removed at hm
  split at hm
  · exact hm
  · exact (List.mem_filter.mp hm).1

namespace OfProgram

variable (hp : p.OfProgram) (hs : p.tree.Spaced) (hnested : p.tree.Nested)
  (hready : p.ready = p.arena.groupReadyOffset p.table p.tree p.group)
include hp

section
include hs hnested hready

/-- A removed member is declared in its scope. -/
theorem exists_declaredIn (h : p.rewrite = .ok r) (hm : m ∈ p.removed) :
    ∃ d, p.DeclaredIn (p.tree.scopeOf d) m d := by
  obtain ⟨⟨declarations, hdeclarations⟩, -⟩ := checked_of_rewrite h
  obtain ⟨d, -, hd⟩ := (adjacentDeclarations_eq_ok hdeclarations).2.1 m hm
  have hroot := hp.ne_root_of_removed h hm
  have hkind := kind_ne_var_of_removed h hm
  obtain ⟨v, hv⟩ := Option.isSome_iff_exists.mp (hp.initializer_isSome_of_removed h hm)
  have hcomplete : (p.tree.span d).stop ≤ p.ready := by
    rw [hready]
    refine Nat.le_trans ?_
      (le_latest (List.mem_map_of_mem (List.mem_append_left _ (mem_members_of_removed hm))))
    rw [binding, bindingId] at hd
    rw [collection, hp.arena_eq] at hroot hd
    rw [hp.arena_eq]
    exact Arena.stop_le_readyOffset hs hroot hd
  have hbinding : p.binding m = (BindingTable.ofTree p.tree).binding (p.bindingId m) := by
    rw [binding, hp.table_eq]
  rw [hbinding] at hd hv hkind
  obtain ⟨hname, hscope, hwithin⟩ :=
    BindingTable.scope_of_declaration hnested hp.numbered hd hv hkind
  obtain ⟨declarator, hdeclarator, -⟩ := BindingTable.exists_declarator_of_initializer hd hv
  rw [← hbinding] at hd hname hscope hwithin
  exact ⟨d, hd, hdeclarator.kind_statement, hscope, rfl, hname.symm.trans hscope, hwithin,
    hcomplete⟩

/-- **The removed members are declared in one scope**, for their statements have one parent. -/
theorem exists_scope (hblocks : p.tree.DeclaresInBlocks) (h : p.rewrite = .ok r) :
    ∃ s, ∀ m ∈ p.removed, ∃ d, p.DeclaredIn s m d := by
  obtain ⟨⟨declarations, hdeclarations⟩, -⟩ := checked_of_rewrite h
  obtain ⟨-, -, -, hparents⟩ := adjacentDeclarations_eq_ok hdeclarations
  have hmem : ∀ m ∈ p.removed, ∀ d s, p.DeclaredIn s m d → d ∈ declarations := by
    intro m hm d s hd
    exact (mem_adjacentDeclarations hdeclarations).mpr ⟨m, hm, hd.declaration_eq⟩
  obtain ⟨first, hfirst, -⟩ := exists_declaration h
  obtain ⟨d, hd⟩ := hp.exists_declaredIn hs hnested hready h hfirst
  refine ⟨p.tree.scopeOf d, ?_⟩
  intro m hm
  obtain ⟨e, he⟩ := hp.exists_declaredIn hs hnested hready h hm
  have hparent := hparents e (hmem m hm e _ he) d (hmem first hfirst d _ hd)
  have hscope := hnested.scopeOf_eq_of_parent_eq hp.numbered he.lt_size hd.lt_size hparent
    fun i hi => hblocks.isNamedOutside_eq_false (hp.numbered.mem_children_iff.mpr hi) hd.kind_eq
  exact ⟨e, hscope ▸ he⟩

end

/-! ### Usages of removed members -/

section

variable (hall : ∀ m ∈ p.removed, ∃ d, p.DeclaredIn s m d)
include hall

/-- The scope is visible where a removed member is used. -/
theorem sees_of_usage (hm : m ∈ p.removed) {u : Usage} (hu : u ∈ (p.binding m).usages) :
    p.tree.Sees u.node s := by
  obtain ⟨d, hd⟩ := hall m hm
  have hrecorded := (BindingTable.recorded_ofTree p.tree).scope_mem (i := p.bindingId m) u
  rw [← hp.table_eq] at hrecorded
  exact hd.scope_eq ▸ hrecorded hu

/-- The scope is visible wherever the name means a removed member. -/
theorem sees_of_owner (hm : m ∈ p.removed) (hn : p.table.of? n = some (p.bindingId m)) :
    p.tree.Sees n s := by
  rcases hp.accounted.owned hn with rfl | ⟨u, hu, rfl⟩
  · obtain ⟨d, hd⟩ := hall m hm
    exact hd.scopeOf_name ▸ p.tree.sees_scopeOf _
  · exact hp.sees_of_usage hall hm hu

end

end OfProgram

/-! ### Iterations that know the index -/

/-- An iteration that changes stands where all members are complete. -/
theorem ready_le_of_rewrite (h : p.rewrite = .ok r) (hcontext : context ∈ p.arena.contexts)
    (hconcerns : p.concerns context = true) : p.ready ≤ (p.tree.span context.node).start := by
  obtain ⟨declared, used, -, hused, -⟩ := rewrite_eq_ok h
  obtain ⟨drafts, edits, hdrafts, -⟩ := usageDraft_eq_ok hused
  obtain ⟨draft, -, hdraft⟩ := exists_of_mapM hdrafts hcontext
  exact ready_le_of_contextDraft hdraft hconcerns

theorem exists_of_removes {i : BindingId} (h : p.removes i = true) :
    ∃ m ∈ p.removed, p.bindingId m = i :=
  List.mem_map.mp (List.contains_iff_mem.mp h)

/-- **In an iteration that changes**, a removed member is named: the iteration is over the member,
or accesses an element of it. -/
theorem exists_owner_of_concerns (hn : p.tree.InPreorder)
    (hcontext : context ∈ p.table.zipContexts p.tree) (hconcerns : p.concerns context = true) :
    ∃ m ∈ p.removed, ∃ n < p.tree.nodes.size, p.tree.isWithin n context.node = true ∧
      p.table.of? n = some (p.bindingId m) := by
  obtain ⟨hbody, hplace⟩ := BindingTable.isWithin_of_mem_zipContexts hn hcontext
  have hhead := head_of_context hcontext
  rw [concerns, Bool.and_eq_true, Bool.or_eq_true, List.any_eq_true] at hconcerns
  rcases hconcerns.2 with hremoves | ⟨⟨n, target⟩, haccess, hremoves⟩
  · obtain ⟨m, hm, hcollection⟩ := exists_of_removes hremoves
    cases hindexing : context.indexing with
    | loop length =>
      rw [hindexing] at hhead hplace
      obtain ⟨object, hobject, hsource⟩ := hhead
      obtain ⟨hkind, howner⟩ := BindingTable.sourceOf_eq_some_iff.mp hsource
      have hsize : p.tree.stripped object < p.tree.nodes.size := by
        refine Tree.lt_size_of_kind ?_
        rw [hkind]
        decide
      have hin := hn.isWithin_trans hsize (hn.isWithin_stripped object)
        (hn.isWithin_of_child? hobject)
      exact ⟨m, hm, _, hsize, hn.isWithin_trans hsize hin hplace, by rw [howner, hcollection]⟩
    | callback method receiver function =>
      rw [hindexing] at hhead hplace
      have hsize : receiver < p.tree.nodes.size := by
        refine Tree.lt_size_of_kind ?_
        rw [hhead.1]
        decide
      exact ⟨m, hm, receiver, hsize, hplace.1, by rw [hhead.2.1, hcollection]⟩
  · obtain ⟨m, hm, rfl⟩ := exists_of_removes hremoves
    obtain ⟨hmem, haccessed⟩ := of_mem_memberAccesses haccess
    obtain ⟨-, object, hobject, howner⟩ := exists_object_of_accessedAt haccessed
    have hsize := hn.lt_size_of_mem (Tree.mem_of_child? hobject).1
    have hin := hn.isWithin_trans hsize (hn.isWithin_of_child? hobject)
      (hn.isWithin_of_mem_subtree hmem)
    exact ⟨m, hm, object, hsize, hn.isWithin_trans hsize hin hbody, howner⟩

namespace OfProgram

variable (hp : p.OfProgram) (hs : p.tree.Spaced) (hnested : p.tree.Nested)
  (hall : ∀ m ∈ p.removed, ∃ d, p.DeclaredIn s m d)
include hp hs hnested hall

/-- **The scope is visible around an iteration that changes.**  A removed member is named within
the iteration, and is declared before it; so the scope is not opened there. -/
theorem sees_of_concerns (h : p.rewrite = .ok r) (hcontext : context ∈ p.arena.contexts)
    (hconcerns : p.concerns context = true) : p.tree.Sees context.node s := by
  have hn := hp.numbered
  have hbehind := ready_le_of_rewrite h hcontext hconcerns
  obtain ⟨m, hm, n, hsize, hwithin, howner⟩ :=
    exists_owner_of_concerns hn (mem_zipContexts hp.arena_eq hcontext) hconcerns
  refine hnested.sees_around hn hsize hwithin (hp.sees_of_owner hall hm howner) ?_
  by_contra hopened
  rw [Bool.not_eq_false] at hopened
  obtain ⟨d, hd⟩ := hall m hm
  have hlt := hp.accounted.lt_size howner
  have hplaced : (p.binding m).Placed p.tree := by
    have hnamed := BindingTable.named_ofTree hnested hn
    rw [← hp.table_eq] at hnamed
    exact hnamed.placed _ hlt
  have hspelled : (p.binding m).Spelled p.tree := by
    rw [binding, hp.table_eq]
    exact BindingTable.spelled_ofTree p.tree (hp.table_eq ▸ hlt)
  -- The name would stand within the iteration, but its declaration stands before it.
  have hinside := hplaced.within
  rw [hd.scope_eq] at hinside
  have hcovers := Span.covers_iff.mp
    (hs.covers_of_isWithin hn (hn.isWithin_trans hplaced.lt_size hinside hopened))
  have hdeclared := Span.covers_iff.mp (hs.covers_of_isWithin hn hd.within)
  have hcomplete := hd.complete
  have hname := hs.name _ hplaced.lt_size hspelled.isReferenceNode
  omega

/-- What stands in such an iteration sees the scope. -/
theorem sees_within_context (h : p.rewrite = .ok r) (hcontext : context ∈ p.arena.contexts)
    (hconcerns : p.concerns context = true) {i : NodeId} (hn : p.tree.isWithin n i = true)
    (hi : p.tree.isWithin i context.node = true) : p.tree.Sees n s := by
  have haround := hp.sees_of_concerns hs hnested hall h hcontext hconcerns
  exact hnested.sees_of_isWithin hp.numbered hn (hnested.sees_of_isWithin hp.numbered hi haround)

end OfProgram

/-! ### Statements that fill members -/

/-- The statement that fills a removed member is the call of a method of it. -/
theorem OfProgram.exists_usage_of_populate (hp : p.OfProgram) (h : p.rewrite = .ok r)
    (hm : m ∈ p.removed) {push : NodeId} (hpush : (p.collection m).populate = some push) :
    ∃ u ∈ (p.binding m).usages, ∃ access call, p.tree.parent? u.node = some access ∧
      p.tree.kind access = .member ∧ p.tree.parent? access = some call ∧
      p.tree.kind call = .call ∧ p.tree.parent? call = some push ∧
      p.tree.kind push = .expressionStatement := by
  obtain ⟨-, hchecks⟩ := checked_of_rewrite h
  cases hpattern : p.group.pattern with
  | coBuilt =>
    rw [hpattern] at hchecks
    obtain ⟨-, loop, hloop⟩ := exists_loop hp.mem_groups hpattern
    have hshape := ((checkPushed_yields m).of_ok (hchecks m hm)).1
    have hkind := kind_of_checkPushed (hchecks m hm) hpush
    obtain ⟨f, hf, -, rfl⟩ := exists_filling_of_push hp.arena_eq (hloop m hm) hshape hpush
    obtain ⟨⟨u, hu, hadds, access, call, haccess, hcall, houter⟩, -⟩ :=
      BindingTable.exists_usage_of_filling hf hkind
    obtain ⟨access', call', -, -, haccess', hcall', hcallKind, -, -, hmember, -⟩ :=
      BindingTable.adds_sequence hadds
    obtain rfl := Option.some.inj (haccess.symm.trans haccess')
    obtain rfl := Option.some.inj (hcall.symm.trans hcall')
    exact ⟨u, hu, access, call, haccess, hmember, hcall, hcallKind, houter, hkind⟩
  | derivedViews =>
    -- A view is made by its initial value, and filled by no loop.
    rw [hpattern] at hchecks
    obtain ⟨hderivation, -⟩ := (checkView_yields m).of_ok (hchecks m hm)
    have hother : (p.collection m).derivation ≠ .append := by
      rcases hderivation with hview | hview <;> rw [hview] <;> decide
    have hroot := ne_root_of_view hderivation
    rw [collection, hp.arena_eq] at hpush hother hroot
    rw [(Arena.unfilled_of_ne_append hroot hother).2] at hpush
    cases hpush

/-! ### Wherever a merge writes -/

/-- The nodes in whose place a merge writes something. -/
inductive Writes (p : MergePlan) : NodeId → Prop
  /-- The declaration of a member, where the records are declared. -/
  | declaration {m : CollectionId} {d : NodeId} (hm : m ∈ p.removed)
      (hd : (p.binding m).declaration = some d) : Writes p d
  /-- A statement that fills a member, where a record is pushed. -/
  | push {m : CollectionId} {push : NodeId} (hm : m ∈ p.removed)
      (hpush : (p.collection m).populate = some push) : Writes p push
  /-- The object of which a method is called. -/
  | receiver {context : ZipContext} {method : String} {receiver callback : NodeId}
      (hcontext : context ∈ p.arena.contexts) (hconcerns : p.concerns context = true)
      (hindexing : context.indexing = .callback method receiver callback) : Writes p receiver
  /-- The parameter of a callback that knows the index. -/
  | element {context : ZipContext} {method : String} {receiver callback first : NodeId}
      (hcontext : context ∈ p.arena.contexts) (hconcerns : p.concerns context = true)
      (hindexing : context.indexing = .callback method receiver callback)
      (hfirst : (p.tree.functionParameters callback).head? = some first) : Writes p first
  /-- The object whose length the head of a loop reads. -/
  | length {context : ZipContext} {length object : NodeId} (hcontext : context ∈ p.arena.contexts)
      (hconcerns : p.concerns context = true) (hindexing : context.indexing = .loop length)
      (hobject : p.tree.child? length "object" = some object) : Writes p object
  /-- An access at the index of an iteration. -/
  | access {context : ZipContext} {n : NodeId} {target : BindingId}
      (hcontext : context ∈ p.arena.contexts) (hconcerns : p.concerns context = true)
      (haccess : (n, target) ∈ p.memberAccesses context) : Writes p n
  /-- A usage of a member. -/
  | usage {m : CollectionId} {u : Usage} (hm : m ∈ p.removed) (hu : u ∈ (p.binding m).usages) :
      Writes p u.node
  /-- The parameter of a callback that visits the elements of a member. -/
  | parameter {m : CollectionId} {u : Usage} {callback first : NodeId} (hm : m ∈ p.removed)
      (hu : u ∈ (p.binding m).usages) (hvisits : p.tree.IsVisitor u.node callback)
      (hfirst : (p.tree.functionParameters callback).head? = some first) : Writes p first
  /-- What a loop over a member assigns the elements to. -/
  | target {m : CollectionId} {u : Usage} {loop target : NodeId} (hm : m ∈ p.removed)
      (hu : u ∈ (p.binding m).usages) (hloop : p.tree.parent? u.node = some loop)
      (hkind : p.tree.kind loop = .forInStatement)
      (htarget : p.tree.child? loop "left" = some target) : Writes p target

/-- Where the members were declared, one statement is replaced and the others are removed. -/
theorem exists_writes_of_declarations {declarations : List NodeId} {value : String}
    (hdeclarations : p.adjacentDeclarations p.removed = .ok declarations)
    (he : e ∈ p.declarationEdits value declarations) :
    (∃ d, e = p.tree.removal p.marker d) ∨ ∃ n, p.Writes n ∧ e.span = p.tree.span n := by
  obtain ⟨d, hd, he⟩ := mem_declarationEdits he
  obtain ⟨m, hm, hd⟩ := (mem_adjacentDeclarations hdeclarations).mp hd
  rcases he with rfl | rfl
  · exact .inr ⟨d, .declaration hm hd, rfl⟩
  · exact .inl ⟨d, rfl⟩

/-- The edits that declare and fill the merged collection. -/
theorem exists_writes_of_declared {declared : Draft} (h : p.declarationDraft = .ok declared)
    (he : e ∈ declared.edits) :
    (∃ d, e = p.tree.removal p.marker d) ∨ ∃ n, p.Writes n ∧ e.span = p.tree.span n := by
  unfold declarationDraft at h
  split at h
  · obtain ⟨declarations, pushes, values, -, hdeclarations, hpushes, -, -, rfl⟩ :=
      coBuiltDraft_eq_ok h
    rcases List.mem_append.mp he with he | he
    · exact exists_writes_of_declarations hdeclarations he
    · obtain ⟨push, hpush, he⟩ := mem_pushEdits he
      obtain ⟨m, hm, hpush⟩ := (hpushes push).mp hpush
      rcases he with rfl | rfl
      · exact .inr ⟨push, .push hm hpush, rfl⟩
      · exact .inl ⟨push, rfl⟩
  · obtain ⟨declarations, value, -, hdeclarations, -, -, rfl⟩ := viewDraft_eq_ok h
    exact exists_writes_of_declarations hdeclarations he

/-- The edits of an iteration that knows the index. -/
theorem exists_writes_of_context {draft : Draft} (hcontext : context ∈ p.arena.contexts)
    (h : p.contextDraft context = .ok draft) (he : e ∈ draft.edits) :
    ∃ n, p.Writes n ∧ e.span = p.tree.span n := by
  obtain ⟨-, rfl⟩ | ⟨hconcerns, ⟨head, locals⟩, hhead, -, rfl⟩ := contextDraft_cases h
  · cases he
  rcases List.mem_append.mp he with he | he
  · obtain ⟨length, object, hindexing, hobject, heq⟩ |
      ⟨method, receiver, callback, first, locals', hindexing, hfirst, -, heq⟩ :=
        headDraft_cases hhead
    · obtain ⟨rfl, -⟩ := Prod.mk.inj heq
      rw [List.mem_singleton.mp he]
      exact ⟨object, .length hcontext hconcerns hindexing hobject, rfl⟩
    · obtain ⟨rfl, -⟩ := Prod.mk.inj heq
      rcases List.mem_cons.mp he with rfl | he
      · exact ⟨receiver, .receiver hcontext hconcerns hindexing, rfl⟩
      · rw [List.mem_singleton.mp he]
        exact ⟨first, .element hcontext hconcerns hindexing hfirst, rfl⟩
  · obtain ⟨⟨n, target⟩, haccess, rfl⟩ := List.mem_map.mp he
    exact ⟨n, .access hcontext hconcerns haccess, rfl⟩

/-- The edits of a usage outside such iterations. -/
theorem exists_writes_of_usage (hm : m ∈ p.removed) {u : Usage} (hu : u ∈ (p.binding m).usages)
    {edits : List Edit} (h : p.usageEdits m u.node = .ok edits) (he : e ∈ edits) :
    ∃ n, p.Writes n ∧ e.span = p.tree.span n := by
  obtain rfl | ⟨callback, first, wrap, hvisits, hfirst, rfl⟩ |
    ⟨loop, target, hloop, hkind, htarget, rfl⟩ := usageEdits_cases h
  · rw [List.mem_singleton.mp he]
    exact ⟨u.node, .usage hm hu, rfl⟩
  · rcases List.mem_cons.mp he with rfl | he
    · exact ⟨u.node, .usage hm hu, rfl⟩
    · rw [List.mem_singleton.mp he]
      exact ⟨first, .parameter hm hu hvisits hfirst, rfl⟩
  · rcases List.mem_cons.mp he with rfl | he
    · exact ⟨u.node, .usage hm hu, rfl⟩
    · rw [List.mem_singleton.mp he]
      exact ⟨target, .target hm hu hloop hkind htarget, rfl⟩

/-- **Every edit of a merge** removes a statement, or writes in the place of such a node. -/
theorem exists_writes (h : p.rewrite = .ok r) (he : e ∈ r.edits) :
    (∃ d, e = p.tree.removal p.marker d) ∨ ∃ n, p.Writes n ∧ e.span = p.tree.span n := by
  obtain ⟨declared, hdeclared, he⟩ | ⟨context, hcontext, draft, hok, he⟩ |
    ⟨m, hm, u, hu, edits, hok, he⟩ := edit_cases h he
  · exact exists_writes_of_declared hdeclared he
  · exact .inr (exists_writes_of_context hcontext hok he)
  · exact .inr (exists_writes_of_usage hm hu hok he)

/-- **The scope is visible wherever a merge writes.** -/
theorem OfProgram.sees_of_writes (hp : p.OfProgram) (hs : p.tree.Spaced)
    (hnested : p.tree.Nested) (hall : ∀ m ∈ p.removed, ∃ d, p.DeclaredIn s m d)
    (h : p.rewrite = .ok r) (hn : p.Writes n) : p.tree.Sees n s := by
  have hnumbered := hp.numbered
  have hplace {context : ZipContext} (hcontext : context ∈ p.arena.contexts) :=
    BindingTable.isWithin_of_mem_zipContexts hnumbered (mem_zipContexts hp.arena_eq hcontext)
  cases hn with
  | declaration hm hd =>
    obtain ⟨d, hdeclared⟩ := hall _ hm
    obtain rfl := Option.some.inj (hd.symm.trans hdeclared.declaration_eq)
    exact hdeclared.scopeOf_declaration ▸ p.tree.sees_scopeOf _
  | push hm hpush =>
    obtain ⟨u, hu, access, call, haccess, hmember, hcall, hkind, houter, hstatement⟩ :=
      hp.exists_usage_of_populate h hm hpush
    have husage := hp.sees_of_usage hall hm hu
    have hcalled := hnested.sees_call hnumbered haccess hmember hcall hkind husage
    exact hnested.sees_parent hnumbered houter (by rw [hstatement]; rfl) hcalled
  | receiver hcontext hconcerns hindexing =>
    have hhead := (hplace hcontext).2
    rw [hindexing] at hhead
    exact hp.sees_within_context hs hnested hall h hcontext hconcerns (Tree.isWithin_self _ _)
      hhead.1
  | element hcontext hconcerns hindexing hfirst =>
    have hhead := (hplace hcontext).2
    rw [hindexing] at hhead
    have hparameter := hnumbered.isWithin_functionParameter (List.mem_of_mem_head? hfirst)
    exact hp.sees_within_context hs hnested hall h hcontext hconcerns hparameter hhead.2
  | length hcontext hconcerns hindexing hobject =>
    have hhead := (hplace hcontext).2
    rw [hindexing] at hhead
    exact hp.sees_within_context hs hnested hall h hcontext hconcerns
      (hnumbered.isWithin_of_child? hobject) hhead
  | access hcontext hconcerns haccess =>
    have hbody := hnumbered.isWithin_of_mem_subtree (of_mem_memberAccesses haccess).1
    exact hp.sees_within_context hs hnested hall h hcontext hconcerns hbody (hplace hcontext).1
  | usage hm hu => exact hp.sees_of_usage hall hm hu
  | parameter hm hu hvisits hfirst =>
    obtain ⟨access, call, arguments, haccess, hmember, hcall, hkind, harguments, hcallback⟩ :=
      hvisits
    have husage := hp.sees_of_usage hall hm hu
    have hcalled := hnested.sees_call hnumbered haccess hmember hcall hkind husage
    have hargument := hnested.sees_of_isWithin hnumbered
      (hnumbered.isWithin_of_child? harguments) hcalled
    have hfunction := hnested.sees_of_isWithin hnumbered
      (hnumbered.isWithin_of_mem_children hcallback) hargument
    exact hnested.sees_of_isWithin hnumbered
      (hnumbered.isWithin_functionParameter (List.mem_of_mem_head? hfirst)) hfunction
  | target hm hu hloop hkind htarget =>
    refine (hp.sees_of_usage hall hm hu).of_scopeOf_eq ?_
    exact hnested.scopeOf_sibling (Tree.mem_of_child? htarget).1
      (hnumbered.mem_children_iff.mpr hloop) (by rw [hkind]; rfl)

/-- **The merged name is in scope wherever it is written.**  The removed members are declared in one
scope, and so are the records; every edit of the merge removes a statement or writes in the place of
a node at which this scope is visible. -/
theorem merged_name_in_scope (l : Language) (source : Bytes) (root : Concrete) (pure : List String)
    (marker : String) (names : List String) (g : Group) :
    let t := Tree.ofConcrete l source root
    let b := BindingTable.ofTree t
    let a := Arena.ofTree b t
    let p := ofGroup t b a pure marker names g
    t.Spaced → t.DeclaresInBlocks → g ∈ a.groups b t → ∀ r, p.rewrite = .ok r →
      ∃ s, (∀ m ∈ p.removed, (p.binding m).scope = s) ∧
        (∃ m ∈ p.removed, ∃ d value, (p.binding m).declaration = some d ∧ t.scopeOf d = s ∧
          ∃ e ∈ r.edits, e.replacement = p.declarationText value d ∧
            e.span.covers (t.span d) = true) ∧
        (∀ n, p.Writes n → t.Sees n s) ∧
        ∀ e ∈ r.edits, (∃ d, e = t.removal marker d) ∨ ∃ n, p.Writes n ∧ e.span = t.span n := by
  intro t b a p hs hblocks hg r hr
  have hp : p.OfProgram := .of_mem l source root pure marker names hg
  have hnested : t.Nested := Tree.nested_ofConcrete l source root
  obtain ⟨s, hall⟩ := hp.exists_scope hs hnested rfl hblocks hr
  refine ⟨s, fun m hm => ?_, ?_, fun n hn => hp.sees_of_writes hs hnested hall hr hn,
    fun e he => ?_⟩
  · obtain ⟨d, hd⟩ := hall m hm
    exact hd.scope_eq
  · obtain ⟨m, hm, d, value, hdeclaration, hedit⟩ := exists_declaration hr
    obtain ⟨d', hd⟩ := hall m hm
    obtain rfl := Option.some.inj (hdeclaration.symm.trans hd.declaration_eq)
    exact ⟨m, hm, d, value, hdeclaration, hd.scopeOf_declaration, hedit⟩
  · rcases exists_writes hr he with ⟨d, hremoves⟩ | ⟨n, hn, hspan⟩
    · exact .inl ⟨d, hremoves⟩
    · exact .inr ⟨n, hn, hspan⟩

end MergePlan

/-! ### A program -/

namespace Sample

/-- Two views are declared in a block, and read at an index of their anchor, which is declared
outside the block. -/
def outer : Bytes := Utf8.encode ("const src = get();\n\x7b\nconst a = src.map(s => s.x);\n" ++
  "const b = src.map(s => s.y);\nfor (let i = 0; i < src.length; i++) f(a[i]);\n\x7d\n")

/-- The tree of `outer`. -/
def outerTree : Concrete :=
  construct "program" 0 127 [
    sourceDeclaration,
    construct "statement_block" 19 126 [
      token "\x7b" 19, viewDeclaration 21, viewDeclaration 50,
      construct "for_statement" 79 124 [
        token "for" 79, token "(" 83,
        construct "lexical_declaration" 84 94 [
          token "let" 84 (some "kind"),
          construct "variable_declarator" 88 93 [
            nameTree 88 (some "name"), token "=" 90,
            construct "number" 92 93 [] (some "value")],
          token ";" 93] (some "initializer"),
        construct "binary_expression" 95 109 [
          nameTree 95 (some "left"), token "<" 97 (some "operator"),
          construct "member_expression" 99 109 [
            construct "identifier" 99 102 [] (some "object"), token "." 102,
            construct "property_identifier" 103 109 [] (some "property")] (some "right")]
          (some "condition"),
        token ";" 109,
        construct "update_expression" 111 114
          [nameTree 111 (some "argument"), token "++" 112 (some "operator")] (some "increment"),
        token ")" 114,
        construct "expression_statement" 116 124 [
          callTree (nameTree 116 (some "function")) [
            construct "subscript_expression" 118 122
              [nameTree 118 (some "object"), token "[" 119, nameTree 120 (some "index"),
                token "]" 121]],
          token ";" 123] (some "body")],
      token "\x7d" 125]]
end Sample

/-- The head of the loop named the anchor, which is visible everywhere.  It comes to name the
records, which are visible in the block only; there the loop stands. -/
theorem MergePlan.sample_name_in_scope :
    let t := Tree.ofConcrete .javascript Sample.outer Sample.outerTree
    let b := BindingTable.ofTree t
    let a := Arena.ofTree b t
    let g : Group := ⟨[0, 1, 2], 0, .derivedViews, none, true⟩
    let p := ofGroup t b a [] "" t.spelledNames g
    (t.Spaced ∧ t.DeclaresInBlocks ∧ g ∈ a.groups b t) ∧
      ((b.binding 0).scope = 0 ∧ b.of? 42 = some 0 ∧ ¬ t.Sees 0 1) ∧
      ∃ r, p.rewrite = .ok r ∧
        (Edit.applyAll t.source r.edits).1 = Utf8.encode ("const src = get();\n\x7b\n" ++
          "const srcRecords = src.map(s => (\x7b srcItem: s, aItem: s.x, bItem: s.y \x7d));\n" ++
          "for (let i = 0; i < srcRecords.length; i++) f(srcRecords[i].aItem);\n\x7d\n") ∧
        (∀ m ∈ p.removed, (p.binding m).scope = 1) ∧ p.Writes 42 ∧ t.Sees 42 1 ∧
        ∀ e ∈ r.edits, (∃ d, e = t.removal "" d) ∨
          ∃ n, p.Writes n ∧ t.Sees n 1 ∧ e.span = t.span n := by
  intro t b a g p
  have hshapes : t.Spaced ∧ t.DeclaresInBlocks := by
    refine ⟨Tree.spaced_iff.mpr ?_, ?_⟩ <;> decide +kernel
  have hanchor : (b.binding 0).scope = 0 ∧ b.of? 42 = some 0 ∧ ¬ t.Sees 0 1 := by
    decide +kernel
  have hfacts : a.groups b t = [g] ∧ (1 ∈ p.removed ∧ (p.binding 1).scope = 1) ∧
      (a.contexts = [⟨34, 0, 5, 46, .loop 41⟩] ∧
        p.concerns ⟨34, 0, 5, 46, .loop 41⟩ = true ∧ t.child? 41 "object" = some 42) ∧
      p.rewrite.toOption.map (fun r => (Edit.applyAll t.source r.edits).1) =
        some (Utf8.encode ("const src = get();\n\x7b\n" ++
          "const srcRecords = src.map(s => (\x7b srcItem: s, aItem: s.x, bItem: s.y \x7d));\n" ++
          "for (let i = 0; i < srcRecords.length; i++) f(srcRecords[i].aItem);\n\x7d\n")) := by
    decide +kernel
  obtain ⟨hs, hblocks⟩ := hshapes
  obtain ⟨hgroups, ⟨hremoved, hscope⟩, ⟨hcontexts, hconcerns, hobject⟩, happlied⟩ := hfacts
  have hg : g ∈ a.groups b t := by
    rw [hgroups]
    exact .head _
  have hcontext : ⟨34, 0, 5, 46, .loop 41⟩ ∈ a.contexts := by
    rw [hcontexts]
    exact .head _
  obtain ⟨r, hr, htext⟩ := exists_of_toOption_map happlied
  obtain ⟨s, hmembers, -, hsees, hedits⟩ := merged_name_in_scope .javascript Sample.outer
    Sample.outerTree [] "" t.spelledNames g hs hblocks hg r hr
  obtain rfl : s = 1 := (hmembers 1 hremoved).symm.trans hscope
  have hwrites : p.Writes 42 := .length hcontext hconcerns rfl hobject
  refine ⟨⟨hs, hblocks, hg⟩, hanchor, r, hr, htext, hmembers, hwrites, hsees 42 hwrites, ?_⟩
  intro e he
  rcases hedits e he with hremoval | ⟨n, hn, hspan⟩
  · exact .inl hremoval
  · exact .inr ⟨n, hn, hsees n hn, hspan⟩

end Declutter
