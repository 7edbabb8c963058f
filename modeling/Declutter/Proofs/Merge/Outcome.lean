import Declutter.Merge.Rewrite
import Declutter.Proofs.Attempt
import Declutter.Proofs.Collection.Members

/-!
# What a merge leads to

A merge takes much for granted: that a member has a declaration, that the statement which fills it
pushes one argument, that the statements of one loop stand in one block, that a callback which
takes the index takes the element too.  All of this was found out when the group was formed, so a
merge has edits that replace whole characters, or is withheld, and never meets a defect.

## Main definitions

* `MergePlan.Formed` — a plan for a group of a program.

## Main results

* `MergePlan.Formed.coBuiltDraft_yields`, `MergePlan.Formed.viewDraft_yields` — the declaration
  of the merged collection.
* `MergePlan.Formed.usageDraft_yields` — the usages of the members.
* `MergePlan.Formed.rewrite_yields` — the whole rewrite.
-/

namespace Declutter

open Attempt

theorem Draft.mem_edits_concat {drafts : List Draft} {e : Edit} :
    e ∈ (Draft.concat drafts).edits ↔ ∃ d ∈ drafts, e ∈ d.edits := by
  have hfold : ∀ (start : Draft), e ∈ (drafts.foldl Draft.append start).edits ↔
      e ∈ start.edits ∨ ∃ d ∈ drafts, e ∈ d.edits := by
    induction drafts with
    | nil => simp
    | cons d rest ih =>
      intro start
      rw [List.foldl_cons, ih, Draft.append]
      simp [or_assoc]
  exact (hfold {}).trans (by simp)

theorem Draft.mem_covered_concat {drafts : List Draft} {n : NodeId} :
    n ∈ (Draft.concat drafts).covered ↔ ∃ d ∈ drafts, n ∈ d.covered := by
  have hfold : ∀ (start : Draft), n ∈ (drafts.foldl Draft.append start).covered ↔
      n ∈ start.covered ∨ ∃ d ∈ drafts, n ∈ d.covered := by
    induction drafts with
    | nil => simp
    | cons d rest ih =>
      intro start
      rw [List.foldl_cons, ih, Draft.append]
      simp [or_assoc]
  exact (hfold {}).trans (by simp)

namespace MergePlan

/-- Whether a plan is one for a group of a program. -/
structure Formed (p : MergePlan) : Prop where
  numbered : p.tree.InPreorder
  shaped : p.tree.GrammarShaped
  arena_eq : p.arena = Arena.ofTree p.table p.tree
  mem_groups : p.group ∈ p.arena.groups p.table p.tree

variable {p : MergePlan}

/-! ### Edits that are placed -/

theorem declarationEdits_placed (hp : p.Formed) (value : String) (declarations : List NodeId) :
    ∀ e ∈ p.declarationEdits value declarations, p.tree.Places e := by
  cases declarations with
  | nil => exact fun e he => nomatch he
  | cons first rest =>
    intro e he
    rcases List.mem_cons.mp he with rfl | he
    · exact hp.shaped.places_node _ _
    · obtain ⟨d, -, rfl⟩ := List.mem_map.mp he
      exact hp.shaped.places_removal p.marker d

theorem pushEdits_placed (hp : p.Formed) (entries : List String) (pushes : List NodeId) :
    ∀ e ∈ p.pushEdits entries pushes, p.tree.Places e := by
  cases pushes with
  | nil => exact fun e he => nomatch he
  | cons first rest =>
    intro e he
    rcases List.mem_cons.mp he with rfl | he
    · exact hp.shaped.places_node _ _
    · obtain ⟨d, -, rfl⟩ := List.mem_map.mp he
      exact hp.shaped.places_removal p.marker d

/-! ### Declarations -/

theorem checkUnread_yields (regions : List NodeId) :
    (p.checkUnread regions).Yields fun _ => True :=
  (yields_checkAll fun _ _ => yields_require _ _).mono fun _ _ => trivial

/-- Members that are declared have their declarations in order, or the merge is withheld. -/
theorem adjacentDeclarations_yields {members : List CollectionId} (hne : members ≠ [])
    (hdeclared : ∀ m ∈ members, (p.binding m).declaration.isSome) :
    (p.adjacentDeclarations members).Yields fun _ => True := by
  unfold adjacentDeclarations
  refine (yields_mapM (R := fun _ _ => True) fun m hm => ?_).bind fun declared hdeclared => ?_
  · obtain ⟨d, hd⟩ := Option.isSome_iff_exists.mp (hdeclared m hm)
    exact yields_fetch _ ⟨d, hd, trivial⟩
  · dsimp only
    split
    · rename_i hnil
      have hlength := congrArg List.length hnil
      rw [length_sortBy, hdeclared.1] at hlength
      exact absurd (List.eq_nil_of_length_eq_zero hlength) hne
    · refine (yields_require _ _).bind fun _ _ => ?_
      split
      · exact yields_withhold _
      · exact (yields_require _ _).bind fun _ _ => yields_pure trivial

/-! ### Collections filled side by side -/

/-- What the checks find out of a member that is filled in a loop. -/
structure Filled (p : MergePlan) (loop : NodeId) (m : CollectionId) (push : NodeId) : Prop where
  kind_eq : p.tree.kind push = .expressionStatement
  declared : (p.binding m).declaration.isSome
  pushes : ∃ call arguments value, p.tree.parent? call = some push ∧
    p.tree.child? call "arguments" = some arguments ∧ p.tree.children arguments = [value]
  iterates : ∃ source, p.table.enclosingIteration? p.tree push = some (loop, source)

/-- A member that passes the check was found to be filled in the loop of its group. -/
theorem exists_filling_of_push (harena : p.arena = Arena.ofTree p.table p.tree) {loop : NodeId}
    {m : CollectionId} (hloop : p.arena.fillingLoop? m = some loop)
    (hshape : (p.collection m).shape = .sequence) {push : NodeId}
    (hpush : (p.collection m).populate = some push) :
    ∃ f, p.table.filling? p.tree (p.bindingId m) .sequence = some f ∧ f.loop = loop ∧
      f.populate = push := by
  obtain ⟨hderivation, hfilled, -⟩ := Arena.of_fillingLoop hloop
  rw [harena] at hderivation hfilled
  rw [collection, harena] at hshape hpush
  obtain ⟨f, -, hf, hfloop, hfpush, -⟩ := Arena.exists_filling hderivation
  rw [hshape] at hf
  rw [bindingId, collection, harena]
  exact ⟨f, hf, Option.some.inj (hfloop.symm.trans hfilled),
    Option.some.inj (hfpush.symm.trans hpush)⟩

/-- A member that passes the check is filled by a statement in the loop of its group. -/
theorem filled_of_push (hp : p.Formed) {loop : NodeId} {m : CollectionId}
    (hloop : p.arena.fillingLoop? m = some loop)
    (hshape : (p.collection m).shape = .sequence) {push : NodeId}
    (hpush : (p.collection m).populate = some push)
    (hkind : p.tree.kind push = .expressionStatement) : p.Filled loop m push := by
  obtain ⟨f, hf, rfl, rfl⟩ := exists_filling_of_push hp.arena_eq hloop hshape hpush
  obtain ⟨hdeclared, hcall, hiterates⟩ := BindingTable.filling_cases hf hkind
  exact ⟨hkind, hdeclared, hcall, hiterates⟩

theorem checkPushed_yields (m : CollectionId) :
    (p.checkPushed m).Yields fun _ => (p.collection m).shape = .sequence ∧
      ∃ push, (p.collection m).populate = some push ∧
        p.tree.kind push = .expressionStatement := by
  unfold checkPushed
  refine (yields_require _ _).bind fun _ hpush => ?_
  refine yields_require_of fun _ => ?_
  simp only [Bool.and_eq_true, beq_iff_eq] at hpush
  obtain ⟨hshape, hpush⟩ := hpush
  cases hpopulate : (p.collection m).populate with
  | none => rw [hpopulate] at hpush; cases hpush
  | some push =>
    rw [hpopulate] at hpush
    exact ⟨hshape, push, rfl, by simpa using hpush⟩

/-- The value that a filling statement pushes can be read. -/
theorem pushedValue_yields (hp : p.Formed) {loop : NodeId} {m : CollectionId} {push : NodeId}
    (h : p.Filled loop m push) : (p.pushedValue (m, push)).Yields fun _ => True := by
  obtain ⟨call, arguments, value, hcall, harguments, hvalue⟩ := h.pushes
  -- The statement consists of the call alone, so its first child is the call.
  obtain ⟨only, honly⟩ := hp.shaped.statement push h.kind_eq
  have hmem := hp.numbered.mem_children_iff.mpr hcall
  rw [honly, List.mem_singleton] at hmem
  subst hmem
  unfold pushedValue
  refine (yields_fetch _ ⟨call, by rw [honly]; rfl, rfl⟩).bind fun c hc => ?_
  subst hc
  refine (yields_fetch _ ⟨arguments, harguments, rfl⟩).bind fun a ha => ?_
  subst ha
  refine (yields_fetch (P := fun _ => True) _ ⟨value, by rw [hvalue]; rfl, trivial⟩).bind
    fun v _ => ?_
  exact yields_pure trivial

/-- The statements that fill the members stand in one block. -/
theorem areAdjacent_yields (hp : p.Formed) (loop : NodeId) {pushes : List NodeId}
    (hne : pushes ≠ []) (h : ∀ push ∈ pushes, ∃ m, p.Filled loop m push) :
    (p.areAdjacent pushes).Yields fun _ => True := by
  obtain ⟨first, rest, rfl⟩ := List.exists_cons_of_ne_nil hne
  obtain ⟨m, hfirst⟩ := h first (.head _)
  obtain ⟨source, hsource⟩ := hfirst.iterates
  obtain ⟨body, hbody, -⟩ := BindingTable.block_unique hp.numbered hp.shaped hsource hsource
  unfold areAdjacent
  refine (yields_fetch _ ⟨first, rfl, rfl⟩).bind fun f hf => ?_
  subst hf
  refine (yields_fetch _ ⟨body, hbody, rfl⟩).bind fun q hq => ?_
  subst hq
  refine (yields_mapM (R := fun _ _ => True) fun push hpush => ?_).bind
    fun _ _ => yields_pure trivial
  obtain ⟨n, hfilled⟩ := h push hpush
  obtain ⟨source', hsource'⟩ := hfilled.iterates
  obtain ⟨body', hbody', hpushBody⟩ :=
    BindingTable.block_unique hp.numbered hp.shaped hsource hsource'
  obtain rfl := Option.some.inj (hbody.symm.trans hbody')
  have hmem := hp.numbered.mem_children_iff.mpr hpushBody
  -- The statement is a child of the block, so it has a place among the children.
  refine yields_fetch _ ?_
  cases hindex : (p.tree.children body).findIdx? (· == push) with
  | none =>
    rw [List.findIdx?_eq_none_iff] at hindex
    exact absurd (hindex push hmem) (by simp)
  | some k => exact ⟨k, rfl, trivial⟩

/-- The members of such a group are filled in one loop. -/
theorem exists_loop (hg : p.group ∈ p.arena.groups p.table p.tree)
    (hpattern : p.group.pattern = .coBuilt) :
    p.removed ≠ [] ∧ ∃ loop, ∀ m ∈ p.removed, p.arena.fillingLoop? m = some loop := by
  have hremoved : p.removed = p.group.members := by rw [removed, hpattern]
  rw [hremoved]
  have hcandidate := Arena.candidate_of_mem_groups hg
  refine ⟨Arena.ne_nil_of_candidate hcandidate, ?_⟩
  rcases List.mem_append.mp hcandidate with h | h
  · obtain ⟨-, -, -, loop, hmembers⟩ := Arena.mem_of_coBuilt h
    exact ⟨loop, fun m hm => ((hmembers m).mp hm).2⟩
  · rw [(Arena.mem_of_view h).1] at hpattern
    cases hpattern

theorem coBuiltEdits_placed (hp : p.Formed) (declarations : List NodeId) (entries : List String)
    (pushes : List NodeId) : ∀ e ∈ p.declarationEdits "[]" declarations ++
      p.pushEdits entries pushes, p.tree.Places e := by
  intro e he
  rcases List.mem_append.mp he with he | he
  · exact declarationEdits_placed hp _ _ e he
  · exact pushEdits_placed hp _ _ e he

/-- **The declaration of collections filled side by side.** -/
theorem Formed.coBuiltDraft_yields (hp : p.Formed) (hpattern : p.group.pattern = .coBuilt) :
    p.coBuiltDraft.Yields fun d => ∀ e ∈ d.edits, p.tree.Places e := by
  obtain ⟨hne, loop, hloop⟩ := exists_loop hp.mem_groups hpattern
  unfold coBuiltDraft
  refine (yields_checkAll fun m _ => checkPushed_yields m).bind fun _ hpushed => ?_
  -- From here on, every member is known to be filled by a statement in one and the same loop.
  have hfilled : ∀ m ∈ p.removed, ∃ push, (p.collection m).populate = some push ∧
      p.Filled loop m push := by
    intro m hm
    obtain ⟨hshape, push, hpush, hkind⟩ := hpushed m hm
    exact ⟨push, hpush, filled_of_push hp (hloop m hm) hshape hpush hkind⟩
  refine (adjacentDeclarations_yields hne fun m hm => ?_).bind fun declarations _ => ?_
  · obtain ⟨push, -, h⟩ := hfilled m hm
    exact h.declared
  dsimp only
  refine (yields_mapM (R := fun m found => p.Filled loop found.1 found.2)
    fun m hm => ?_).bind fun filled ⟨hlength, hall⟩ => ?_
  · obtain ⟨push, hpush, h⟩ := hfilled m hm
    unfold pushOf
    exact Yields.map (yields_fetch _ ⟨push, hpush, h⟩)
  generalize hsorted : sortBy _ filled = sorted
  have hmem : ∀ found ∈ sorted, p.Filled loop found.1 found.2 := by
    intro found hfound
    rw [← hsorted, mem_sortBy] at hfound
    obtain ⟨m, -, h⟩ := hall found hfound
    exact h
  have hsortedNe : sorted.map (·.2) ≠ [] := by
    intro hnil
    have := congrArg List.length hnil
    rw [List.length_map, ← hsorted, length_sortBy, hlength] at this
    exact hne (List.eq_nil_of_length_eq_zero this)
  refine (areAdjacent_yields hp loop hsortedNe fun push hpush => ?_).bind
    fun adjacent _ => ?_
  · obtain ⟨found, hfound, rfl⟩ := List.mem_map.mp hpush
    exact ⟨found.1, hmem found hfound⟩
  refine (yields_mapM (R := fun _ _ => True) fun found hfound =>
    pushedValue_yields hp (hmem found hfound)).bind fun values _ => ?_
  refine (checkUnread_yields _).bind fun _ _ => ?_
  split
  · refine (yields_checkAll (P := fun _ => True) fun found _ => ?_).bind
      fun _ _ => yields_pure (coBuiltEdits_placed hp _ _ _)
    unfold checkMovable
    refine (yields_require _ _).bind fun _ _ => ?_
    split
    · exact yields_withhold _
    · exact yields_ok trivial
  · exact yields_pure (coBuiltEdits_placed hp _ _ _)

/-! ### Derived views -/

/-- What the check finds out of a view. -/
theorem checkView_yields (m : CollectionId) :
    (p.checkView m).Yields fun _ => ((p.collection m).derivation = .map ∨
      (p.collection m).derivation = .copy) ∧ (p.binding m).declaration.isSome := by
  unfold checkView
  dsimp only
  refine (yields_require _ _).bind fun _ _ => ?_
  refine (yields_require _ _).bind fun _ hderivation => ?_
  refine (yields_require _ _).bind fun _ hdeclaration => ?_
  refine yields_require_of fun _ => ⟨?_, ?_⟩
  · simpa only [Bool.or_eq_true, beq_iff_eq] using hderivation
  · cases hd : (p.binding m).declaration with
    | none =>
      rw [hd, Bool.and_eq_true] at hdeclaration
      exact nomatch hdeclaration.2
    | some d => rfl

theorem ne_root_of_view {d : Derivation} (h : d = .map ∨ d = .copy) : d ≠ .root := by
  rcases h with rfl | rfl <;> decide

/-- A member that was made of another collection has an initial value. -/
theorem initializer_isSome (harena : p.arena = Arena.ofTree p.table p.tree) {m : CollectionId}
    (h : (p.collection m).derivation ≠ .root) : (p.binding m).initializer.isSome := by
  rw [collection, harena] at h
  rw [binding, bindingId, collection, harena]
  exact Arena.initializer_isSome h

/-- Whether a member has a callback with a body. -/
def HasBody (p : MergePlan) (m : CollectionId) : Prop :=
  ∃ callback body, (p.collection m).callback = some callback ∧
    p.tree.child? callback "body" = some body

theorem checkCallback_yields (m : CollectionId) :
    (p.checkCallback m).Yields fun _ => p.HasBody m := by
  unfold checkCallback
  dsimp only
  split
  · exact yields_withhold _
  · rename_i callback hcallback
    refine (yields_require _ _).bind fun _ _ => ?_
    refine (yields_require _ _).bind fun _ hbody => ?_
    refine yields_require_of fun _ => ?_
    cases hb : p.tree.child? callback "body" with
    | none => rw [hb] at hbody; cases hbody
    | some body => exact ⟨callback, body, hcallback, hb⟩

theorem callbackBody_yields {m : CollectionId} (h : p.HasBody m) :
    (p.callbackBody m).Yields fun _ => True := by
  obtain ⟨callback, body, hcallback, hbody⟩ := h
  unfold callbackBody
  refine (yields_fetch _ ⟨callback, hcallback, rfl⟩).bind fun c hc => ?_
  subst hc
  exact yields_fetch _ ⟨body, hbody, trivial⟩

theorem checkCallbackEffects_yields {m : CollectionId} (h : p.HasBody m) :
    (p.checkCallbackEffects m).Yields fun _ => True := by
  unfold checkCallbackEffects
  refine (callbackBody_yields h).bind fun _ _ => ?_
  exact yields_require_of fun _ => trivial

theorem viewEntry_yields (name : String) {m : CollectionId}
    (h : (p.collection m).derivation ≠ .copy → p.HasBody m) :
    (p.viewEntry name m).Yields fun _ => True := by
  unfold viewEntry
  refine Yields.bind (P := fun _ => True) ?_ fun _ _ => yields_pure trivial
  unfold viewValue
  split
  · exact yields_ok trivial
  · rename_i hcopy
    unfold renamedBody
    refine (callbackBody_yields (h (by simpa using hcopy))).bind fun body _ => ?_
    exact (yields_require _ _).bind fun _ _ => yields_pure trivial

theorem areMadeByMethod_yields {members : List CollectionId}
    (h : ∀ m ∈ members, (p.binding m).initializer.isSome) :
    (p.areMadeByMethod members).Yields fun _ => True := by
  induction members with
  | nil => exact yields_ok trivial
  | cons m rest ih =>
    obtain ⟨value, hvalue⟩ := Option.isSome_iff_exists.mp (h m (.head _))
    unfold areMadeByMethod
    refine (yields_fetch (P := fun _ => True) _ ⟨value, hvalue, trivial⟩).bind fun v _ => ?_
    split
    · exact ih fun n hn => h n (.tail _ hn)
    · exact yields_pure trivial

/-- The views of a group are removed. -/
theorem Formed.views_ne_nil (hp : p.Formed) (hpattern : p.group.pattern = .derivedViews) :
    p.removed ≠ [] := by
  rw [removed, hpattern]
  rcases List.mem_append.mp (Arena.candidate_of_mem_groups hp.mem_groups) with h | h
  · rw [(Arena.mem_of_coBuilt h).1] at hpattern
    cases hpattern
  · exact Arena.derived_ne_nil_of_view h

/-- **The declaration of derived views.** -/
theorem Formed.viewDraft_yields (hp : p.Formed) (hpattern : p.group.pattern = .derivedViews) :
    p.viewDraft.Yields fun d => ∀ e ∈ d.edits, p.tree.Places e := by
  have hne := hp.views_ne_nil hpattern
  unfold viewDraft
  refine (yields_checkAll fun m _ => checkView_yields m).bind fun _ hviews => ?_
  refine (adjacentDeclarations_yields hne fun m hm => (hviews m hm).2).bind
    fun declarations _ => ?_
  refine (checkUnread_yields _).bind fun _ _ => ?_
  dsimp only
  refine (yields_checkAll fun m _ => checkCallback_yields m).bind fun _ hcallbacks => ?_
  -- Copies have no callback; the others were checked to have one with a body.
  have hbody : ∀ m ∈ p.removed, (p.collection m).derivation ≠ .copy → p.HasBody m := by
    intro m hm hcopy
    refine hcallbacks m (List.mem_filter.mpr ⟨hm, ?_⟩)
    rw [(hviews m hm).1.resolve_right hcopy]
    rfl
  -- The same steps follow, whether or not the effects of the callbacks had to be checked.
  have hrest (name : String) : Yields (fun d : Draft => ∀ e ∈ d.edits, p.tree.Places e) (do
      let entries ← p.viewEntries name
      let derivation ← p.viewDerivation name entries
      return { edits := p.declarationEdits derivation declarations
               covered := p.subtrees declarations }) := by
    refine Yields.bind (P := fun _ => True) ?_ fun entries _ => ?_
    · unfold viewEntries
      refine (yields_mapM (R := fun _ _ => True) fun m hm =>
        viewEntry_yields name (hbody m hm)).bind fun _ _ => ?_
      split <;> exact yields_pure trivial
    refine Yields.bind (P := fun _ => True) ?_ fun derivation _ => ?_
    · unfold viewDerivation
      refine (areMadeByMethod_yields fun m hm =>
        initializer_isSome hp.arena_eq (ne_root_of_view (hviews m hm).1)).bind fun _ _ => ?_
      split <;> exact yields_pure trivial
    exact yields_pure (declarationEdits_placed hp _ _)
  split
  · refine (yields_checkAll (P := fun _ => True) fun m hm => ?_).bind fun _ _ => hrest _
    exact checkCallbackEffects_yields (hcallbacks m hm)
  · exact hrest _

/-! ### Usages -/

/-- The iterations of an arena are those of its program. -/
theorem mem_zipContexts (harena : p.arena = Arena.ofTree p.table p.tree) {context : ZipContext}
    (h : context ∈ p.arena.contexts) : context ∈ p.table.zipContexts p.tree := by
  rw [harena] at h
  exact h

/-- An iteration that knows the index has what its head is rewritten by: a loop compares with the
length of what names its collection, and a method is called on the name of it. -/
theorem head_of_context {b : BindingTable} {t : Tree} {context : ZipContext}
    (h : context ∈ b.zipContexts t) :
    match context.indexing with
    | .loop length => ∃ object, t.child? length "object" = some object ∧
        b.sourceOf? t object = some context.collection
    | .callback _ receiver function => t.kind receiver = .identifier ∧
        b.of? receiver = some context.collection ∧
        (t.functionParameters function).head?.isSome := by
  obtain ⟨i, -, hi⟩ := List.mem_filterMap.mp h
  unfold BindingTable.zipContext? at hi
  split at hi
  · unfold BindingTable.indexLoop? at hi
    obtain ⟨initializer, -, hi⟩ := Option.bind_eq_some_iff.mp hi
    obtain ⟨condition, -, hi⟩ := Option.bind_eq_some_iff.mp hi
    obtain ⟨increment, -, hi⟩ := Option.bind_eq_some_iff.mp hi
    obtain ⟨body, -, hi⟩ := Option.bind_eq_some_iff.mp hi
    obtain ⟨index, -, hi⟩ := Option.bind_eq_some_iff.mp hi
    obtain ⟨length, -, hi⟩ := Option.bind_eq_some_iff.mp hi
    obtain ⟨collection, hcollection, hi⟩ := Option.bind_eq_some_iff.mp hi
    split at hi
    · obtain rfl := Option.some.inj hi
      obtain ⟨object, hobject, hsource⟩ := Option.bind_eq_some_iff.mp hcollection
      exact ⟨object, hobject, hsource⟩
    · cases hi
  · unfold BindingTable.indexedCallback? at hi
    obtain ⟨parts, -, hi⟩ := Option.bind_eq_some_iff.mp hi
    obtain ⟨receiver, -, hi⟩ := Option.bind_eq_some_iff.mp hi
    obtain ⟨function, -, hi⟩ := Option.bind_eq_some_iff.mp hi
    obtain ⟨collection, hcollection, hi⟩ := Option.bind_eq_some_iff.mp hi
    obtain ⟨parameter, hparameter, hi⟩ := Option.bind_eq_some_iff.mp hi
    obtain ⟨index, -, hi⟩ := Option.bind_eq_some_iff.mp hi
    obtain ⟨body, -, hi⟩ := Option.bind_eq_some_iff.mp hi
    split at hi
    · obtain rfl := Option.some.inj hi
      obtain ⟨hkind, hname⟩ := BindingTable.sourceOf_eq_some_iff.mp hcollection
      refine ⟨hkind, hname, ?_⟩
      cases hp : t.functionParameters function with
      | nil => rw [hp] at hparameter; cases hparameter
      | cons first rest => rfl
    · cases hi
  · cases hi

/-- An access to an element of a collection is written at an object that names the collection. -/
theorem exists_object_of_accessedAt {b : BindingTable} {t : Tree} {index target : BindingId}
    {n : NodeId} (h : b.accessedAt? t index n = some target) :
    t.kind n = .subscript ∧ ∃ object, t.child? n "object" = some object ∧
      b.of? object = some target := by
  unfold BindingTable.accessedAt? at h
  split at h
  · rename_i hkind
    refine ⟨beq_iff_eq.mp hkind, ?_⟩
    split at h
    · rename_i object _ hobject _
      split at h
      · exact ⟨object, hobject, h⟩
      · cases h
    · cases h
  · cases h

/-- What an iteration accesses at its index is an access in its body. -/
theorem of_mem_memberAccesses {context : ZipContext} {n : NodeId} {target : BindingId}
    (h : (n, target) ∈ p.memberAccesses context) :
    n ∈ p.tree.subtree context.body ∧
      p.table.accessedAt? p.tree context.index n = some target := by
  obtain ⟨i, hi, hindexed⟩ := List.mem_filterMap.mp (List.mem_filter.mp h).1
  obtain ⟨c, hc, heq⟩ := Option.map_eq_some_iff.mp hindexed
  obtain ⟨rfl, rfl⟩ := Prod.mk.inj heq
  exact ⟨hi, hc⟩

theorem checkElementCallback_yields (place : IterationPlace) (callback : NodeId) :
    (p.checkElementCallback place callback).Yields fun _ => True := by
  unfold checkElementCallback
  refine (yields_require _ _).bind fun _ _ => ?_
  split
  · exact yields_withhold _
  · exact yields_ok trivial

theorem accessEdit_yields (hp : p.Formed) (context : ZipContext)
    (locals : List (BindingId × String)) (access : NodeId × BindingId) :
    (p.accessEdit context locals access).Yields fun e => p.tree.Places e := by
  obtain ⟨n, target⟩ := access
  unfold accessEdit
  refine (yields_require _ _).bind fun _ _ => ?_
  exact yields_pure (hp.shaped.places_node _ _)

theorem headDraft_yields (hp : p.Formed) {context : ZipContext}
    (hcontext : context ∈ p.arena.contexts) (accesses : List (NodeId × BindingId)) :
    (p.headDraft context accesses).Yields fun d => ∀ e ∈ d.1.edits, p.tree.Places e := by
  have hhead := head_of_context (mem_zipContexts hp.arena_eq hcontext)
  unfold headDraft
  split at hhead
  · rename_i length hlength
    rw [hlength]
    obtain ⟨object, hobject, -⟩ := hhead
    refine (yields_fetch (P := fun _ => True) _ ⟨object, hobject, trivial⟩).bind fun o _ => ?_
    refine yields_pure fun e he => ?_
    rw [List.mem_singleton.mp he]
    exact hp.shaped.places_node _ _
  · rename_i method receiver callback hcallback
    rw [hcallback]
    obtain ⟨first, hfirst⟩ := Option.isSome_iff_exists.mp hhead.2.2
    dsimp only
    unfold callbackDraft
    refine (yields_require _ _).bind fun _ _ => ?_
    refine (checkElementCallback_yields _ _).bind fun _ _ => ?_
    refine (yields_fetch (P := fun _ => True) _ ⟨first, hfirst, trivial⟩).bind fun f _ => ?_
    refine yields_pure fun e he => ?_
    rcases List.mem_cons.mp he with rfl | he
    · exact hp.shaped.places_node _ _
    · rw [List.mem_singleton.mp he]
      exact hp.shaped.places_node _ _

theorem contextDraft_yields (hp : p.Formed) {context : ZipContext}
    (hcontext : context ∈ p.arena.contexts) :
    (p.contextDraft context).Yields fun d => ∀ e ∈ d.edits, p.tree.Places e := by
  unfold contextDraft
  split
  · dsimp only
    refine (yields_require _ _).bind fun _ _ => ?_
    refine (headDraft_yields hp hcontext _).bind fun head hhead => ?_
    refine (yields_mapM fun access _ => accessEdit_yields hp context head.2 access).bind
      fun edits ⟨_, hedits⟩ => ?_
    refine yields_pure fun e he => ?_
    rcases List.mem_append.mp he with he | he
    · exact hhead e he
    · obtain ⟨-, -, hplaced⟩ := hedits e he
      exact hplaced
  · exact yields_ok fun e he => nomatch he

/-- The edits of two nodes are placed. -/
theorem pair_placed (hp : p.Formed) (i j : NodeId) (text text' : String) :
    ∀ e ∈ [⟨p.tree.span i, text⟩, ⟨p.tree.span j, text'⟩], p.tree.Places e := by
  intro e he
  rcases List.mem_cons.mp he with rfl | he
  · exact hp.shaped.places_node _ _
  · rw [List.mem_singleton.mp he]
    exact hp.shaped.places_node _ _

theorem usageEdits_yields (hp : p.Formed) (m : CollectionId) (usage : NodeId) :
    (p.usageEdits m usage).Yields fun edits => ∀ e ∈ edits, p.tree.Places e := by
  unfold usageEdits
  dsimp only
  split
  · exact yields_withhold _
  split
  · unfold memberEdits
    dsimp only
    split
    · refine yields_ok fun e he => ?_
      rw [List.mem_singleton.mp he]
      exact hp.shaped.places_node _ _
    split
    · unfold methodEdits
      dsimp only
      split
      · exact yields_withhold _
      · refine (checkElementCallback_yields _ _).bind fun _ _ => ?_
        split
        · exact yields_withhold _
        · exact yields_pure (pair_placed hp _ _ _ _)
    · exact yields_withhold _
  split
  · unfold loopEdits
    split
    · exact yields_withhold _
    · exact yields_ok (pair_placed hp _ _ _ _)
  split <;> exact yields_withhold _

/-- **The usages of the members.** -/
theorem Formed.usageDraft_yields (hp : p.Formed) (covered : List NodeId) :
    (p.usageDraft covered).Yields fun d => ∀ e ∈ d.edits, p.tree.Places e := by
  unfold usageDraft
  refine (yields_mapM fun context hcontext => contextDraft_yields hp hcontext).bind
    fun drafts ⟨_, hdrafts⟩ => ?_
  dsimp only
  refine (yields_mapM (R := fun _ edits => ∀ e ∈ edits, p.tree.Places e)
    fun usage _ => usageEdits_yields hp usage.1 usage.2).bind fun edits ⟨_, hedits⟩ => ?_
  refine yields_pure fun e he => ?_
  rcases List.mem_append.mp he with he | he
  · obtain ⟨d, hd, he⟩ := Draft.mem_edits_concat.mp he
    obtain ⟨-, -, hplaced⟩ := hdrafts d hd
    exact hplaced e he
  · obtain ⟨es, hes, he⟩ := List.mem_flatten.mp he
    obtain ⟨-, -, hplaced⟩ := hedits es hes
    exact hplaced e he

/-! ### The whole rewrite -/

/-- **A merge is withheld, or its edits replace whole characters.** -/
theorem Formed.rewrite_yields (hp : p.Formed) :
    p.rewrite.Yields fun r => ∃ edits, Rewrite.ofEdits edits = .ok r ∧
      ∀ e ∈ edits, p.tree.Places e := by
  have hdeclared : p.declarationDraft.Yields fun d => ∀ e ∈ d.edits, p.tree.Places e := by
    unfold declarationDraft
    split
    · rename_i hpattern
      exact hp.coBuiltDraft_yields hpattern
    · rename_i hpattern
      exact hp.viewDraft_yields hpattern
  unfold rewrite draft
  refine Yields.bind (P := fun d : Draft => ∀ e ∈ d.edits, p.tree.Places e) ?_
    fun draft hdraft => ?_
  · refine hdeclared.bind fun declared hdeclared => ?_
    refine (hp.usageDraft_yields _).bind fun used hused => ?_
    refine yields_pure fun e he => ?_
    rcases List.mem_append.mp he with he | he
    · exact hdeclared e he
    · exact hused e he
  · split
    · rename_i r hr
      refine yields_pure ⟨_, hr, fun e he => ?_⟩
      rcases mem_of_mem_distinctBy he with he | he
      · cases he
      · exact hdraft e he
    · exact yields_withhold _

end MergePlan

end Declutter
