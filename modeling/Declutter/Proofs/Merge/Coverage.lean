import Declutter.Proofs.Merge.Deletion
import Declutter.Proofs.Merge.Texts

/-!
# A merge leaves no reference behind

A merge keeps account of the usages it has taken care of: those in the statements it replaces, at
the heads of iterations and in accesses, and those it rewrites one by one.  Whatever is in this
account is covered by an edit, so every usage of a removed member is.  What an edit copies from the
source was checked to hold no such usage, or holds none because an edit of the usage would overlap
with it.  The one exception is the parameter by which the callback of an iteration takes an element:
it counts as taken care of, but its text is copied.

## Main definitions

* `MergePlan.InElement` — whether a node stands in such a parameter.
* `MergePlan.Rewrites` — whether some edits take care of a node.

## Main results

* `MergePlan.OfProgram.rewrites_usage` — every usage of a removed member is taken care of.
* `MergePlan.exists_declaration` — the records are declared in the place of a member.
* `MergePlan.OfProgram.unread_of_part` — what an edit copies holds no such usage.
* `MergePlan.merge_leaves_no_reference` — both, for the groups of a program.
* `MergePlan.merge_copies_default_value` — the exception.
-/

namespace Declutter

open Attempt

namespace MergePlan

variable {p : MergePlan} {e : Edit} {edits more : List Edit} {n : NodeId} {m : CollectionId}
  {context : ZipContext} {r : Rewrite}

/-- Whether a node stands in the parameter by which the callback of an iteration takes an
element. -/
def InElement (p : MergePlan) (n : NodeId) : Prop :=
  ∃ context ∈ p.arena.contexts, p.concerns context = true ∧ ∃ method receiver callback first,
    context.indexing = .callback method receiver callback ∧
    (p.tree.functionParameters callback).head? = some first ∧ p.tree.isWithin n first = true

/-- Whether some edits take care of a node: one of them covers it, and takes a record apart only if
the node stands where an element is taken. -/
def Rewrites (p : MergePlan) (edits : List Edit) (n : NodeId) : Prop :=
  ∃ e ∈ edits, e.span.covers (p.tree.span n) = true ∧
    (isEnclosed e.replacement = true → p.InElement n)

theorem Rewrites.mono (h : p.Rewrites edits n) (hsub : ∀ e ∈ edits, e ∈ more) :
    p.Rewrites more n := by
  obtain ⟨e, he, hcovers⟩ := h
  exact ⟨e, hsub e he, hcovers⟩

/-- An edit that names something takes care of what it replaces. -/
theorem rewrites_of_mem {text : String} (hs : p.tree.Spaced) (hn : p.tree.InPreorder) {i : NodeId}
    (he : ⟨p.tree.span i, text⟩ ∈ edits) (htext : isEnclosed text = false)
    (hwithin : p.tree.isWithin n i = true) : p.Rewrites edits n :=
  ⟨_, he, hs.covers_of_isWithin hn hwithin, fun h => absurd h (by simp [htext])⟩

/-! ### Statements -/

/-- A statement that is replaced or removed is taken care of with all that it holds. -/
theorem rewrites_of_statement {text : String} (hs : p.tree.Spaced) (hn : p.tree.InPreorder)
    {d : NodeId} (hmem : n ∈ p.tree.subtree d) (htext : isEnclosed text = false)
    (he : e ∈ edits) (heq : e = ⟨p.tree.span d, text⟩ ∨ e = p.tree.removal p.marker d) :
    p.Rewrites edits n := by
  have hwithin := hn.isWithin_of_mem_subtree hmem
  rcases heq with rfl | rfl
  · exact rewrites_of_mem hs hn he htext hwithin
  · exact ⟨_, he, Span.covers_trans (Tree.removal_covers p.marker hs.comment (hs.span_le d).2)
      (hs.covers_of_isWithin hn hwithin), fun h => absurd h (by simp [Tree.isEnclosed_removal])⟩

/-- What the declaration of the merged collection takes care of. -/
theorem OfProgram.rewrites_declared (hp : p.OfProgram) (hs : p.tree.Spaced) (hnames : p.Named)
    {declared : Draft} (h : p.declarationDraft = .ok declared) (hn : n ∈ declared.covered) :
    p.Rewrites declared.edits n := by
  have hstatements {value : String} {declarations : List NodeId}
      (hn : n ∈ p.subtrees declarations) :
      p.Rewrites (p.declarationEdits value declarations) n := by
    obtain ⟨d, hd, hmem⟩ := List.mem_flatMap.mp hn
    obtain ⟨e, he, heq⟩ := p.exists_declarationEdit value hd
    exact rewrites_of_statement hs hp.numbered hmem (p.isEnclosed_declarationText _ _) he heq
  unfold declarationDraft at h
  split at h
  · obtain ⟨declarations, pushes, values, -, -, -, -, -, rfl⟩ := coBuiltDraft_eq_ok h
    obtain ⟨d, hd, hmem⟩ := List.mem_flatMap.mp hn
    rcases List.mem_append.mp hd with hd | hd
    · exact (hstatements (List.mem_flatMap.mpr ⟨d, hd, hmem⟩)).mono
        fun e he => List.mem_append_left _ he
    · obtain ⟨e, he, heq⟩ := p.exists_pushEdit (p.pushedEntries values) hd
      exact rewrites_of_statement hs hp.numbered hmem (hnames.isEnclosed_pushText _ _)
        (List.mem_append_right _ he) heq
  · obtain ⟨declarations, value, -, -, -, -, rfl⟩ := viewDraft_eq_ok h
    exact hstatements hn

/-! ### Usages -/

/-- What an iteration that knows the index takes care of. -/
theorem OfProgram.rewrites_context (hp : p.OfProgram) (hs : p.tree.Spaced) (hnames : p.Named)
    (hcontext : context ∈ p.arena.contexts) {draft : Draft}
    (h : p.contextDraft context = .ok draft) (hn : n ∈ draft.covered) :
    p.Rewrites draft.edits n := by
  obtain ⟨-, rfl⟩ | ⟨hconcerns, ⟨head, locals⟩, hhead, -, rfl⟩ := contextDraft_cases h
  · cases hn
  -- The accesses are rewritten alike, whatever the head is.
  have haccesses : (∀ l ∈ locals, l.2 = p.fieldOf l.1) →
      n ∈ p.subtrees ((p.memberAccesses context).map (·.1)) →
      p.Rewrites ((p.memberAccesses context).map fun access =>
        ⟨p.tree.span access.1, p.accessText context locals access.2⟩) n := by
    intro hlocals hn
    obtain ⟨i, hi, hmem⟩ := List.mem_flatMap.mp hn
    obtain ⟨access, haccess, rfl⟩ := List.mem_map.mp hi
    exact rewrites_of_mem hs hp.numbered (List.mem_map_of_mem haccess)
      (hnames.isEnclosed_accessText context hlocals _) (hp.numbered.isWithin_of_mem_subtree hmem)
  obtain ⟨length, object, hindexing, hobject, heq⟩ |
    ⟨method, receiver, callback, first, locals', hindexing, hfirst, hlocals, heq⟩ :=
      headDraft_cases hhead
  · obtain ⟨rfl, rfl⟩ := Prod.mk.inj heq
    rcases List.mem_append.mp hn with hn | hn
    · rw [List.mem_singleton.mp hn]
      exact rewrites_of_mem hs hp.numbered (.head _) hnames.isEnclosed_recordName
        (Tree.isWithin_self _ _)
    · exact (haccesses (fun l hl => nomatch hl) hn).mono fun e he => List.mem_append_right _ he
  · obtain ⟨rfl, rfl⟩ := Prod.mk.inj heq
    rcases List.mem_append.mp hn with hn | hn
    · rcases List.mem_cons.mp hn with rfl | hn
      · exact rewrites_of_mem hs hp.numbered (.head _) hnames.isEnclosed_recordName
          (Tree.isWithin_self _ _)
      · -- The parameter is replaced by a pattern.
        have hwithin := hp.numbered.isWithin_of_mem_subtree hn
        exact ⟨_, .tail _ (.head _), hs.covers_of_isWithin hp.numbered hwithin, fun _ =>
          ⟨context, hcontext, hconcerns, method, receiver, callback, first, hindexing, hfirst,
            hwithin⟩⟩
    · have hfields : ∀ l ∈ locals, l.2 = p.fieldOf l.1 := fun l hl =>
        (of_mem_localFields (hlocals ▸ hl)).1
      exact (haccesses hfields hn).mono fun e he => List.mem_append_right _ he

/-- A usage outside such iterations is replaced by the name of the merged collection. -/
theorem mem_of_usageEdits {usage : NodeId} (h : p.usageEdits m usage = .ok edits) :
    ⟨p.tree.span usage, p.recordName⟩ ∈ edits := by
  obtain rfl | ⟨callback, first, wrap, -, -, rfl⟩ | ⟨loop, target, -, -, -, rfl⟩ :=
    usageEdits_cases h
  all_goals exact .head _

/-- When repetitions are gone, an edit that does the same is left of every edit. -/
theorem exists_sameEdit_of_ofEdits (hr : Rewrite.ofEdits (distinctBy sameEdit [] edits) = .ok r)
    (he : e ∈ edits) : ∃ e' ∈ r.edits, sameEdit e e' = true := by
  obtain ⟨e', he', hsame⟩ :=
    exists_mem_distinctBy (fun e => by simp [sameEdit] : ∀ e, sameEdit e e = true) [] he
  exact ⟨e', (Rewrite.mem_of_ofEdits hr e').mpr he', hsame⟩

/-- Such an edit has the same text and covers what the other one covers. -/
theorem exists_same_of_ofEdits (hr : Rewrite.ofEdits (distinctBy sameEdit [] edits) = .ok r)
    (he : e ∈ edits) : ∃ e' ∈ r.edits, e'.replacement = e.replacement ∧
      ∀ range, e.span.covers range = true → e'.span.covers range = true := by
  obtain ⟨e', he', hsame⟩ := exists_sameEdit_of_ofEdits hr he
  simp only [sameEdit, Bool.and_eq_true, beq_iff_eq] at hsame
  refine ⟨e', he', hsame.2.symm, fun range hcovers => ?_⟩
  rw [Span.covers_iff] at hcovers ⊢
  omega

/-- The edits that are left of a draft when repetitions are gone do what it does. -/
theorem Rewrites.of_ofEdits (h : p.Rewrites edits n)
    (hr : Rewrite.ofEdits (distinctBy sameEdit [] edits) = .ok r) : p.Rewrites r.edits n := by
  obtain ⟨e, he, hcovers, htext⟩ := h
  obtain ⟨e', he', hsame, hkeeps⟩ := exists_same_of_ofEdits hr he
  exact ⟨e', he', hkeeps _ hcovers, hsame ▸ htext⟩

/-- **Every usage of a removed member is taken care of.** -/
theorem OfProgram.rewrites_usage (hp : p.OfProgram) (hs : p.tree.Spaced) (hnames : p.Named)
    (h : p.rewrite = .ok r) (hm : m ∈ p.removed) {u : Usage} (hu : u ∈ (p.binding m).usages) :
    p.Rewrites r.edits u.node := by
  obtain ⟨declared, used, hdeclared, hused, hr⟩ := rewrite_eq_ok h
  obtain ⟨drafts, edits, hdrafts, hopen, -, hedits⟩ := usageDraft_eq_ok hused
  refine Rewrites.of_ofEdits ?_ hr
  by_cases hcovered : u.node ∈ declared.covered ++ (Draft.concat drafts).covered
  · rcases List.mem_append.mp hcovered with hn | hn
    · exact (hp.rewrites_declared hs hnames hdeclared hn).mono
        fun e he => List.mem_append_left _ he
    · obtain ⟨draft, hdraft, hn⟩ := Draft.mem_covered_concat.mp hn
      obtain ⟨context, hcontext, hok⟩ := (mem_of_mapM hdrafts).mp hdraft
      refine (hp.rewrites_context hs hnames hcontext hok hn).mono fun e he => ?_
      rw [hedits]
      exact List.mem_append_right _
        (List.mem_append_left _ (Draft.mem_edits_concat.mpr ⟨draft, hdraft, he⟩))
  · -- The usage was still open, so it has edits of its own.
    have husage : u.node ∈ p.openUsages (declared.covered ++ (Draft.concat drafts).covered) m :=
      List.mem_filter.mpr ⟨List.mem_map_of_mem hu, by simpa using hcovered⟩
    obtain ⟨es, hes, hok⟩ := hopen m hm u.node husage
    refine rewrites_of_mem hs hp.numbered ?_ hnames.isEnclosed_recordName (Tree.isWithin_self _ _)
    rw [hedits]
    exact List.mem_append_right _
      (List.mem_append_right _ (List.mem_flatten.mpr ⟨es, hes, mem_of_usageEdits hok⟩))

/-! ### What a merge declares -/

/-- The first of the declarations that a merge replaces makes way for that of the records. -/
theorem exists_declaration_of_edits {edits : List Edit} {members : List CollectionId}
    {declarations : List NodeId} {value : String}
    (hdeclarations : p.adjacentDeclarations members = .ok declarations)
    (hedits : ∀ e ∈ p.declarationEdits value declarations, e ∈ edits) :
    ∃ m ∈ members, ∃ d, (p.binding m).declaration = some d ∧
      ⟨p.tree.span d, p.declarationText value d⟩ ∈ edits := by
  obtain ⟨hne, -⟩ := adjacentDeclarations_eq_ok hdeclarations
  obtain ⟨first, rest, rfl⟩ := List.exists_cons_of_ne_nil hne
  obtain ⟨m, hm, hd⟩ := (mem_adjacentDeclarations hdeclarations).mp (.head _)
  exact ⟨m, hm, first, hd, hedits _ (.head _)⟩

theorem exists_declaration_of_draft {declared : Draft} (h : p.declarationDraft = .ok declared) :
    ∃ m ∈ p.removed, ∃ d value, (p.binding m).declaration = some d ∧
      ⟨p.tree.span d, p.declarationText value d⟩ ∈ declared.edits := by
  unfold declarationDraft at h
  split at h
  · obtain ⟨declarations, pushes, values, -, hdeclarations, -, -, -, rfl⟩ := coBuiltDraft_eq_ok h
    obtain ⟨m, hm, d, hd, he⟩ := exists_declaration_of_edits hdeclarations
      fun e he => List.mem_append_left _ he
    exact ⟨m, hm, d, _, hd, he⟩
  · obtain ⟨declarations, value, -, hdeclarations, -, -, rfl⟩ := viewDraft_eq_ok h
    obtain ⟨m, hm, d, hd, he⟩ := exists_declaration_of_edits hdeclarations fun e he => he
    exact ⟨m, hm, d, _, hd, he⟩

/-- **A merge declares its collection of records** in the place of a member. -/
theorem exists_declaration (h : p.rewrite = .ok r) :
    ∃ m ∈ p.removed, ∃ d value, (p.binding m).declaration = some d ∧
      ∃ e ∈ r.edits, e.replacement = p.declarationText value d ∧
        e.span.covers (p.tree.span d) = true := by
  obtain ⟨declared, used, hdeclared, -, hr⟩ := rewrite_eq_ok h
  obtain ⟨m, hm, d, value, hd, hmem⟩ := exists_declaration_of_draft hdeclared
  obtain ⟨e, he, htext, hcovers⟩ := exists_same_of_ofEdits hr (List.mem_append_left _ hmem)
  exact ⟨m, hm, d, value, hd, e, he, htext, hcovers _ (Span.covers_self _)⟩

/-! ### What is copied -/

/-- The span of no edit is reversed. -/
theorem span_le_of_mem (hs : p.tree.Spaced) (h : p.rewrite = .ok r) (he : e ∈ r.edits) :
    e.span.start ≤ e.span.stop := by
  obtain ⟨copied, hpart⟩ := exists_part h he
  obtain ⟨n, hspan | rfl⟩ := hpart.exists_node
  · rw [hspan]
    exact (hs.span_le n).1
  · exact Span.le_of_covers (Tree.removal_covers p.marker hs.comment (hs.span_le n).2)
      (hs.span_le n).1

/-- The edits of a merge do not overlap. -/
theorem pairwise_edits (hs : p.tree.Spaced) (h : p.rewrite = .ok r) :
    r.edits.Pairwise fun a b => a.span.overlaps b.span = false := by
  obtain ⟨declared, used, -, -, hr⟩ := rewrite_eq_ok h
  exact Rewrite.pairwise_of_ofEdits hr fun e he =>
    span_le_of_mem hs h ((Rewrite.mem_of_ofEdits hr e).mpr he)

/-- What a pattern takes the place of holds no usage of a removed member, unless it is where an
iteration takes an element: the edit of the usage would overlap with the pattern. -/
theorem OfProgram.unread_of_pattern (hp : p.OfProgram) (hs : p.tree.Spaced) (hnames : p.Named)
    (h : p.rewrite = .ok r) {text : String} (he : ⟨p.tree.span n, text⟩ ∈ r.edits)
    (htext : isEnclosed text = true) (hm : m ∈ p.removed) {u : Usage}
    (hu : u ∈ (p.binding m).usages) (houtside : ¬ p.InElement u.node) :
    p.tree.isWithin u.node n = false := by
  by_contra hwithin
  rw [Bool.not_eq_false] at hwithin
  obtain ⟨e, hmem, hcovers, helement⟩ := hp.rewrites_usage hs hnames h hm hu
  have hne : e ≠ ⟨p.tree.span n, text⟩ := fun heq =>
    houtside (helement (by rw [heq]; exact htext))
  have hapart := Edit.not_overlaps_of_ne (pairwise_edits hs h) hmem he hne
  rw [binding, hp.table_eq] at hu
  obtain ⟨-, hlt, href⟩ := (BindingTable.accounted_ofTree p.tree).usage u hu
  rw [Span.overlaps_of_covers (hs.name _ hlt href) hcovers
    (hs.covers_of_isWithin hp.numbered hwithin)] at hapart
  cases hapart

/-- What the derivation of merged views is made of stands in the callback of a view, which stands in
the initial value of its declaration. -/
theorem OfProgram.exists_declaration_of_source (hp : p.OfProgram)
    (hview : ∀ m ∈ p.removed, p.checkView m = .ok ()) (hn : n ∈ p.viewSources) :
    ∃ m ∈ p.removed, ∃ d initializer callback, (p.binding m).declaration = some d ∧
      p.tree.isWithin n callback = true ∧ p.tree.isWithin callback initializer = true ∧
      p.tree.isWithin initializer d = true := by
  obtain ⟨k, hk, hsource⟩ := List.mem_flatMap.mp hn
  obtain ⟨hderivation, hdeclared⟩ := (checkView_yields k).of_ok (hview k hk)
  obtain ⟨d, hd⟩ := Option.isSome_iff_exists.mp hdeclared
  have hmade : (p.collection k).derivation ≠ .root := ne_root_of_view hderivation
  have hcallback : ∃ callback, (p.collection k).callback = some callback ∧
      p.tree.isWithin n callback = true := by
    rcases List.mem_append.mp hsource with hbody | hparameter
    · obtain ⟨callback, hcallback, hbody⟩ := Option.bind_eq_some_iff.mp (Option.mem_toList.mp hbody)
      exact ⟨callback, hcallback, hp.numbered.isWithin_of_child? hbody⟩
    · obtain ⟨callback, hcallback, hfirst⟩ :=
        Option.bind_eq_some_iff.mp (Option.mem_toList.mp hparameter)
      exact ⟨callback, hcallback,
        hp.numbered.isWithin_functionParameter (List.mem_of_mem_head? hfirst)⟩
  obtain ⟨callback, hcallback, hwithin⟩ := hcallback
  rw [collection, hp.arena_eq] at hcallback hmade
  obtain ⟨initializer, hinitializer, hcallbackWithin⟩ :=
    Arena.isWithin_callback hp.numbered hmade hcallback
  rw [hp.table_eq] at hinitializer
  refine ⟨k, hk, d, initializer, callback, hd, hwithin, hcallbackWithin, ?_⟩
  rw [binding, bindingId, collection, hp.arena_eq, hp.table_eq] at hd
  exact BindingTable.isWithin_initializer hp.numbered hd hinitializer

/-- What the derivation of merged views is made of holds no usage of a removed member: it stands in
the declarations of the views, which were checked to hold none. -/
theorem OfProgram.unread_of_view (hp : p.OfProgram) {draft : Draft} (h : p.viewDraft = .ok draft)
    (hn : n ∈ p.viewSources) (hm : m ∈ p.removed) {u : Usage} (hu : u ∈ (p.binding m).usages) :
    p.tree.isWithin u.node n = false := by
  obtain ⟨declarations, value, hviews, hdeclarations, hunread, -, -⟩ := viewDraft_eq_ok h
  obtain ⟨k, hk, d, initializer, callback, hd, hwithin, hcallbackWithin, hdeclarationWithin⟩ :=
    hp.exists_declaration_of_source hviews hn
  have hmem : d ∈ declarations := (mem_adjacentDeclarations hdeclarations).mpr ⟨k, hk, hd⟩
  have hfree := not_isWithin_of_checkUnread hunread hm u hu d hmem
  rw [binding, hp.table_eq] at hu
  have hlt := ((BindingTable.accounted_ofTree p.tree).usage u hu).2.1
  by_contra huse
  rw [Bool.not_eq_false] at huse
  have hin := hp.numbered.isWithin_trans hlt (hp.numbered.isWithin_trans hlt
    (hp.numbered.isWithin_trans hlt huse hwithin) hcallbackWithin) hdeclarationWithin
  rw [hin] at hfree
  cases hfree

/-- **What an edit copies holds no usage of a removed member**, if none stands where an iteration
takes an element. -/
theorem OfProgram.unread_of_part (hp : p.OfProgram) (hs : p.tree.Spaced) (hnames : p.Named)
    (h : p.rewrite = .ok r) (he : e ∈ r.edits) {copied : List NodeId} (hpart : p.Part e copied)
    (hn : n ∈ copied) (hm : m ∈ p.removed) {u : Usage} (hu : u ∈ (p.binding m).usages)
    (houtside : ¬ p.InElement u.node) : p.tree.isWithin u.node n = false := by
  cases hpart with
  | views _ _ hpattern _ =>
    obtain ⟨declared, -, hdeclared, -⟩ := rewrite_eq_ok h
    rw [declarationDraft, hpattern] at hdeclared
    exact hp.unread_of_view hdeclared hn hm hu
  | push _ _ _ hunread => exact not_isWithin_of_checkUnread hunread hm u hu n hn
  | element hcontext hconcerns hindexing hfirst =>
    obtain rfl := List.mem_singleton.mp hn
    by_contra hwithin
    rw [Bool.not_eq_false] at hwithin
    exact houtside ⟨_, hcontext, hconcerns, _, _, _, _, hindexing, hfirst, hwithin⟩
  | parameter _ _ =>
    obtain rfl := List.mem_singleton.mp hn
    exact hp.unread_of_pattern hs hnames h he
      (isEnclosed_parenthesize _ (isEnclosed_recordText _)) hm hu houtside
  | target _ _ _ =>
    obtain rfl := List.mem_singleton.mp hn
    exact hp.unread_of_pattern hs hnames h he (isEnclosed_recordText _) hm hu houtside
  | _ => cases hn

/-- **A merge leaves no reference behind.**  Every usage of a removed member lies in the span of an
edit; and unless one stands in the parameter by which the callback of an iteration takes an element,
no edit copies from the source what holds such a usage. -/
theorem merge_leaves_no_reference (l : Language) (source : Bytes) (root : Concrete)
    (pure : List String) (marker : String) (g : Group) :
    let t := Tree.ofConcrete l source root
    let b := BindingTable.ofTree t
    let a := Arena.ofTree b t
    let p := ofGroup t b a pure marker t.spelledNames g
    t.Spaced → g ∈ a.groups b t → ∀ r, p.rewrite = .ok r →
      (∀ m ∈ p.removed, ∀ u ∈ (p.binding m).usages,
        ∃ e ∈ r.edits, e.span.covers (t.span u.node) = true) ∧
      ((∀ m ∈ p.removed, ∀ u ∈ (p.binding m).usages, ¬ p.InElement u.node) →
        ∀ e ∈ r.edits, (∃ copied, p.Part e copied) ∧ ∀ copied, p.Part e copied → ∀ n ∈ copied,
          ∀ m ∈ p.removed, ∀ u ∈ (p.binding m).usages, t.isWithin u.node n = false) := by
  intro t b a p hs hg r hr
  have hp : p.OfProgram := .of_mem l source root pure marker t.spelledNames hg
  have hnames : p.Named := named_ofGroup t b a pure marker t.spelledNames g
  refine ⟨fun m hm u hu => ?_, fun houtside e he => ⟨exists_part hr he,
    fun copied hpart n hn m hm u hu => ?_⟩⟩
  · obtain ⟨e, he, hcovers, -⟩ := hp.rewrites_usage hs hnames hr hm hu
    exact ⟨e, he, hcovers⟩
  · exact hp.unread_of_part hs hnames hr he hpart hn hm hu (houtside m hm u hu)

end MergePlan

/-! ### Two programs -/

namespace Sample

/-- The declaration `const a = src.map(s => s.x);` at an offset. -/
def viewDeclaration (k : Nat) : Concrete :=
  construct "lexical_declaration" k (k + 28) [
    token "const" k (some "kind"),
    construct "variable_declarator" (k + 6) (k + 27) [
      construct "identifier" (k + 6) (k + 7) [] (some "name"), token "=" (k + 8),
      construct "call_expression" (k + 10) (k + 27) [
        construct "member_expression" (k + 10) (k + 17) [
          construct "identifier" (k + 10) (k + 13) [] (some "object"), token "." (k + 13),
          construct "property_identifier" (k + 14) (k + 17) [] (some "property")] (some "function"),
        construct "arguments" (k + 17) (k + 27) [
          token "(" (k + 17),
          construct "arrow_function" (k + 18) (k + 26) [
            construct "identifier" (k + 18) (k + 19) [] (some "parameter"), token "=>" (k + 20),
            construct "member_expression" (k + 23) (k + 26) [
              construct "identifier" (k + 23) (k + 24) [] (some "object"), token "." (k + 24),
              construct "property_identifier" (k + 25) (k + 26) [] (some "property")]
              (some "body")],
          token ")" (k + 26)] (some "arguments")] (some "value")],
    token ";" (k + 27)]

/-- The statement `a.forEach((v, i) => use(v, b));` behind two such declarations, with a parameter
and an argument of some widths in the places of `v` and `b`. -/
def iteration (parameter argument : Concrete) (w z : Nat) : Concrete :=
  construct "expression_statement" 77 (w + z + 106) [
    construct "call_expression" 77 (w + z + 105) [
      construct "member_expression" 77 86 [
        construct "identifier" 77 78 [] (some "object"), token "." 78,
        construct "property_identifier" 79 86 [] (some "property")] (some "function"),
      construct "arguments" 86 (w + z + 105) [
        token "(" 86,
        construct "arrow_function" 87 (w + z + 104) [
          construct "formal_parameters" 87 (w + 92) [
            token "(" 87, parameter, token "," (w + 88),
            construct "identifier" (w + 90) (w + 91) [], token ")" (w + 91)] (some "parameters"),
          token "=>" (w + 93),
          construct "call_expression" (w + 96) (w + z + 104) [
            construct "identifier" (w + 96) (w + 99) [] (some "function"),
            construct "arguments" (w + 99) (w + z + 104) [
              token "(" (w + 99), construct "identifier" (w + 100) (w + 101) [],
              token "," (w + 101), argument, token ")" (w + z + 103)] (some "arguments")]
            (some "body")],
        token ")" (w + z + 104)] (some "arguments")],
    token ";" (w + z + 105)]

/-- Two views of one collection are read at one index. -/
def zipping : Bytes := Utf8.encode ("const src = get();\nconst a = src.map(s => s.x);\n" ++
  "const b = src.map(s => s.y);\na.forEach((v, i) => use(v, b[i]));\n")

/-- The tree of `zipping`. -/
def zippingTree : Concrete :=
  construct "program" 0 112 [
    sourceDeclaration, viewDeclaration 19, viewDeclaration 48,
    iteration (construct "identifier" 88 89 [])
      (construct "subscript_expression" 104 108 [
        construct "identifier" 104 105 [] (some "object"), token "[" 105,
        construct "identifier" 106 107 [] (some "index"), token "]" 107]) 1 4]

/-- The default value of a parameter reads another view. -/
def defaulting : Bytes := Utf8.encode ("const src = get();\nconst a = src.map(s => s.x);\n" ++
  "const b = src.map(s => s.y);\na.forEach((v = b.length, i) => use(v, i));\n")

/-- The tree of `defaulting`. -/
def defaultingTree : Concrete :=
  construct "program" 0 120 [
    sourceDeclaration, viewDeclaration 19, viewDeclaration 48,
    iteration
      (construct "assignment_pattern" 88 100 [
        construct "identifier" 88 89 [] (some "left"), token "=" 90,
        construct "member_expression" 92 100 [
          construct "identifier" 92 93 [] (some "object"), token "." 93,
          construct "property_identifier" 94 100 [] (some "property")] (some "right")])
      (construct "identifier" 115 116 []) 12 1]

end Sample

/-- Both views are used in the iteration alone, which the merge rewrites. -/
theorem MergePlan.sample_leaves_no_reference :
    let t := Tree.ofConcrete .javascript Sample.zipping Sample.zippingTree
    let b := BindingTable.ofTree t
    let a := Arena.ofTree b t
    let g : Group := ⟨[1, 2], 0, .derivedViews, none, false⟩
    let p := ofGroup t b a [] "" t.spelledNames g
    t.Spaced ∧ g ∈ a.groups b t ∧
      (∀ m ∈ p.removed, ∀ u ∈ (p.binding m).usages, ¬ p.InElement u.node) ∧
      ∃ r, p.rewrite = .ok r ∧
        (Edit.applyAll t.source r.edits).1 =
          Utf8.encode ("const src = get();\n" ++
            "const srcRecords = src.map(s => (\x7b aItem: s.x, bItem: s.y \x7d));\n" ++
            "srcRecords.forEach((\x7b aItem: v, bItem \x7d, i) => use(v, bItem));\n") ∧
        (∀ m ∈ p.removed, ∀ u ∈ (p.binding m).usages,
          ∃ e ∈ r.edits, e.span.covers (t.span u.node) = true) ∧
        ∀ e ∈ r.edits, (∃ copied, p.Part e copied) ∧ ∀ copied, p.Part e copied → ∀ n ∈ copied,
          ∀ m ∈ p.removed, ∀ u ∈ (p.binding m).usages, t.isWithin u.node n = false := by
  intro t b a g p
  have hspaced : (∀ i < t.nodes.size, ∀ c ∈ t.children i, (t.span i).covers (t.span c) = true) ∧
      (∀ i < t.nodes.size,
        (t.span i).start ≤ (t.span i).stop ∧ (t.span i).stop ≤ t.source.length) ∧
      (∀ c ∈ t.comments, c.span.start ≤ c.span.stop) ∧
      ∀ i < t.nodes.size, t.isReferenceNode i = true → (t.span i).start < (t.span i).stop := by
    decide +kernel
  have hfacts : a.groups b t = [g] ∧
      a.contexts = [⟨34, 1, 6, 43, .callback "forEach" 36 39⟩] ∧
      (t.functionParameters 39).head? = some 41 ∧
      (∀ m ∈ p.removed, ∀ u ∈ (p.binding m).usages, t.isWithin u.node 41 = false) ∧
      p.rewrite.toOption.map (fun r => (Edit.applyAll t.source r.edits).1) =
        some (Utf8.encode ("const src = get();\n" ++
          "const srcRecords = src.map(s => (\x7b aItem: s.x, bItem: s.y \x7d));\n" ++
          "srcRecords.forEach((\x7b aItem: v, bItem \x7d, i) => use(v, bItem));\n")) := by
    decide +kernel
  obtain ⟨hnested, hnode, hcomment, hname⟩ := hspaced
  obtain ⟨hgroups, hcontexts, hfirst, hunread, happlied⟩ := hfacts
  have hs : t.Spaced := ⟨hnested, hnode, hcomment, hname⟩
  have hg : g ∈ a.groups b t := by
    rw [hgroups]
    exact .head _
  have houtside : ∀ m ∈ p.removed, ∀ u ∈ (p.binding m).usages, ¬ p.InElement u.node := by
    rintro m hm u hu ⟨context, hcontext, -, method, receiver, callback, first, hindexing, hhead,
      hwithin⟩
    obtain rfl : context = _ := List.mem_singleton.mp (hcontexts ▸ hcontext)
    obtain ⟨-, -, rfl⟩ := Indexing.callback.inj hindexing
    obtain rfl : first = 41 := Option.some.inj (hhead.symm.trans hfirst)
    exact Bool.noConfusion ((hunread m hm u hu).symm.trans hwithin)
  refine ⟨hs, hg, houtside, ?_⟩
  cases hr : p.rewrite with
  | error e =>
    rw [hr] at happlied
    cases happlied
  | ok r =>
    rw [hr] at happlied
    obtain ⟨hcovered, hcopied⟩ :=
      merge_leaves_no_reference .javascript Sample.zipping Sample.zippingTree [] "" g hs hg r hr
    exact ⟨r, rfl, Option.some.inj happlied, hcovered, hcopied houtside⟩

/-- **The exception.**  The default value of the parameter of an iteration reads another view: the
usage counts as taken care of, but the merge copies it into the pattern. -/
theorem MergePlan.merge_copies_default_value :
    let t := Tree.ofConcrete .javascript Sample.defaulting Sample.defaultingTree
    let b := BindingTable.ofTree t
    let a := Arena.ofTree b t
    let g : Group := ⟨[1, 2], 0, .derivedViews, none, false⟩
    let p := ofGroup t b a [] "" t.spelledNames g
    g ∈ a.groups b t ∧ 2 ∈ p.removed ∧ (p.binding 2).usages.map (·.node) = [44] ∧
      t.isWithin 44 41 = true ∧
      ∃ r, p.rewrite = .ok r ∧
        ⟨t.span 41, "\x7b aItem: v = b.length \x7d"⟩ ∈ r.edits ∧
        (Edit.applyAll t.source r.edits).1 =
          Utf8.encode ("const src = get();\n" ++
            "const srcRecords = src.map(s => (\x7b aItem: s.x, bItem: s.y \x7d));\n" ++
            "srcRecords.forEach((\x7b aItem: v = b.length \x7d, i) => use(v, i));\n") := by
  intro t b a g p
  have hfacts : a.groups b t = [g] ∧ 2 ∈ p.removed ∧
      (p.binding 2).usages.map (·.node) = [44] ∧ t.isWithin 44 41 = true ∧
      p.rewrite.toOption.map (fun r =>
        (decide (⟨t.span 41, "\x7b aItem: v = b.length \x7d"⟩ ∈ r.edits),
          (Edit.applyAll t.source r.edits).1)) =
        some (true, Utf8.encode ("const src = get();\n" ++
          "const srcRecords = src.map(s => (\x7b aItem: s.x, bItem: s.y \x7d));\n" ++
          "srcRecords.forEach((\x7b aItem: v = b.length \x7d, i) => use(v, i));\n")) := by
    decide +kernel
  obtain ⟨hgroups, hremoved, husages, hwithin, happlied⟩ := hfacts
  refine ⟨by rw [hgroups]; exact .head _, hremoved, husages, hwithin, ?_⟩
  cases hr : p.rewrite with
  | error e =>
    rw [hr] at happlied
    cases happlied
  | ok r =>
    rw [hr] at happlied
    obtain ⟨hmem, happlied⟩ := Prod.mk.inj (Option.some.inj happlied)
    exact ⟨r, rfl, of_decide_eq_true hmem, happlied⟩

end Declutter
