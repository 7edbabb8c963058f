import Declutter.Proofs.Expression.Reading

/-!
# The place of a name

A name that an expression reads stands in a context: the expression around it.  The way of the
evaluation to the name goes through everything that the context evaluates before its hole, and is
conditional if the context is.

The proof goes from the name up to the expression, one parent at a time: there is one lemma for each
way in which a child can be part of its parent.

## Main definitions

* `Tree.IsRead` — whether a node is a name that an expression may read.
* `Tree.Through` — whether the way up from a node to another goes through a child.
* `Tree.Locates` — whether a context is the place of a name in a node.

## Main results

* `Tree.Denotes.exists_context` — every name that is read has its place.
-/

namespace Declutter.Tree

/-- What is evaluated before a part of a node, along the way up. -/
def preceding (t : Tree) (u i : NodeId) : List NodeId :=
  (t.steps u i).flatMap fun (c, p) => t.evaluatedBefore c p

/-- Whether a part of a node is evaluated only under a condition. -/
def isConditional (t : Tree) (u i : NodeId) : Bool :=
  (t.steps u i).any fun (c, p) => t.isConditionalAt c p

/-- A name that an expression may read: neither the target of an assignment nor called. -/
structure IsRead (t : Tree) (u : NodeId) : Prop where
  lt_size : u < t.nodes.size
  isReferenceNode : t.isReferenceNode u = true
  not_target : ∀ i, t.kind i = .assignment → u ∈ t.children i → t.hasField u "left" = false
  not_callee : ∀ i, t.kind i = .call → t.child? i "function" ≠ some u

/-- Whether `c` is the child of `i` that `u` lies within. -/
structure Through (t : Tree) (u c i : NodeId) : Prop where
  mem : c ∈ t.children i
  within : c ≤ u ∧ u < t.stop c

/-- Whether a context is the place of a name in a node: the name is mentioned nowhere else, and the
way of the evaluation to the name accounts for what the context says of the hole. -/
structure Locates (t : Tree) (u i : NodeId) (d : Context) : Prop where
  notMem : u ∉ d.names
  before : ∀ e ∈ d.before, ∃ n ∈ t.preceding u i, t.Denotes n e
  conditional : d.IsConditional → t.isConditional u i = true

variable {t : Tree} {u i j c : NodeId} {d : Context} {e f g : Expr}

/-! ### Names that are read -/

/-- The kinds of names. -/
theorem InPreorder.kind_of_isReferenceNode (hn : t.InPreorder) (hu : u < t.nodes.size)
    (href : t.isReferenceNode u = true) :
    t.kind u ∈ [Kind.identifier, .shorthandProperty, .pattern] := by
  simp only [Tree.isReferenceNode, Bool.or_eq_true, beq_iff_eq] at href
  rcases href with (hkind | hkind) | htype
  · rw [hkind]
    decide
  · rw [hkind]
    decide
  · rw [hn.kind_eq u hu, htype]
    decide

namespace IsRead

theorem kind_mem (hu : t.IsRead u) (hn : t.InPreorder) :
    t.kind u ∈ [Kind.identifier, .shorthandProperty, .pattern] :=
  hn.kind_of_isReferenceNode hu.lt_size hu.isReferenceNode

/-- A name is no node of another kind. -/
theorem ne (hu : t.IsRead u) (hn : t.InPreorder)
    (h : t.kind i ∉ [Kind.identifier, .shorthandProperty, .pattern]) : u ≠ i := by
  rintro rfl
  exact h (hu.kind_mem hn)

/-- A name that lies within a node of another kind lies within one of its children. -/
theorem exists_through (hu : t.IsRead u) (hn : t.InPreorder)
    (h : t.kind i ∉ [Kind.identifier, .shorthandProperty, .pattern])
    (hi : i < t.nodes.size) (hiu : i ≤ u ∧ u < t.stop i) : ∃ c, t.Through u c i := by
  have hne : i ≠ u := (hu.ne hn h).symm
  obtain ⟨c, hc, hcu⟩ := (hn.tiles i hi).exists_mem (Nat.lt_of_le_of_ne hiu.1 hne) hiu.2
  exact ⟨c, hc, hcu⟩

/-- A name is all that lies within a node without children. -/
theorem eq_of_childless (hn : t.InPreorder) (hi : i < t.nodes.size) (hc : t.children i = [])
    (hiu : i ≤ u ∧ u < t.stop i) : u = i := by
  by_contra hne
  have hlt : i < u := Nat.lt_of_le_of_ne hiu.1 fun heq => hne heq.symm
  obtain ⟨c, hmem, -⟩ := (hn.tiles i hi).exists_mem hlt hiu.2
  rw [hc] at hmem
  cases hmem

end IsRead

/-! ### One step of the way -/

theorem isEvaluated_of_kind (hc : t.kind c ≠ .type ∧ t.kind c ≠ .propertyName)
    (hi : t.kind i ≠ .declarator ∧ t.kind i ≠ .forInStatement ∧ t.kind i ≠ .assignment) :
    t.isEvaluated c i = true := by
  simp [isEvaluated, hc.1, hc.2, hi.1, hi.2.1, hi.2.2]

/-- What stands before a child is evaluated before it. -/
theorem mem_evaluatedBefore (hn : t.InPreorder) (pre : List NodeId) {post : List NodeId}
    (hsplit : t.children i = pre ++ c :: post) (hj : j ∈ pre) (h : t.isEvaluated j i = true) :
    j ∈ t.evaluatedBefore c i := by
  have hi : i < t.nodes.size := lt_size_of_mem_children (c := c) (by rw [hsplit]; simp)
  have hpairwise := (hn.tiles i hi).pairwise
  rw [hsplit, List.pairwise_append] at hpairwise
  refine List.mem_filter.mpr ⟨?_, h⟩
  rw [hsplit, List.takeWhile_append_of_pos fun x hx => ?_]
  · exact List.mem_append_left _ hj
  · have hlt := (hpairwise.2.2 x hx c (.head _)).2
    exact bne_iff_ne.mpr (Nat.ne_of_lt hlt)

/-- What is evaluated before a child stands before it. -/
theorem exists_split_of_mem_evaluatedBefore (hc : c ∈ t.children i)
    (h : j ∈ t.evaluatedBefore c i) : ∃ pre post, t.children i = pre ++ c :: post ∧ j ∈ pre := by
  obtain ⟨htake, -⟩ := List.mem_filter.mp h
  obtain ⟨pre, post, hsplit, hpre⟩ := List.eq_append_cons_of_mem hc
  have hbefore : (t.children i).takeWhile (· != c) = pre := by
    rw [hsplit, List.takeWhile_append_of_pos fun x hx => ?_]
    · simp
    · simpa using fun heq : x = c => hpre (heq ▸ hx)
  rw [hbefore] at htake
  exact ⟨pre, post, hsplit, htake⟩

/-- And it ends before the child begins. -/
theorem stop_le_of_mem_evaluatedBefore (hn : t.InPreorder) (hc : c ∈ t.children i)
    (h : j ∈ t.evaluatedBefore c i) : j ∈ t.children i ∧ t.stop j ≤ c := by
  obtain ⟨pre, post, hsplit, hj⟩ := exists_split_of_mem_evaluatedBefore hc h
  have hpairwise := (hn.tiles i (lt_size_of_mem_children hc)).pairwise
  rw [hsplit, List.pairwise_append] at hpairwise
  refine ⟨?_, (hpairwise.2.2 j hj c (.head _)).1⟩
  rw [hsplit]
  exact List.mem_append_left _ hj

namespace Denotes

theorem isEvaluated (h : t.Denotes c e)
    (hi : t.kind i ≠ .declarator ∧ t.kind i ≠ .forInStatement ∧ t.kind i ≠ .assignment) :
    t.isEvaluated c i = true := by
  refine isEvaluated_of_kind ⟨fun hkind => ?_, fun hkind => ?_⟩ hi
  · exact absurd (hkind ▸ h.kind_mem) (by decide)
  · exact absurd (hkind ▸ h.kind_mem) (by decide)

/-- The names of an expression lie within its node. -/
theorem bounds (hn : t.InPreorder) (h : t.Denotes i e) {n : NodeId} (hmem : n ∈ e.names) :
    i ≤ n ∧ n < t.stop i := by
  have := (hn.mem_visited_iff h.lt_size).mp (h.mem_visited (enters_all hn) hmem).1
  exact ⟨this.1, this.2.1⟩

/-- A name is not mentioned beside the child that it lies within. -/
theorem notMem_names (hn : t.InPreorder) (h : t.Denotes j e) (hj : j ∈ t.children i)
    (hc : t.Through u c i) (hne : j ≠ c) : u ∉ e.names := by
  intro hmem
  obtain ⟨hju, huj⟩ := h.bounds hn hmem
  rcases hn.lt_or_lt hj hc.mem with heq | hle | hle
  · exact hne heq
  · exact absurd (Nat.lt_of_lt_of_le huj hle) (Nat.not_lt.mpr hc.within.1)
  · exact absurd (Nat.lt_of_lt_of_le hc.within.2 hle) (Nat.not_lt.mpr hju)

end Denotes

namespace DenotesAll

variable {is : List NodeId} {es : List Expr}

theorem exists_of_mem (h : t.DenotesAll is es) (he : e ∈ es) : ∃ j ∈ is, t.Denotes j e := by
  induction es generalizing is with
  | nil => cases he
  | cons f es ih =>
    cases is with
    | nil => exact h.elim
    | cons j is =>
      obtain ⟨hd, hs⟩ := h
      rcases List.mem_cons.mp he with rfl | he
      · exact ⟨j, .head _, hd⟩
      · obtain ⟨k, hk, hd⟩ := ih hs he
        exact ⟨k, .tail _ hk, hd⟩

/-- A name is not mentioned in the arguments beside the one that it lies within. -/
theorem notMem_namesAll (hn : t.InPreorder) (h : t.DenotesAll is es)
    (his : ∀ j ∈ is, j ∈ t.children i ∧ j ≠ c) (hc : t.Through u c i) :
    u ∉ Expr.namesAll es := by
  induction es generalizing is with
  | nil => exact List.not_mem_nil
  | cons e es ih =>
    cases is with
    | nil => exact h.elim
    | cons j is =>
      obtain ⟨hd, hs⟩ := h
      obtain ⟨hj, hne⟩ := his j (.head _)
      rw [Expr.namesAll, List.mem_append, not_or]
      exact ⟨hd.notMem_names hn hj hc hne, ih hs fun k hk => his k (.tail _ hk)⟩

end DenotesAll

namespace Through

variable (h : t.Through u c i) (hn : t.InPreorder)
include h hn

theorem mem_chain (hu : u < t.nodes.size) : c ∈ t.chain u := (hn.mem_chain_iff hu).mpr h.within

/-- The way goes on from a child to its parent. -/
theorem preceding_eq (hu : u < t.nodes.size) :
    t.preceding u i = t.preceding u c ++ t.evaluatedBefore c i := by
  rw [preceding, hn.steps_of_mem hu h.mem (h.mem_chain hn hu), List.flatMap_append, preceding]
  simp

theorem isConditional_eq (hu : u < t.nodes.size) :
    t.isConditional u i = (t.isConditional u c || t.isConditionalAt c i) := by
  rw [isConditional, hn.steps_of_mem hu h.mem (h.mem_chain hn hu), List.any_append, isConditional]
  simp

end Through

/-- What is evaluated on the way to a part of a node is evaluated before a step of the way. -/
theorem exists_step_of_mem_preceding (hn : t.InPreorder) (hu : u < t.nodes.size)
    (hi : i ≤ u ∧ u < t.stop i) (h : j ∈ t.preceding u i) :
    ∃ c p, (c, p) ∈ t.steps u i ∧ c ∈ t.children p ∧ c ≤ u ∧ j ∈ t.evaluatedBefore c p := by
  obtain ⟨⟨c, p⟩, hstep, hbefore⟩ := List.mem_flatMap.mp h
  obtain ⟨hc, hcu, -⟩ := (hn.mem_steps_iff hu hi).mp hstep
  exact ⟨c, p, hstep, hc, hcu.1, hbefore⟩

/-! ### From a child to its parent -/

/-- The arguments of an optional call may be passed over. -/
theorem isConditionalAt_of_optional (hkind : t.kind i = .call) (hoptional : t.optionalLink i = true)
    (hc : t.hasField c "arguments" = true) : t.isConditionalAt c i = true := by
  have hfield : t.field c = some "arguments" := by simpa [hasField] using hc
  have hchain : t.hasOptionalChain i = true := by
    refine List.any_eq_true.mpr ⟨i, ?_, by rw [hkind, hoptional]; rfl⟩
    rw [descent]
    split
    · exact .head _
    · split
      · exact .head _
      · exact .head _
  rw [isConditionalAt, hkind]
  dsimp only
  rw [hchain, Bool.and_true, hasEitherField, hasField, hasField, hfield]
  decide

/-- Both results of a choice may be passed over. -/
theorem isConditionalAt_of_ternary (hkind : t.kind i = .ternary)
    (hc : t.hasField c "consequence" = true ∨ t.hasField c "alternative" = true) :
    t.isConditionalAt c i = true := by
  rw [isConditionalAt, hkind]
  exact Bool.or_eq_true _ _ ▸ hc

namespace Locates

variable (hn : t.InPreorder) (hu : u < t.nodes.size)
include hn hu

/-- What has to be shown to get from a child to its parent. -/
theorem up (h : t.Locates u c d) (hc : t.Through u c i) {d' : Context} (hnames : u ∉ d'.names)
    (hbefore : ∀ e ∈ d'.before, e ∈ d.before ∨ ∃ n ∈ t.evaluatedBefore c i, t.Denotes n e)
    (hconditional : d'.IsConditional → d.IsConditional ∨ t.isConditionalAt c i = true) :
    t.Locates u i d' where
  notMem := hnames
  before e he := by
    rw [hc.preceding_eq hn hu]
    rcases hbefore e he with hold | ⟨n, hmem, hd⟩
    · obtain ⟨n, hmem, hd⟩ := h.before e hold
      exact ⟨n, List.mem_append_left _ hmem, hd⟩
    · exact ⟨n, List.mem_append_right _ hmem, hd⟩
  conditional hd := by
    rw [hc.isConditional_eq hn hu, Bool.or_eq_true]
    exact (hconditional hd).imp_left h.conditional

/-- Nothing is added by a parent with nothing else in it. -/
theorem only (h : t.Locates u c d) (hc : t.Through u c i) : t.Locates u i d :=
  h.up hn hu hc h.notMem (fun _ => .inl) .inl

theorem left {op : String} {l r : NodeId} (hchildren : t.children i = [l, r]) (hf : t.Denotes r f)
    (h : t.Locates u l d) (hc : t.Through u l i) : t.Locates u i (.left op d f) := by
  have hr : r ∈ t.children i := by rw [hchildren]; simp
  have hrl : r ≠ l := by
    have := hn.nodup_children i
    rw [hchildren] at this
    simpa [eq_comm] using this
  refine h.up hn hu hc ?_ (fun _ => .inl) .inl
  rw [Context.names, List.mem_append, not_or]
  exact ⟨h.notMem, hf.notMem_names hn hr hc hrl⟩

theorem right {op : String} {l r : NodeId} (hkind : t.kind i = .binary)
    (hop : t.operator i = some op) (hchildren : t.children i = [l, r])
    (hright : t.hasField r "right" = true) (he : t.Denotes l e) (h : t.Locates u r d)
    (hc : t.Through u r i) : t.Locates u i (.right op e d) := by
  have hl : l ∈ t.children i := by rw [hchildren]; simp
  have hlr : l ≠ r := by
    have := hn.nodup_children i
    rw [hchildren] at this
    simpa using this
  refine h.up hn hu hc ?_ (fun g hg => ?_) fun hg => ?_
  · rw [Context.names, List.mem_append, not_or]
    exact ⟨he.notMem_names hn hl hc hlr, h.notMem⟩
  · rcases List.mem_cons.mp hg with rfl | hg
    · exact .inr ⟨l, mem_evaluatedBefore hn [l] hchildren (.head _)
        (he.isEvaluated (by rw [hkind]; decide)), he⟩
    · exact .inl hg
  · refine hg.symm.imp_right fun hshort => ?_
    rw [isConditionalAt, hkind]
    dsimp only
    rw [hop, Option.any_some, hright, Bool.and_true]
    exact hshort

section Ternary

variable {p a b : NodeId} (hchildren : t.children i = [p, a, b])
include hchildren

theorem condition (hf : t.Denotes a f) (hg : t.Denotes b g) (h : t.Locates u p d)
    (hc : t.Through u p i) : t.Locates u i (.condition d f g) := by
  have hnodup := hn.nodup_children i
  rw [hchildren] at hnodup
  have ha : a ∈ t.children i ∧ a ≠ p := ⟨by rw [hchildren]; simp, by grind⟩
  have hb : b ∈ t.children i ∧ b ≠ p := ⟨by rw [hchildren]; simp, by grind⟩
  refine h.up hn hu hc ?_ (fun _ => .inl) .inl
  rw [Context.names, List.mem_append, List.mem_append, not_or, not_or]
  exact ⟨⟨h.notMem, hf.notMem_names hn ha.1 hc ha.2⟩, hg.notMem_names hn hb.1 hc hb.2⟩

theorem consequence (hkind : t.kind i = .ternary) (hthen : t.hasField a "consequence" = true)
    (he : t.Denotes p e) (hg : t.Denotes b g) (h : t.Locates u a d) (hc : t.Through u a i) :
    t.Locates u i (.consequence e d g) := by
  have hnodup := hn.nodup_children i
  rw [hchildren] at hnodup
  have hp : p ∈ t.children i ∧ p ≠ a := ⟨by rw [hchildren]; simp, by grind⟩
  have hb : b ∈ t.children i ∧ b ≠ a := ⟨by rw [hchildren]; simp, by grind⟩
  refine h.up hn hu hc ?_ (fun k hk => ?_)
    fun _ => .inr (isConditionalAt_of_ternary hkind (.inl hthen))
  · rw [Context.names, List.mem_append, List.mem_append, not_or, not_or]
    exact ⟨⟨he.notMem_names hn hp.1 hc hp.2, h.notMem⟩, hg.notMem_names hn hb.1 hc hb.2⟩
  · rcases List.mem_cons.mp hk with rfl | hk
    · exact .inr ⟨p, mem_evaluatedBefore hn [p] hchildren (.head _)
        (he.isEvaluated (by rw [hkind]; decide)), he⟩
    · exact .inl hk

theorem alternative (hkind : t.kind i = .ternary) (helse : t.hasField b "alternative" = true)
    (he : t.Denotes p e) (hf : t.Denotes a f) (h : t.Locates u b d) (hc : t.Through u b i) :
    t.Locates u i (.alternative e f d) := by
  have hnodup := hn.nodup_children i
  rw [hchildren] at hnodup
  have hp : p ∈ t.children i ∧ p ≠ b := ⟨by rw [hchildren]; simp, by grind⟩
  have ha : a ∈ t.children i ∧ a ≠ b := ⟨by rw [hchildren]; simp, by grind⟩
  refine h.up hn hu hc ?_ (fun k hk => ?_)
    fun _ => .inr (isConditionalAt_of_ternary hkind (.inr helse))
  · rw [Context.names, List.mem_append, List.mem_append, not_or, not_or]
    exact ⟨⟨he.notMem_names hn hp.1 hc hp.2, hf.notMem_names hn ha.1 hc ha.2⟩, h.notMem⟩
  · rcases List.mem_cons.mp hk with rfl | hk
    · exact .inr ⟨p, mem_evaluatedBefore hn [p, a] hchildren (.head _)
        (he.isEvaluated (by rw [hkind]; decide)), he⟩
    · exact .inl hk

end Ternary

theorem assign {n : NodeId} (hun : u ≠ n) (h : t.Locates u c d) (hc : t.Through u c i) :
    t.Locates u i (.assign n d) := by
  refine h.up hn hu hc ?_ (fun _ => .inl) .inl
  rw [Context.names, List.mem_cons, not_or]
  exact ⟨hun, h.notMem⟩

/-- The way from an argument goes through the list of the arguments. -/
theorem argument {callee a : NodeId} {text : String} {optional : Bool} {pre post : List NodeId}
    {es₁ es₂ : List Expr} (hkind : t.kind i = .call) (hoptional : t.optionalLink i = optional)
    (hchildren : t.children i = [callee, a]) (hname : t.Denotes callee (.name callee))
    (harguments : t.hasField a "arguments" = true) (ha : t.kind a = .arguments)
    (hsplit : t.children a = pre ++ c :: post) (hpre : t.DenotesAll pre es₁)
    (hpost : t.DenotesAll post es₂) (hcallee : u ≠ callee) (h : t.Locates u c d)
    (hc : t.Through u c a) (hai : t.Through u a i) :
    t.Locates u i (.argument callee text optional es₁ d es₂) := by
  have hnodup := hn.nodup_children a
  rw [hsplit, List.nodup_append] at hnodup
  have hbefore : ∀ j ∈ pre, j ∈ t.children a ∧ j ≠ c := fun j hj => by
    refine ⟨?_, hnodup.2.2 j hj c (.head _)⟩
    rw [hsplit]
    exact List.mem_append_left _ hj
  have hbehind : ∀ j ∈ post, j ∈ t.children a ∧ j ≠ c := fun j hj => by
    refine ⟨?_, fun heq => (List.nodup_cons.mp hnodup.2.1).1 (heq ▸ hj)⟩
    rw [hsplit]
    exact List.mem_append_right _ (.tail _ hj)
  refine ⟨?_, fun e he => ?_, fun hcond => ?_⟩
  · rw [Context.names, List.mem_cons, List.mem_append, List.mem_append, not_or, not_or, not_or]
    exact ⟨hcallee, hpre.notMem_namesAll hn hbefore hc, h.notMem,
      hpost.notMem_namesAll hn hbehind hc⟩
  · -- Before the hole come the callee, the earlier arguments, and what the argument evaluates.
    rw [hai.preceding_eq hn hu, hc.preceding_eq hn hu]
    rcases List.mem_cons.mp he with rfl | he
    · refine ⟨callee, List.mem_append_right _ ?_, hname⟩
      exact mem_evaluatedBefore hn [callee] hchildren (.head _)
        (hname.isEvaluated (by rw [hkind]; decide))
    rcases List.mem_append.mp he with he | he
    · obtain ⟨j, hj, hje⟩ := hpre.exists_of_mem he
      refine ⟨j, List.mem_append_left _ (List.mem_append_right _ ?_), hje⟩
      exact mem_evaluatedBefore hn pre hsplit hj (hje.isEvaluated (by rw [ha]; decide))
    · obtain ⟨n, hmem, hne⟩ := h.before e he
      exact ⟨n, List.mem_append_left _ (List.mem_append_left _ hmem), hne⟩
  · rw [hai.isConditional_eq hn hu, hc.isConditional_eq hn hu, Bool.or_eq_true, Bool.or_eq_true]
    rcases hcond with hopt | hcond
    · exact .inr (isConditionalAt_of_optional hkind (hoptional.trans hopt) harguments)
    · exact .inl (.inl (h.conditional hcond))

end Locates

/-! ### The place of a name -/

mutual

/-- **The place of a name** in an expression that it lies within. -/
theorem Denotes.exists_context (hn : t.InPreorder) (hu : t.IsRead u) :
    ∀ {i : NodeId} {e : Expr}, t.Denotes i e → i ≤ u ∧ u < t.stop i →
      ∃ d : Context, e = d.plug (.name u) ∧ t.Locates u i d
  | i, .literal _, h, hiu => by
    -- There are no names below a literal.
    have hne : u ≠ i := hu.ne hn (by rw [h.1]; decide)
    have href := h.2.2 u ((hn.mem_subtree_iff h.lt_size).mpr hiu) hne
    rw [hu.isReferenceNode] at href
    cases href
  | i, .name n, h, hiu => by
    obtain rfl : u = i := IsRead.eq_of_childless hn h.lt_size h.2.1 hiu
    rw [← h.2.2]
    exact ⟨.hole, rfl, List.not_mem_nil, fun _ he => (nomatch he), False.elim⟩
  | i, .parenthesized e, h, hiu => by
    have hi := h.lt_size
    obtain ⟨hkind, c, hchildren, he⟩ := h
    obtain ⟨x, hx⟩ := hu.exists_through hn (by rw [hkind]; decide) hi hiu
    obtain rfl : x = c := by simpa [hchildren] using hx.mem
    obtain ⟨d, rfl, hd⟩ := Denotes.exists_context hn hu he hx.within
    exact ⟨.parenthesized d, rfl, hd.up hn hu.lt_size hx hd.notMem (fun _ => .inl) .inl⟩
  | i, .unary op e, h, hiu => by
    have hi := h.lt_size
    obtain ⟨hkind, -, -, c, hchildren, he⟩ := h
    obtain ⟨x, hx⟩ := hu.exists_through hn (by rw [hkind]; decide) hi hiu
    obtain rfl : x = c := by simpa [hchildren] using hx.mem
    obtain ⟨d, rfl, hd⟩ := Denotes.exists_context hn hu he hx.within
    exact ⟨.unary op d, rfl, hd.up hn hu.lt_size hx hd.notMem (fun _ => .inl) .inl⟩
  | i, .binary op e f, h, hiu => by
    have hi := h.lt_size
    obtain ⟨hkind, hop, l, r, hchildren, hright, he, hf⟩ := h
    obtain ⟨x, hx⟩ := hu.exists_through hn (by rw [hkind]; decide) hi hiu
    have hcases : x = l ∨ x = r := by simpa [hchildren] using hx.mem
    rcases hcases with rfl | rfl
    · obtain ⟨d, rfl, hd⟩ := Denotes.exists_context hn hu he hx.within
      exact ⟨.left op d f, rfl, hd.left hn hu.lt_size hchildren hf hx⟩
    · obtain ⟨d, rfl, hd⟩ := Denotes.exists_context hn hu hf hx.within
      exact ⟨.right op e d, rfl, hd.right hn hu.lt_size hkind hop hchildren hright he hx⟩
  | i, .ternary e f g, h, hiu => by
    have hi := h.lt_size
    obtain ⟨hkind, p, a, b, hchildren, hthen, helse, he, hf, hg⟩ := h
    obtain ⟨x, hx⟩ := hu.exists_through hn (by rw [hkind]; decide) hi hiu
    have hcases : x = p ∨ x = a ∨ x = b := by simpa [hchildren] using hx.mem
    rcases hcases with rfl | rfl | rfl
    · obtain ⟨d, rfl, hd⟩ := Denotes.exists_context hn hu he hx.within
      exact ⟨.condition d f g, rfl, hd.condition hn hu.lt_size hchildren hf hg hx⟩
    · obtain ⟨d, rfl, hd⟩ := Denotes.exists_context hn hu hf hx.within
      exact ⟨.consequence e d g, rfl,
        hd.consequence hn hu.lt_size hchildren hkind hthen he hg hx⟩
    · obtain ⟨d, rfl, hd⟩ := Denotes.exists_context hn hu hg hx.within
      exact ⟨.alternative e f d, rfl,
        hd.alternative hn hu.lt_size hchildren hkind helse he hf hx⟩
  | i, .assign n e, h, hiu => by
    have hi := h.lt_size
    obtain ⟨hkind, c, hchildren, hleft, hname, hleaf, he⟩ := h
    -- A name that is read is not the target.
    have hun : u ≠ n := by
      rintro rfl
      rw [hu.not_target i hkind (by rw [hchildren]; simp)] at hleft
      cases hleft
    obtain ⟨x, hx⟩ := hu.exists_through hn (by rw [hkind]; decide) hi hiu
    have hcases : x = n ∨ x = c := by simpa [hchildren] using hx.mem
    rcases hcases with rfl | rfl
    · exact absurd (IsRead.eq_of_childless hn (hn.lt_size_of_mem hx.mem) hleaf hx.within) hun
    · obtain ⟨d, rfl, hd⟩ := Denotes.exists_context hn hu he hx.within
      exact ⟨.assign n d, rfl, hd.assign hn hu.lt_size hun hx⟩
  | i, .call callee text optional es, h, hiu => by
    have hi := h.lt_size
    obtain ⟨hkind, -, hoptional, a, hchildren, hfield, hname, hleaf, harguments, ha, hes⟩ := h
    have hun : u ≠ callee := by
      rintro rfl
      refine hu.not_callee i hkind ?_
      rw [child?, hchildren]
      exact List.find?_cons_of_pos hfield
    obtain ⟨x, hx⟩ := hu.exists_through hn (by rw [hkind]; decide) hi hiu
    have hcases : x = callee ∨ x = a := by simpa [hchildren] using hx.mem
    rcases hcases with rfl | rfl
    · exact absurd (IsRead.eq_of_childless hn (hn.lt_size_of_mem hx.mem) hleaf hx.within) hun
    · -- The name lies in the list of the arguments, which is no expression, and in one of them.
      have hxsize := hn.lt_size_of_mem hx.mem
      obtain ⟨y, hy⟩ := hu.exists_through hn (by rw [ha]; decide) hxsize hx.within
      obtain ⟨pre, c, post, es₁, d, es₂, hsplit, rfl, hcu, hpre, hpost, hd⟩ :=
        DenotesAll.exists_context hn hu hes ⟨y, hy.mem, hy.within⟩
      have hc : t.Through u c x := ⟨by rw [hsplit]; simp, hcu⟩
      exact ⟨.argument callee text optional es₁ d es₂, rfl,
        hd.argument hn hu.lt_size hkind hoptional hchildren ⟨hname, hleaf, rfl⟩ harguments ha hsplit
          hpre hpost hun hc hx⟩

theorem DenotesAll.exists_context (hn : t.InPreorder) (hu : t.IsRead u) :
    ∀ {is : List NodeId} {es : List Expr}, t.DenotesAll is es →
      (∃ c ∈ is, c ≤ u ∧ u < t.stop c) →
      ∃ pre c post es₁ d es₂, is = pre ++ c :: post ∧ es = es₁ ++ d.plug (.name u) :: es₂ ∧
        (c ≤ u ∧ u < t.stop c) ∧ t.DenotesAll pre es₁ ∧ t.DenotesAll post es₂ ∧ t.Locates u c d
  | [], [], _, h => by
    obtain ⟨_, hmem, -⟩ := h
    cases hmem
  | j :: is, e :: es, ⟨h, hs⟩, hex => by
    by_cases hj : j ≤ u ∧ u < t.stop j
    · obtain ⟨d, hd, hplace⟩ := Denotes.exists_context hn hu h hj
      exact ⟨[], j, is, [], d, es, rfl, by rw [hd]; rfl, hj, trivial, hs, hplace⟩
    · obtain ⟨c, hmem, hc⟩ := hex
      have hmem' : c ∈ is := (List.mem_cons.mp hmem).resolve_left fun heq => hj (heq ▸ hc)
      obtain ⟨pre, c, post, es₁, d, es₂, hsplit, hes, hbounds, hpre, hpost, hplace⟩ :=
        DenotesAll.exists_context hn hu hs ⟨c, hmem', hc⟩
      exact ⟨j :: pre, c, post, e :: es₁, d, es₂, by rw [hsplit]; rfl, by rw [hes]; rfl, hbounds,
        ⟨h, hpre⟩, hpost, hplace⟩

end

end Declutter.Tree
