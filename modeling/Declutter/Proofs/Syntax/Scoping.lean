import Declutter.Proofs.Syntax.Walk
import Declutter.Syntax.Statement

/-!
# How scopes are nested

The scopes of a program are opened in one walk, each by a node, and each knows the scope around it.
So the scopes around a node are those of the nodes around it: what stands within a node sees, behind
the scopes that are opened within that node, exactly the scopes that the node itself sees.

## Main definitions

* `Tree.Opened` — what is known of a scope that a node opens.
* `Tree.Nested` — what the scopes of a tree satisfy.

## Main results

* `Tree.nested_ofConcrete` — the scopes of the tree of a concrete tree are nested so.
* `Tree.Nested.scopeChain_eq_append` — what a node within another one sees.
* `Tree.Nested.isWithin_scope`, `Tree.Nested.isWithin_functionScope` — a node lies within the node
  that opens its scope.
* `Tree.Nested.scopeOf_sibling` — the children of a construct lie in one scope.
-/

namespace Declutter

/-- Whether constructs of a kind may open scopes. -/
def Kind.opensScope : Kind → Bool
  | .function | .forStatement | .forInStatement | .catchClause | .switchBody | .block => true
  | _ => false

/-- Whether some constructs of a kind have names that belong to the scope around them. -/
def Kind.isNamedOutside : Kind → Bool
  | .function | .classDefinition => true
  | _ => false

/-- No list of statements has a name. -/
theorem Kind.isNamedOutside_of_isStatementList {k : Kind} (h : k.isStatementList = true) :
    k.isNamedOutside = false := by
  cases k <;> first | rfl | cases h

theorem Label.opensScope_of_scopeKind? {l : Label} {parent : Option Kind} {kind : ScopeKind}
    (h : l.scopeKind? parent = some kind) : l.kind.opensScope = true := by
  unfold Label.scopeKind? at h
  generalize l.kind = k at h ⊢
  cases k <;> first | rfl | cases h

theorem Label.isNamedOutside_of_namesOutside {l : Label} (h : l.namesOutside = true) :
    l.kind.isNamedOutside = true := by
  unfold Label.namesOutside at h
  simp only [Bool.or_eq_true, beq_iff_eq] at h
  unfold Label.kind
  rcases h with ((h | h) | h) | h <;> rw [h] <;> decide

namespace Tree

/-- What is known of a scope that a node opens: the scope around it is the one in which the node
lies, and was opened before; and it is a function's or shares the function around it. -/
structure Opened (t : Tree) (s : ScopeId) : Prop where
  parent_eq : (t.scope s).parent = some (t.scopeOf (t.scope s).node)
  outer_lt : t.scopeOf (t.scope s).node < s
  functionScope_eq : t.functionScope s = s ∨
    t.functionScope s = t.functionScope (t.scopeOf (t.scope s).node)

/-- Whether the children of a node lie in one scope, which is the one of the node itself or one that
the node opens; a name may stay in the scope of the node. -/
def HasInside (t : Tree) (i : NodeId) : Prop :=
  ∃ s, (s = t.scopeOf i ∨ (t.kind i).opensScope = true ∧ s ≠ 0 ∧ s < t.scopes.size ∧
      (t.scope s).node = i) ∧
    ∀ c ∈ t.children i, t.scopeOf c = s ∨
      (t.kind i).isNamedOutside = true ∧ t.scopeOf c = t.scopeOf i

/-- What the scopes of a tree satisfy. -/
structure Nested (t : Tree) : Prop where
  scopeOf_root : t.scopeOf 0 = 0
  program : (t.scope 0).parent = none ∧ (t.scope 0).node = 0 ∧ t.functionScope 0 = 0
  inside : ∀ i < t.nodes.size, t.HasInside i
  opened : ∀ s ≠ 0, s < t.scopes.size → t.Opened s

end Tree

/-! ### The walk that opens the scopes -/

namespace Outline

mutual

/-- Scopes are only added. -/
theorem prefix_place (parent : Option Kind) (outer : Place) (i : NodeId) (opened : List Scope)
    (o : Outline) : opened <+: (place parent outer i opened o).1 := by
  cases o with
  | node l children =>
    rw [place]
    refine List.IsPrefix.trans ?_ (prefix_placeAll l outer _ (i + 1) _ children)
    unfold enter
    split
    · exact List.prefix_refl _
    · exact List.prefix_append _ _

theorem prefix_placeAll (parent : Label) (outer inner : Place) (i : NodeId) (opened : List Scope)
    (os : List Outline) : opened <+: (placeAll parent outer inner i opened os).1 := by
  cases os with
  | nil => exact List.prefix_refl _
  | cons o rest =>
    rw [placeAll]
    exact (prefix_placeAll parent outer inner _ opened rest).trans (prefix_place _ _ i _ o)

end

/-- Whether a place is one of a tree: its scope was opened already. -/
structure Place.Of (t : Tree) (opened : List Scope) (p : Place) : Prop where
  lt : p.scope < opened.length
  functionScope_eq : t.functionScope p.scope = p.functionScope

theorem Place.Of.mono {t : Tree} {opened opened' : List Scope} {p : Place} (h : p.Of t opened)
    (hextends : opened <+: opened') : p.Of t opened' :=
  ⟨Nat.lt_of_lt_of_le h.lt hextends.length_le, h.functionScope_eq⟩

theorem scope_eq_of_prefix {t : Tree} {scopes : List Scope} {s : ScopeId} {scope : Scope}
    (h : scopes <+: t.scopes.toList) (hs : scopes[s]? = some scope) :
    s < t.scopes.size ∧ t.scope s = scope := by
  obtain ⟨rest, hrest⟩ := h
  have hlt : s < scopes.length := (List.getElem?_eq_some_iff.mp hs).1
  have hget : t.scopes[s]? = some scope := by
    rw [← Array.getElem?_toList, ← hrest, List.getElem?_append_left hlt, hs]
  refine ⟨(Array.getElem?_eq_some_iff.mp hget).1, ?_⟩
  rw [Tree.scope, Array.getD_eq_getD_getElem?, hget]
  rfl

/-- The place inside a construct is the one outside, or one in a scope that the construct opens. -/
theorem enter_cases {t : Tree} {parent : Option Kind} {outer inner : Place} {i : Nat}
    {opened opened' : List Scope} {l : Label} (houter : outer.Of t opened)
    (hi : t.scopeOf i = outer.scope) (henter : enter parent outer i opened l = (inner, opened'))
    (hextends : opened' <+: t.scopes.toList) :
    inner.Of t opened' ∧
      (inner.scope = outer.scope ∨ l.kind.opensScope = true ∧ inner.scope ≠ 0 ∧
        inner.scope < t.scopes.size ∧ (t.scope inner.scope).node = i) ∧
      ∀ s, opened.length ≤ s → s < opened'.length → t.Opened s := by
  unfold enter at henter
  split at henter
  · obtain ⟨rfl, rfl⟩ := Prod.mk.inj henter
    exact ⟨houter, .inl rfl, fun s hle hlt => absurd hlt (Nat.not_lt.mpr hle)⟩
  · rename_i kind hkind
    obtain ⟨rfl, rfl⟩ := Prod.mk.inj henter
    obtain ⟨hlt, hscope⟩ := scope_eq_of_prefix hextends (s := opened.length) List.getElem?_concat_length
    have hpos : 0 < opened.length := Nat.lt_of_le_of_lt (Nat.zero_le _) houter.lt
    refine ⟨⟨by simp, ?_⟩, .inr ⟨l.opensScope_of_scopeKind? hkind, Nat.ne_of_gt hpos, hlt, ?_⟩, ?_⟩
    · rw [Tree.functionScope, hscope]
    · rw [hscope]
    · intro s hle hlt'
      obtain rfl : s = opened.length := by
        rw [List.length_append, List.length_singleton] at hlt'
        omega
      refine ⟨?_, ?_, ?_⟩
      · rw [hscope, hi]
      · rw [hscope, hi]
        exact houter.lt
      · rw [Tree.functionScope, hscope, hi, houter.functionScope_eq]
        dsimp only
        split
        · exact .inl rfl
        · exact .inr rfl

/-- What holds of each node that is numbered between two numbers, and of each scope that was opened
meanwhile. -/
structure NestedBetween (t : Tree) (start stop : Nat) (opened opened' : List Scope) : Prop where
  inside : ∀ j, start ≤ j → j < stop → t.HasInside j
  opened : ∀ s, opened.length ≤ s → s < opened'.length → t.Opened s

mutual

/-- **A construct and all that is below it** lie in nested scopes. -/
theorem place_nested {t : Tree} {source : Bytes} {parentId : Option NodeId} (parent : Option Kind)
    {outer : Place} {i : Nat} {opened : List Scope} {o : Outline}
    (hheld : HeldAt t source parentId i o)
    (hscopes : ∀ k < o.size, (place parent outer i opened o).2[k]? = some (t.scopeOf (i + k)))
    (hextends : (place parent outer i opened o).1 <+: t.scopes.toList)
    (houter : outer.Of t opened) :
    t.scopeOf i = outer.scope ∧
      NestedBetween t i (i + o.size) opened (place parent outer i opened o).1 := by
  cases o with
  | node l children =>
    have hi : t.scopeOf i = outer.scope := by
      have hfirst := hscopes 0 (by rw [size]; omega)
      rw [place, List.getElem?_cons_zero] at hfirst
      exact (Option.some.inj hfirst).symm
    rw [place] at hextends ⊢
    have hbelow : ∀ k < sizeAll children, (placeAll l outer (enter parent outer i opened l).1 (i + 1)
        (enter parent outer i opened l).2 children).2[k]? = some (t.scopeOf (i + 1 + k)) := by
      intro k hk
      have hnext := hscopes (k + 1) (by rw [size]; omega)
      rw [place, List.getElem?_cons_succ, show i + (k + 1) = i + 1 + k by omega] at hnext
      exact hnext
    generalize henter : enter parent outer i opened l = entered at hextends hbelow ⊢
    obtain ⟨inner, opened'⟩ := entered
    dsimp only at hextends hbelow ⊢
    have hopened : opened <+: opened' := by
      unfold enter at henter
      split at henter
      · exact (Prod.mk.inj henter).2 ▸ List.prefix_refl _
      · exact (Prod.mk.inj henter).2 ▸ List.prefix_append _ _
    obtain ⟨hinner, hscope, hnew⟩ :=
      enter_cases houter hi henter ((prefix_placeAll l outer inner (i + 1) opened' children).trans hextends)
    obtain ⟨hchildren, hnested⟩ :=
      placeAll_nested l hheld.children hbelow hextends (houter.mono hopened) hinner
    have hnode := hheld.node_eq
    refine ⟨hi, fun j hij hj => ?_, fun s hle hlt => ?_⟩
    · rcases Nat.eq_or_lt_of_le hij with rfl | hij
      · have hkind : t.kind i = l.kind := by rw [Tree.kind, hnode]
        have hsiblings : t.children i = siblingIds (i + 1) children := by rw [Tree.children, hnode]
        refine ⟨inner.scope, hkind ▸ hi ▸ hscope, fun c hc => ?_⟩
        rw [hkind, hi]
        rw [hsiblings] at hc
        exact (hchildren c hc).imp_right fun h => ⟨l.isNamedOutside_of_namesOutside h.1, h.2⟩
      · rw [size] at hj
        exact hnested.inside j hij (by omega)
    · rcases Nat.lt_or_ge s opened'.length with hs | hs
      · exact hnew s hle hs
      · exact hnested.opened s hs hlt

theorem placeAll_nested {t : Tree} {source : Bytes} {parentId : NodeId} (parent : Label)
    {outer inner : Place} {i : Nat} {opened : List Scope} {os : List Outline}
    (hheld : AllHeldAt t source parentId i os)
    (hscopes : ∀ k < sizeAll os,
      (placeAll parent outer inner i opened os).2[k]? = some (t.scopeOf (i + k)))
    (hextends : (placeAll parent outer inner i opened os).1 <+: t.scopes.toList)
    (houter : outer.Of t opened) (hinner : inner.Of t opened) :
    (∀ c ∈ siblingIds i os, t.scopeOf c = inner.scope ∨
      parent.namesOutside = true ∧ t.scopeOf c = outer.scope) ∧
      NestedBetween t i (i + sizeAll os) opened (placeAll parent outer inner i opened os).1 := by
  cases os with
  | nil =>
    refine ⟨fun c hc => absurd hc List.not_mem_nil, fun j hij hj => ?_, fun s hle hlt => ?_⟩
    · rw [sizeAll] at hj
      omega
    · exact absurd hlt (Nat.not_lt.mpr hle)
  | cons o rest =>
    simp only [placeAll, sizeAll] at hscopes hextends ⊢
    have hopened := prefix_placeAll parent outer inner (i + o.size) opened rest
    generalize hlater : placeAll parent outer inner (i + o.size) opened rest = after
      at hopened hextends hscopes ⊢
    obtain ⟨opened', later⟩ := after
    dsimp only at hopened hextends hscopes ⊢
    generalize hhere : (if o.label.field == some "name" && parent.namesOutside then outer
      else inner) = here at hextends hscopes ⊢
    have hlength := length_place (some parent.kind) here i opened' o
    -- The later children opened their scopes before the first one.
    have hplace := prefix_place (some parent.kind) here i opened' o
    have htail : ∀ k < sizeAll rest, (placeAll parent outer inner (i + o.size) opened rest).2[k]? =
        some (t.scopeOf (i + o.size + k)) := by
      intro k hk
      have hk' := hscopes (o.size + k) (by omega)
      rw [List.getElem?_append_right (by omega), hlength, Nat.add_sub_cancel_left,
        ← Nat.add_assoc] at hk'
      rw [hlater]
      exact hk'
    have hbefore : (placeAll parent outer inner (i + o.size) opened rest).1 <+: t.scopes.toList := by
      rw [hlater]
      exact hplace.trans hextends
    obtain ⟨hsiblings, hrest⟩ := placeAll_nested parent hheld.tail htail hbefore houter hinner
    rw [hlater] at hrest
    have hhead : ∀ k < o.size, (place (some parent.kind) here i opened' o).2[k]? =
        some (t.scopeOf (i + k)) := by
      intro k hk
      have hk' := hscopes k (by omega)
      rwa [List.getElem?_append_left (by omega)] at hk'
    have hplaced : here.Of t opened' := by
      rw [← hhere]
      split
      · exact houter.mono hopened
      · exact hinner.mono hopened
    obtain ⟨hi, hfirst⟩ := place_nested (some parent.kind) hheld.head hhead hextends hplaced
    refine ⟨fun c hc => ?_, fun j hij hj => ?_, fun s hle hlt => ?_⟩
    · rcases List.mem_cons.mp hc with rfl | hc
      · rw [hi, ← hhere]
        split
        · rename_i hname
          rw [Bool.and_eq_true] at hname
          exact .inr ⟨hname.2, rfl⟩
        · exact .inl rfl
      · exact hsiblings c hc
    · rcases Nat.lt_or_ge j (i + o.size) with hlt | hge
      · exact hfirst.inside j hij hlt
      · exact hrest.inside j hge (by omega)
    · rcases Nat.lt_or_ge s opened'.length with hs | hs
      · exact hrest.opened s hle hs
      · exact hfirst.opened s hs hlt

end

end Outline

namespace Tree

/-- **The scopes of the tree of a concrete tree are nested.** -/
theorem nested_ofConcrete (l : Language) (s : Bytes) (root : Concrete) :
    (ofConcrete l s root).Nested := by
  obtain ⟨hheld, hsize⟩ := heldAt_ofConcrete l s root
  have hscopes : ∀ k < root.outline.size,
      root.outline.scopes.2[k]? = some ((ofConcrete l s root).scopeOf (0 + k)) := by
    intro k hk
    rw [Nat.zero_add, scopeOf, (node_ofConcrete l s root).2 k hk]
    exact List.getElem?_eq_getElem _
  have hlist : (ofConcrete l s root).scopes.toList = root.outline.scopes.1 := rfl
  generalize ofConcrete l s root = t at hheld hsize hlist hscopes
  have hextends : root.outline.scopes.1 <+: t.scopes.toList := hlist ▸ List.prefix_refl _
  -- The walk starts in the scope of the program.
  have hstart := Outline.prefix_place none ⟨0, 0⟩ 0 [⟨.program, 0, none, 0⟩] root.outline
  obtain ⟨-, hprogram⟩ := Outline.scope_eq_of_prefix (hstart.trans hextends)
    (List.getElem?_cons_zero ..)
  have hfunction : t.functionScope 0 = 0 := by rw [functionScope, hprogram]
  obtain ⟨hroot, hnested⟩ :=
    Outline.place_nested none hheld hscopes hextends ⟨Nat.zero_lt_one, hfunction⟩
  refine ⟨hroot, ⟨by rw [hprogram], by rw [hprogram], hfunction⟩, fun i hi => ?_, fun s h0 hs => ?_⟩
  · exact hnested.inside i (Nat.zero_le i) (by rw [Nat.zero_add, ← hsize]; exact hi)
  · refine hnested.opened s (Nat.one_le_iff_ne_zero.mpr h0) ?_
    change s < root.outline.scopes.1.length
    rw [← hlist, Array.length_toList]
    exact hs

/-! ### What a node sees -/

/-- What holds of the root, and of the children of the nodes of which it holds, holds of every
node. -/
theorem InPreorder.of_parent {t : Tree} (hn : t.InPreorder) {P : NodeId → Prop} (hroot : P 0)
    (hchild : ∀ i, ∀ c ∈ t.children i, P i → P c) {i : Nat} (hi : i < t.nodes.size) : P i := by
  induction i using Nat.strongRecOn with
  | ind i ih =>
    by_cases h0 : i = 0
    · exact h0 ▸ hroot
    · obtain ⟨p, -, hp⟩ := hn.exists_parent hi h0
      exact hchild p i hp (ih p (hn.child_bounds hp).1 (lt_size_of_mem_children hp))

theorem mem_scopeChain (t : Tree) (s : ScopeId) : s ∈ t.scopeChain s := by
  rw [scopeChain]
  split
  · exact .head _
  · split <;> exact .head _

namespace Nested

variable {t : Tree} (h : t.Nested) {c d i s w : Nat}
include h

@[simp] theorem scopeChain_zero : t.scopeChain 0 = [0] := by
  rw [scopeChain, h.program.1]

theorem scopeChain_of_opened (h0 : s ≠ 0) (hs : s < t.scopes.size) :
    t.scopeChain s = s :: t.scopeChain (t.scopeOf (t.scope s).node) := by
  have hopened := h.opened s h0 hs
  rw [scopeChain, hopened.parent_eq]
  dsimp only
  rw [if_pos hopened.outer_lt]

/-- A child lies in the scope of its parent, or in one that its parent opens. -/
theorem scopeOf_child (hc : c ∈ t.children i) : t.scopeOf c = t.scopeOf i ∨
    (t.kind i).opensScope = true ∧ t.scopeOf c ≠ 0 ∧ t.scopeOf c < t.scopes.size ∧
      (t.scope (t.scopeOf c)).node = i := by
  obtain ⟨s, hs, hchildren⟩ := h.inside i (lt_size_of_mem_children hc)
  rcases hchildren c hc with hcs | ⟨-, hcs⟩
  · rw [hcs]
    exact hs
  · exact .inl hcs

/-- A construct that opens no scope leaves its children in its own. -/
theorem scopeOf_child_eq (hc : c ∈ t.children i) (hkind : (t.kind i).opensScope = false) :
    t.scopeOf c = t.scopeOf i := by
  refine (h.scopeOf_child hc).resolve_right fun ⟨hopens, _⟩ => ?_
  rw [hkind] at hopens
  cases hopens

/-- All children of a construct that has no name outside lie in one scope. -/
theorem scopeOf_sibling (hc : c ∈ t.children i) (hd : d ∈ t.children i)
    (hkind : (t.kind i).isNamedOutside = false) : t.scopeOf c = t.scopeOf d := by
  obtain ⟨s, -, hchildren⟩ := h.inside i (lt_size_of_mem_children hc)
  have hall : ∀ e ∈ t.children i, t.scopeOf e = s := by
    intro e he
    refine (hchildren e he).resolve_right fun ⟨hnamed, _⟩ => ?_
    rw [hkind] at hnamed
    cases hnamed
  rw [hall c hc, hall d hd]

/-- A child sees what its parent sees, behind the scope that the parent may open. -/
theorem scopeChain_child (hc : c ∈ t.children i) :
    t.scopeChain (t.scopeOf c) = t.scopeChain (t.scopeOf i) ∨
      (t.scope (t.scopeOf c)).node = i ∧
        t.scopeChain (t.scopeOf c) = t.scopeOf c :: t.scopeChain (t.scopeOf i) := by
  rcases h.scopeOf_child hc with heq | ⟨-, h0, hlt, hnode⟩
  · exact .inl (by rw [heq])
  · refine .inr ⟨hnode, ?_⟩
    rw [h.scopeChain_of_opened h0 hlt, hnode]

variable (hn : t.InPreorder)
include hn

/-- **What stands within a node** sees what the node sees, behind scopes that are opened within the
node. -/
theorem scopeChain_eq_append (hw : w < t.nodes.size) (hwi : t.isWithin w i = true) :
    ∃ inner, t.scopeChain (t.scopeOf w) = inner ++ t.scopeChain (t.scopeOf i) ∧
      ∀ s ∈ inner, t.isWithin (t.scope s).node i = true := by
  induction w using Nat.strongRecOn with
  | ind w ih =>
    by_cases heq : w = i
    · exact ⟨[], by rw [heq]; rfl, fun s hs => absurd hs List.not_mem_nil⟩
    · have hbounds := (hn.isWithin_iff hw).mp hwi
      obtain ⟨p, -, hp⟩ := hn.exists_parent hw (by omega)
      have hpsize := lt_size_of_mem_children hp
      have hpi : t.isWithin p i = true := by
        rw [isWithin, List.contains_iff_mem, hn.chain_of_parent (hn.parent_of_mem p w hp)] at hwi
        rw [isWithin, List.contains_iff_mem]
        exact (List.mem_cons.mp hwi).resolve_left fun hiw => heq hiw.symm
      obtain ⟨inner, hinner, hwithin⟩ := ih p (hn.child_bounds hp).1 hpsize hpi
      rcases h.scopeChain_child hp with hsame | ⟨hnode, hnew⟩
      · exact ⟨inner, hsame.trans hinner, hwithin⟩
      · refine ⟨t.scopeOf w :: inner, by rw [hnew, hinner]; rfl, ?_⟩
        intro s hs
        rcases List.mem_cons.mp hs with rfl | hs
        · exact hnode ▸ hpi
        · exact hwithin s hs

/-- A node lies within the nodes that open the scopes around it. -/
theorem isWithin_of_mem_scopeChain (hi : i < t.nodes.size) :
    ∀ s ∈ t.scopeChain (t.scopeOf i), t.isWithin i (t.scope s).node = true := by
  refine hn.of_parent (P := fun i => ∀ s ∈ t.scopeChain (t.scopeOf i),
    t.isWithin i (t.scope s).node = true) ?_ ?_ hi
  · intro s hs
    rw [h.scopeOf_root, h.scopeChain_zero, List.mem_singleton] at hs
    rw [hs, h.program.2.1]
    exact isWithin_self t 0
  · intro p c hc ih s hs
    have hchild := hn.isWithin_of_mem_children hc
    have houter := fun hs => hn.isWithin_trans (hn.lt_size_of_mem hc) hchild (ih s hs)
    rcases h.scopeChain_child hc with hsame | ⟨hnode, hnew⟩
    · exact houter (hsame ▸ hs)
    · rw [hnew] at hs
      rcases List.mem_cons.mp hs with rfl | hs
      · exact hnode.symm ▸ hchild
      · exact houter hs

/-- **A node lies within the node that opens its scope.** -/
theorem isWithin_scope (hi : i < t.nodes.size) :
    t.isWithin i (t.scope (t.scopeOf i)).node = true :=
  h.isWithin_of_mem_scopeChain hn hi _ (mem_scopeChain t _)

/-- The function around a node is among the scopes around it. -/
theorem functionScope_mem_scopeChain (hi : i < t.nodes.size) :
    t.functionScope (t.scopeOf i) ∈ t.scopeChain (t.scopeOf i) := by
  refine hn.of_parent (P := fun i => t.functionScope (t.scopeOf i) ∈ t.scopeChain (t.scopeOf i))
    ?_ ?_ hi
  · rw [h.scopeOf_root, h.scopeChain_zero, h.program.2.2]
    exact .head _
  · intro p c hc ih
    rcases h.scopeOf_child hc with hsame | ⟨-, h0, hlt, hnode⟩
    · rw [hsame]
      exact ih
    · rw [h.scopeChain_of_opened h0 hlt, hnode]
      rcases (h.opened _ h0 hlt).functionScope_eq with hself | houter
      · rw [hself]
        exact .head _
      · rw [houter, hnode]
        exact .tail _ ih

/-- A node lies within the function around it. -/
theorem isWithin_functionScope (hi : i < t.nodes.size) :
    t.isWithin i (t.scope (t.functionScope (t.scopeOf i))).node = true :=
  h.isWithin_of_mem_scopeChain hn hi _ (h.functionScope_mem_scopeChain hn hi)

end Nested

end Tree

end Declutter
