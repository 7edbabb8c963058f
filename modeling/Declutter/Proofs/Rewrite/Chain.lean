import Declutter.Proofs.Rewrite.Callee

/-!
# Inlining the object of a chain

An optional link cuts short the whole chain of calls and accesses behind it, but not beyond
parentheses.  When a chain takes the place of the name at the beginning of another one, the two
become one, unless parentheses keep them apart; an optional link in the value then cuts short what
was behind the name as well.

A chain binds as tightly as its place demands, so the rewrite writes no parentheses for it.  The
only ones it may get are those of a value that would begin a statement and not read as an
expression.

## Main definitions

* `Tree.links` — the links of a chain.

## Main results

* `BindingTable.links_of_inlined_object` — the links of a chain after the rewrite.
* `BindingTable.inlined_chain_joins` — an optional link that cuts short more than before.
-/

namespace Declutter

namespace Tree

/-- Which links of a chain of calls and accesses are optional, from the last one to the first. -/
def links (t : Tree) (i : NodeId) : List Bool :=
  ((t.descent t.chainObject? i).filter fun n => (t.kind n).isChainLink).map t.optionalLink

variable {t t' : Tree} {i j p u value : NodeId}

/-- A chain has an optional link if one of its links is optional. -/
theorem hasOptionalChain_eq_any : t.hasOptionalChain i = (t.links i).any id := by
  rw [hasOptionalChain, links, List.any_map, List.any_filter]
  rfl

/-- What is no call and no access is at the beginning of the chain. -/
theorem chainObject?_of_kind (h : (t.kind i).isChainLink = false) : t.chainObject? i = none := by
  rw [chainObject?, h]
  rfl

theorem links_of_kind (h : (t.kind i).isChainLink = false) : t.links i = [] := by
  rw [links, descent_of_none (chainObject?_of_kind h)]
  simp [h]

/-- The links of corresponding nodes are the same. -/
theorem links_eq_of_alike {pre pre' : List NodeId}
    (h : List.Forall₂ (t.Alike t') pre pre') :
    (pre'.filter fun n => (t'.kind n).isChainLink).map t'.optionalLink =
      (pre.filter fun n => (t.kind n).isChainLink).map t.optionalLink := by
  induction h with
  | nil => rfl
  | cons hab _ ih =>
    rw [List.filter_cons, List.filter_cons, hab.kind_eq]
    split
    · rw [List.map_cons, List.map_cons, ih, optionalLink, optionalLink, hab.marks_eq]
    · exact ih

/-- A copied chain has the same links. -/
theorem Copied.links (hn : t.InPreorder) (hn' : t'.InPreorder) (h : t.Copied t' i j) :
    t'.links j = t.links i := by
  refine links_eq_of_alike (h.descent hn hn' mem_children_of_chainObject?
    mem_children_of_chainObject? ?_)
  intro i j h
  exact h.chainObject? (by simp)

/-- Parentheses hide the links of a value. -/
theorem Renders.links {wrap : Bool} (hn : t.InPreorder) (hn' : t'.InPreorder)
    (h : t.Renders t' wrap value j) : t'.links j = if wrap then [] else t.links value := by
  unfold Renders at h
  split at h
  · rw [if_pos ‹_›]
    exact links_of_kind (by rw [h.1]; rfl)
  · rw [if_neg ‹_›]
    exact h.links hn hn'

/-- **The links of a chain that begins with a name** are followed by those of the value in the place
of the name. -/
theorem Becomes.links {wrap : Bool} (hn : t.InPreorder) (hn' : t'.InPreorder)
    (hu : (t.kind u).isChainLink = false) (hmem : u ∈ t.descent t.chainObject? i)
    (h : t.Becomes t' (some u) (t.Renders t' wrap value) i j) :
    t'.links j = t.links i ++ if wrap then [] else t.links value := by
  obtain ⟨way, way', j₀, hdescent, hdescent', hway, hnew⟩ :=
    h.descent hn hn' mem_children_of_chainObject? mem_children_of_chainObject?
      (fun i j h hi => h.chainObject? hi) (chainObject?_of_kind hu) hmem
  have hbefore : t.links i = (way.filter fun n => (t.kind n).isChainLink).map t.optionalLink := by
    rw [Tree.links, hdescent, List.filter_append]
    simp [hu]
  have hafter : t'.links j =
      (way'.filter fun n => (t'.kind n).isChainLink).map t'.optionalLink ++ t'.links j₀ := by
    rw [Tree.links, hdescent', List.filter_append, List.map_append]
    rfl
  rw [hafter, hbefore, links_eq_of_alike hway, hnew.links hn hn']

/-! ### Chains in the place of a name -/

/-- Only a call or an access has an object or a callee. -/
theorem isChainLink_of_chainObject? (hp : t.chainObject? p = some u) :
    (t.kind p).isChainLink = true := by
  by_contra hlink
  rw [chainObject?_of_kind (Bool.eq_false_of_not_eq_true hlink)] at hp
  cases hp

/-- Calls and accesses bind more tightly than any operator. -/
theorem precedence_of_chainLink (hvalue : (t.kind value).isChainLink = true) :
    t.precedence value = Precedence.call := by
  revert hvalue
  cases hkind : t.kind value <;> simp [Kind.isChainLink, precedence, hkind]

/-- A call or an access is no number. -/
theorem InPreorder.isBareInteger_of_chainLink (hn : t.InPreorder) (text : String)
    (hvalue : (t.kind value).isChainLink = true) : t.isBareInteger value text = false := by
  have htype : t.type value ≠ "number" := by
    intro htype
    have hv : value < t.nodes.size := by
      by_contra hv
      rw [kind, node_of_size_le (Nat.le_of_not_lt hv)] at hvalue
      cases hvalue
    rw [hn.kind_eq value hv, htype] at hvalue
    revert hvalue
    decide
  simp [isBareInteger, htype]

/-- A call or an access needs no parentheses in a call or an access. -/
theorem InPreorder.needsParentheses_of_chainLink (hn : t.InPreorder) (text : String)
    (hp : t.parent? u = some p) (hlink : (t.kind p).isChainLink = true)
    (hvalue : (t.kind value).isChainLink = true) : t.needsParentheses value text u = false := by
  rw [needsParentheses, hp]
  dsimp only
  rw [precedence_of_chainLink hvalue, hn.isBareInteger_of_chainLink text hvalue]
  revert hlink
  cases t.kind p <;> simp [Kind.isChainLink, Kind.isAssignmentSlot, Kind.isExpressionSlot]

/-- A chain at the beginning of another one stands in parentheses only where it would begin a
statement and not read as an expression. -/
theorem InPreorder.isWrapped_of_chainLink (hn : t.InPreorder) (hp : t.chainObject? p = some u)
    (hvalue : (t.kind value).isChainLink = true) :
    t.isWrapped value u =
      ((t.statementBegunBy? u).isSome && startsStatementAmbiguously (t.text value)) := by
  have hparent := hn.parent_of_mem p u (mem_children_of_chainObject? p u hp)
  rw [isWrapped, hn.needsParentheses_of_chainLink _ hparent (isChainLink_of_chainObject? hp) hvalue,
    Bool.false_or]

end Tree

/-- **Inlining the object of a chain.**  If the usage that the rewrite replaces is called or
accessed and the value is a call or an access, then the value stands there without parentheses,
unless it would begin a statement and not read as an expression.  The links of every chain that
began with the usage are, in another tree that has the value there, followed by the links of the
value.  So the chain has an optional link after the rewrite exactly if it had one before or the
value has one, unless there are parentheses. -/
theorem BindingTable.links_of_inlined_object (l : Language) (source : Bytes) (root : Concrete)
    (marker : String) {i : BindingId} {p u value : NodeId} {r : Rewrite} :
    let t := Tree.ofConcrete l source root
    let b := ofTree t
    b.inline t marker i = .ok r → b.soleRead? i = some u →
    (b.binding i).initializer = some value → t.chainObject? p = some u →
    t.kind u ≠ .shorthandProperty → (t.kind value).isChainLink = true →
    let wrap := (t.statementBegunBy? u).isSome && startsStatementAmbiguously (t.text value)
    (∃ terminator ∈ ["", ";"],
      ⟨t.span u, terminator ++ parenthesize wrap (t.text value)⟩ ∈ r.edits) ∧
    ∀ l' source' root' w w',
      let t' := Tree.ofConcrete l' source' root'
      t.Becomes t' (some u) (t.Renders t' wrap value) w w' → u ∈ t.descent t.chainObject? w →
        t'.links w' = t.links w ++ (if wrap then [] else t.links value) ∧
        t'.hasOptionalChain w' =
          (t.hasOptionalChain w || (!wrap && t.hasOptionalChain value)) := by
  intro t b hr hread hvalue hp hshorthand hlink wrap
  have hn : t.InPreorder := Tree.inPreorder_ofConcrete l source root
  have hb : b.Accounted t := accounted_ofTree t
  obtain ⟨hsize, href⟩ := hb.isReferenceNode_of_soleRead hread
  constructor
  · have hwrap : t.isWrapped value u = wrap := hn.isWrapped_of_chainLink hp hlink
    rw [← hwrap]
    exact exists_edit_of_inline hr hread hvalue hshorthand
  · intro l' source' root' w w' t' hbecomes hmem
    have hname := hn.kind_of_isReferenceNode hsize href
    have hu : (t.kind u).isChainLink = false := by
      revert hname
      cases t.kind u <;> simp [Kind.isChainLink]
    have hlinks := hbecomes.links hn (Tree.inPreorder_ofConcrete l' source' root') hu hmem
    refine ⟨hlinks, ?_⟩
    rw [Tree.hasOptionalChain_eq_any, hlinks, List.any_append, Tree.hasOptionalChain_eq_any,
      Tree.hasOptionalChain_eq_any]
    cases wrap
    · simp
    · simp

/-- A chain without an optional link goes before one with an optional link. -/
theorem BindingTable.sample_links_of_inlined_object :
    let t := Tree.ofConcrete .javascript (Sample.naming "a.b" "f?.c")
      (Sample.namingTree (Sample.methodTree 10 "value")
        (Sample.accessTree (Sample.nameTree 15 (some "object")) true))
    let t' := Tree.ofConcrete .javascript (Utf8.encode "a.b?.c;\n")
      (Sample.usingTree (Sample.accessTree (Sample.methodTree 0 "object") true))
    ∃ r, (ofTree t).inline t "" 0 = .ok r ∧ (Edit.applyAll t.source r.edits).1 = t'.source ∧
      t.links 8 = [true] ∧ t'.links 2 = [true, false] ∧ t'.hasOptionalChain 2 = true := by
  intro t t'
  have hfacts : (ofTree t).soleRead? 0 = some 9 ∧ ((ofTree t).binding 0).initializer = some 4 ∧
      t.chainObject? 8 = some 9 ∧ t.kind 9 ≠ .shorthandProperty ∧
      (t.kind 4).isChainLink = true ∧
      ((t.statementBegunBy? 9).isSome && startsStatementAmbiguously (t.text 4)) = false ∧
      t.checkBecomes t' (some 9) (t.checkRenders t' 2 false 4) 3 8 2 = true ∧
      9 ∈ t.descent t.chainObject? 8 ∧ t.links 8 = [true] ∧ t.links 4 = [false] ∧
      t.hasOptionalChain 8 = true ∧
      ((ofTree t).inline t "" 0).toOption.map (fun r => (Edit.applyAll t.source r.edits).1) =
        some t'.source := by
    decide +kernel
  obtain ⟨hread, hvalue, hp, hshorthand, hlink, hwrap, hcheck, hmem, hlinks, hvalueLinks, hoptional,
    hrewritten⟩ := hfacts
  obtain ⟨r, hsome, hsource⟩ := Option.map_eq_some_iff.mp hrewritten
  have hr := Attempt.toOption_eq_some.mp hsome
  obtain ⟨-, hafter⟩ := links_of_inlined_object .javascript _ _ "" hr hread hvalue hp hshorthand
    hlink
  rw [hwrap] at hafter
  obtain ⟨hlinks', hoptional'⟩ := hafter .javascript _ _ 8 2
    (Tree.becomes_of_check (fun _ h => Tree.renders_of_check h) hcheck) hmem
  rw [hlinks, hvalueLinks] at hlinks'
  rw [hoptional] at hoptional'
  exact ⟨r, hr, hsource, hlinks, hlinks', hoptional'⟩

/-- **The exception.**  If there is no object, its property `b` is undefined and reading `c` of it
fails; after the rewrite the optional link cuts short both accesses. -/
theorem BindingTable.inlined_chain_joins :
    let t := Tree.ofConcrete .javascript (Sample.naming "a?.b" "f.c")
      (Sample.namingTree
        (Sample.accessTree (Sample.nameTree 10 (some "object")) true (some "value"))
        (Sample.accessTree (Sample.nameTree 16 (some "object")) false))
    let t' := Tree.ofConcrete .javascript (Utf8.encode "a?.b.c;\n")
      (Sample.usingTree (Sample.accessTree
        (Sample.accessTree (Sample.nameTree 0 (some "object")) true (some "object")) false))
    let b := ofTree t
    b.isSingleUse t Sample.shallow 0 = true ∧
      (b.inline t "" 0).toOption.map (fun r => (Edit.applyAll t.source r.edits).1) =
        some t'.source ∧
      t.chainObject? 8 = some 9 ∧ t.hasOptionalChain 4 = true ∧ t.isWrapped 4 9 = false ∧
      t.Becomes t' (some 9) (t.Renders t' false 4) 8 2 ∧ t.links 8 = [false] ∧
      t'.links 2 = [false, true] ∧ t.hasOptionalChain 8 = false ∧
      t'.hasOptionalChain 2 = true := by
  intro t t' b
  have hfacts : b.isSingleUse t Sample.shallow 0 = true ∧
      (b.inline t "" 0).toOption.map (fun r => (Edit.applyAll t.source r.edits).1) =
        some t'.source ∧
      t.chainObject? 8 = some 9 ∧ t.hasOptionalChain 4 = true ∧ t.isWrapped 4 9 = false ∧
      t.checkBecomes t' (some 9) (t.checkRenders t' 2 false 4) 3 8 2 = true ∧
      t.links 8 = [false] ∧ t'.links 2 = [false, true] ∧ t.hasOptionalChain 8 = false ∧
      t'.hasOptionalChain 2 = true := by
    decide +kernel
  obtain ⟨hsingle, hrewritten, hp, hoptional, hwrap, hcheck, hafter⟩ := hfacts
  exact ⟨hsingle, hrewritten, hp, hoptional, hwrap,
    Tree.becomes_of_check (fun _ h => Tree.renders_of_check h) hcheck, hafter⟩

end Declutter
