import Declutter.Proofs.Expression.Place
import Declutter.Proofs.Rewrite.Substitution

/-!
# Inlining the callee of a call

A call of an access hands the object over as the receiver, which the called function sees as `this`.
Parentheses and type assertions around the access make no difference.  A name that is called hands
over nothing.

When the value of a binding comes to be called in the place of the name, the call gets a receiver
exactly if the value is an access, apart from parentheses and type assertions.  Whether a name is
called is nowhere asked.

## Main definitions

* `Tree.receiver?` — what a call hands over as the receiver.

## Main results

* `BindingTable.receiver_of_inlined_callee` — the receiver before and after the rewrite.
* `BindingTable.plain_call_gets_receiver` — a plain call that becomes the call of a method.
-/

namespace Declutter

namespace Tree

section

variable (t : Tree)

/-- The object of an access. -/
def accessObject? (i : NodeId) : Option NodeId :=
  if (t.kind i).isAccess then t.child? i "object" else none

/-- The object of the access that a call applies: its receiver. -/
def receiver? (c : NodeId) : Option NodeId :=
  (t.child? c "function").bind fun f => t.accessObject? (t.stripped f)

/-- Whether a node is a member expression with both its parts. -/
def isCompleteMember (i : NodeId) : Bool :=
  t.kind i == .member && (t.child? i "object").isSome && (t.child? i "property").isSome

end

variable {t t' : Tree} {i j c f : NodeId}

/-- What is no access has no object. -/
theorem accessObject?_of_kind (h : (t.kind i).isAccess = false) : t.accessObject? i = none := by
  simp [accessObject?, h]

/-- The parts of a call have a receiver if a complete member expression is called directly. -/
theorem isSome_receiver_of_call (hkind : t.kind c = .call) (hf : t.child? c "function" = some f) :
    ((t.call? c).bind Call.receiver).isSome = t.isCompleteMember f := by
  unfold call? isCompleteMember
  by_cases hmember : t.kind f = .member
  · cases hobject : t.child? f "object" with
    | none => simp [hkind, hf, hmember, hobject]
    | some object =>
      cases hproperty : t.child? f "property" with
      | none => simp [hkind, hf, hmember, hobject, hproperty]
      | some property => simp [hkind, hf, hmember, hobject, hproperty]
  · simp [hkind, hf, hmember]

/-- What is no parentheses and no type assertion is not stripped. -/
theorem wrapped?_of_kind (h : t.kind i ≠ .parenthesized ∧ t.kind i ≠ .typeExpression) :
    t.wrapped? i = none := by
  simp [wrapped?, h.1, h.2]

/-- Nothing that leads to a name is a member expression. -/
theorem kind_ne_member_of_stripped {u : NodeId} (hu : t.kind u ≠ .member) (h : t.stripped f = u) :
    t.kind f ≠ .member := by
  intro hkind
  rw [stripped, bottom_of_none (wrapped?_of_kind (by simp [hkind]))] at h
  exact hu (h ▸ hkind)

/-- A call whose callee leads to a name has no receiver. -/
theorem receiver_of_name (hn : t.InPreorder) {u : NodeId} (hu : u < t.nodes.size)
    (href : t.isReferenceNode u = true) (hkind : t.kind c = .call)
    (hf : t.child? c "function" = some f) (hstripped : t.stripped f = u) :
    t.receiver? c = none ∧ (t.call? c).bind Call.receiver = none := by
  have hname := hn.kind_of_isReferenceNode hu href
  constructor
  · rw [receiver?, hf, Option.bind_some, hstripped, accessObject?_of_kind]
    revert hname
    cases t.kind u <;> simp [Kind.isAccess]
  · have hmember : t.kind f ≠ .member := by
      refine kind_ne_member_of_stripped ?_ hstripped
      intro heq
      simp [heq] at hname
    rw [← Option.not_isSome_iff_eq_none, isSome_receiver_of_call hkind hf]
    simp [isCompleteMember, hmember]

/-- The objects of accesses have become each other. -/
theorem Becomes.accessObject? {site : Option NodeId} {new : NodeId → Prop}
    (h : t.Becomes t' site new i j) (hi : site ≠ some i) :
    Option.Rel (t.Becomes t' site new) (t.accessObject? i) (t'.accessObject? j) := by
  unfold Tree.accessObject?
  rw [(h.alike hi).kind_eq]
  split
  · exact h.child? hi "object"
  · exact .none

/-- The object of a copied access is a copy. -/
theorem Copied.accessObject? (h : t.Copied t' i j) :
    (t'.accessObject? j).isSome = (t.accessObject? i).isSome :=
  isSome_eq_of_rel (Becomes.accessObject? h (by simp))

/-- A copy of a complete member expression is one as well. -/
theorem Copied.isCompleteMember (h : t.Copied t' i j) :
    t'.isCompleteMember j = t.isCompleteMember i := by
  unfold Tree.isCompleteMember
  rw [(h.alike (by simp)).kind_eq, isSome_eq_of_rel (h.child? (by simp) "object"),
    isSome_eq_of_rel (h.child? (by simp) "property")]

/-- What is called in the place of a name is what the name has been rendered as. -/
theorem Becomes.stripped_callee (hn : t.InPreorder) (hn' : t'.InPreorder) {u value f' : NodeId}
    {wrap : Bool} (hu : t.kind u ≠ .type) (hvalue : t.kind value ≠ .type)
    (hstripped : t.stripped f = u)
    (h : t.Becomes t' (some u) (t.Renders t' wrap value) f f') :
    t.Copied t' (t.stripped value) (t'.stripped f') := by
  have hrel : ∀ i j, t.Becomes t' (some u) (t.Renders t' wrap value) i j → ¬ some u = some i →
      Option.Rel (t.Becomes t' (some u) (t.Renders t' wrap value)) (t.wrapped? i) (t'.wrapped? j) :=
    fun i j h hi => h.wrapped? hi (by simpa using hu) fun n hnew => hnew.kind_ne_type hvalue
  obtain ⟨pre, pre', i₀, j₀, -, hdescent, hdescent', hend, hstop⟩ :=
    exists_descent hn hn' mem_children_of_wrapped? mem_children_of_wrapped? hrel h
  have hbottom : t.stripped i₀ = u := (bottom_eq_of_descent hdescent).symm.trans hstripped
  -- The ways down end at the name, which is the site.
  have hsite : some u = some i₀ := by
    rcases hstop with hstop | ⟨hnone, -⟩
    · exact hstop
    · rw [← hbottom, stripped, bottom_of_none hnone]
  have hbottom' : t'.stripped f' = t'.stripped j₀ := bottom_eq_of_descent hdescent'
  rw [hbottom']
  exact (hend.of_site hsite).stripped hn hn' hvalue

/-- **The receiver of a call whose callee gives way to a value.** -/
theorem Becomes.receiver (hn : t.InPreorder) (hn' : t'.InPreorder) {u value c' : NodeId}
    {wrap : Bool} (hu : t.kind u ≠ .type ∧ t.kind u ≠ .member ∧ t.kind u ≠ .call)
    (hvalue : t.kind value ≠ .type) (hkind : t.kind c = .call)
    (hf : t.child? c "function" = some f) (hstripped : t.stripped f = u)
    (h : t.Becomes t' (some u) (t.Renders t' wrap value) c c') :
    (t'.receiver? c').isSome = (t.accessObject? (t.stripped value)).isSome ∧
      ((t'.call? c').bind Call.receiver).isSome =
        (f == u && !wrap && t.isCompleteMember value) := by
  have hcu : some u ≠ some c := by
    intro heq
    exact hu.2.2 (Option.some.inj heq ▸ hkind)
  have hcallee := h.child? hcu "function"
  rw [hf] at hcallee
  obtain ⟨f', hf', hff⟩ := exists_of_rel_some hcallee
  have hkind' : t'.kind c' = .call := (h.alike hcu).kind_eq.trans hkind
  constructor
  · rw [receiver?, hf', Option.bind_some]
    exact (hff.stripped_callee hn hn' hu.1 hvalue hstripped).accessObject?
  · rw [isSome_receiver_of_call hkind' hf']
    by_cases hfu : f = u
    · -- The value is called directly.
      have hnew := hff.of_site (congrArg some hfu.symm)
      unfold Renders at hnew
      split at hnew
      · simp [isCompleteMember, hnew.1, *]
      · simp [hnew.isCompleteMember, *]
    · -- Something else around the name is called, before and after.
      have hmember := kind_ne_member_of_stripped hu.2.1 hstripped
      rw [← (hff.alike (by simpa using Ne.symm hfu)).kind_eq] at hmember
      rw [isCompleteMember, beq_eq_false_iff_ne.mpr hmember, beq_eq_false_iff_ne.mpr hfu]
      rfl

end Tree

/-- **Inlining the callee of a call.**  If the one usage of a single-use binding is what a call
applies, directly or in parentheses or type assertions, then the call has no receiver.  The rewrite
puts the value in the place of the usage, and when a call of another tree is the call with the value
there, it has a receiver exactly if the value is an access, apart from parentheses and type
assertions.  Its parts tell of a receiver exactly if the name was called directly and the value is a
member expression that stands there without parentheses. -/
theorem BindingTable.receiver_of_inlined_callee (l : Language) (source : Bytes) (root : Concrete)
    (policy : InlinePolicy) (marker : String) {i : BindingId} {value c f : NodeId} {u : Usage} :
    let t := Tree.ofConcrete l source root
    let b := ofTree t
    b.isSingleUse t policy i = true → (b.binding i).initializer = some value →
    (b.binding i).usages = [u] → t.kind value ≠ .type → t.kind u.node ≠ .shorthandProperty →
    t.kind c = .call → t.child? c "function" = some f → t.stripped f = u.node →
    (t.receiver? c = none ∧ (t.call? c).bind Call.receiver = none) ∧
      (∀ r, b.inline t marker i = .ok r → ∃ terminator ∈ ["", ";"],
        ⟨t.span u.node, terminator ++
          parenthesize (t.isWrapped value u.node) (t.text value)⟩ ∈ r.edits) ∧
      ∀ l' source' root' c',
        let t' := Tree.ofConcrete l' source' root'
        t.Becomes t' (some u.node) (t.Renders t' (t.isWrapped value u.node) value) c c' →
          (t'.receiver? c').isSome = (t.accessObject? (t.stripped value)).isSome ∧
          ((t'.call? c').bind Call.receiver).isSome =
            (f == u.node && !t.isWrapped value u.node && t.isCompleteMember value) := by
  intro t b hsingle hvalue husages htype hshorthand hkind hf hstripped
  have hn : t.InPreorder := Tree.inPreorder_ofConcrete l source root
  have hb : b.Accounted t := accounted_ofTree t
  obtain ⟨declaration, _, _, _, _, _, hs⟩ := singleUse_of_isSingleUse hsingle
  obtain rfl := Option.some.inj (hvalue.symm.trans hs.initializer_eq)
  obtain rfl := List.singleton_inj.mp (husages.symm.trans hs.usages_eq)
  obtain ⟨hsize, href⟩ := hs.isReferenceNode hb
  refine ⟨Tree.receiver_of_name hn hsize href hkind hf hstripped, fun r hr => ?_, ?_⟩
  · exact exists_edit_of_inline hr hs.soleRead_eq hvalue hshorthand
  · intro l' source' root' c' t' hbecomes
    have hname := hn.kind_of_isReferenceNode hsize href
    have hu : t.kind u.node ≠ .type ∧ t.kind u.node ≠ .member ∧ t.kind u.node ≠ .call := by
      revert hname
      cases t.kind u.node <;> simp
    exact hbecomes.receiver hn (Tree.inPreorder_ofConcrete l' source' root') hu htype hkind hf
      hstripped

/-! ### Two programs -/

namespace Sample

/-- The tree of a call with a number for an argument. -/
def callOf (callee : Concrete) : Concrete :=
  callTree callee [construct "number" (callee.head.stop + 1) (callee.head.stop + 2) []]

/-- The tree of `o.m`. -/
def methodTree (k : Nat) (field : String) : Concrete :=
  accessTree (nameTree k (some "object")) false (some field)

/-- A value is given a name, and the next statement uses it. -/
def naming (value use : String) : Bytes := Utf8.encode s!"const f = {value};\n{use};\n"

/-- The tree of `naming`, with the trees of the value and of the use. -/
def namingTree (value use : Concrete) : Concrete :=
  construct "program" 0 (use.head.stop + 2) [constantTree 0 value, statementTree use]

/-- The tree of a program that is one statement. -/
def usingTree (use : Concrete) : Concrete :=
  construct "program" 0 (use.head.stop + 2) [statementTree use]

end Sample

/-- A call of another name stays a plain call. -/
theorem BindingTable.sample_call_stays_plain :
    let t := Tree.ofConcrete .javascript (Sample.naming "g" "f(1)")
      (Sample.namingTree (Sample.nameTree 10 (some "value"))
        (Sample.callOf (Sample.nameTree 13 (some "function"))))
    let t' := Tree.ofConcrete .javascript (Utf8.encode "g(1);\n")
      (Sample.usingTree (Sample.callOf (Sample.nameTree 0 (some "function"))))
    (ofTree t).isSingleUse t Sample.shallow 0 = true ∧ t.receiver? 6 = none ∧
      (t'.receiver? 2).isSome = false ∧ ((t'.call? 2).bind Call.receiver).isSome = false := by
  intro t t'
  have hfacts : (ofTree t).isSingleUse t Sample.shallow 0 = true ∧
      ((ofTree t).binding 0).initializer = some 4 ∧
      ((ofTree t).binding 0).usages = [⟨7, false, true⟩] ∧ t.kind 4 ≠ .type ∧
      t.kind 7 ≠ .shorthandProperty ∧ t.kind 6 = .call ∧ t.child? 6 "function" = some 7 ∧
      t.stripped 7 = 7 ∧ (t.accessObject? (t.stripped 4)).isSome = false ∧
      t.isCompleteMember 4 = false ∧
      t.checkBecomes t' (some 7) (t.checkRenders t' 1 (t.isWrapped 4 7) 4) 3 6 2 = true := by
    decide +kernel
  obtain ⟨hsingle, hvalue, husages, htype, hshorthand, hkind, hf, hstripped, hobject, hmember,
    hcheck⟩ := hfacts
  obtain ⟨⟨hreceiver, -⟩, -, hafter⟩ := receiver_of_inlined_callee .javascript _ _ _ "" hsingle
    hvalue husages htype hshorthand hkind hf hstripped
  obtain ⟨hnone, hparts⟩ := hafter .javascript _ _ 2
    (Tree.becomes_of_check (fun _ h => Tree.renders_of_check h) hcheck)
  refine ⟨hsingle, hreceiver, hnone.trans hobject, hparts.trans ?_⟩
  rw [hmember, Bool.and_false]

/-- **The exception.**  The method of an object is called without the object, and after the rewrite
with it. -/
theorem BindingTable.plain_call_gets_receiver :
    let t := Tree.ofConcrete .javascript (Sample.naming "o.m" "f(1)")
      (Sample.namingTree (Sample.methodTree 10 "value")
        (Sample.callOf (Sample.nameTree 15 (some "function"))))
    let t' := Tree.ofConcrete .javascript (Utf8.encode "o.m(1);\n")
      (Sample.usingTree (Sample.callOf (Sample.methodTree 0 "function")))
    let b := ofTree t
    b.isSingleUse t Sample.shallow 0 = true ∧
      (b.inline t "" 0).toOption.map (fun r => (Edit.applyAll t.source r.edits).1) =
        some t'.source ∧
      t.kind 8 = .call ∧ t.child? 8 "function" = some 9 ∧ t.receiver? 8 = none ∧
      t.Becomes t' (some 9) (t.Renders t' (t.isWrapped 4 9) 4) 8 2 ∧ t'.receiver? 2 = some 4 ∧
      (t'.call? 2).bind Call.receiver = some 4 := by
  intro t t' b
  have hfacts : b.isSingleUse t Sample.shallow 0 = true ∧
      (b.inline t "" 0).toOption.map (fun r => (Edit.applyAll t.source r.edits).1) =
        some t'.source ∧
      t.kind 8 = .call ∧ t.child? 8 "function" = some 9 ∧ t.receiver? 8 = none ∧
      t.checkBecomes t' (some 9) (t.checkRenders t' 2 (t.isWrapped 4 9) 4) 3 8 2 = true ∧
      t'.receiver? 2 = some 4 ∧ (t'.call? 2).bind Call.receiver = some 4 := by
    decide +kernel
  obtain ⟨hsingle, hrewritten, hkind, hf, hbefore, hcheck, hafter, hparts⟩ := hfacts
  exact ⟨hsingle, hrewritten, hkind, hf, hbefore,
    Tree.becomes_of_check (fun _ h => Tree.renders_of_check h) hcheck, hafter, hparts⟩

end Declutter
