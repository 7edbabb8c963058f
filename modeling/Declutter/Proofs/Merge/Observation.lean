import Declutter.Proofs.Analysis.Total
import Declutter.Proofs.Collection.Mutation
import Declutter.Proofs.Expression.Place
import Declutter.Proofs.Merge.Coverage
import Declutter.Proofs.Rewrite.Guard

/-!
# What is seen of sequences that are being filled

Sequences that one loop fills side by side differ in length while the loop is between the first and
the last push of a round.  The merged sequence gets its record at the first push, so whoever looks
at a member in between sees one element more than before.

A merge does not let the values that are pushed look at a member, and an iteration that reads a
member at an index has to stand behind the loop.  What is left are the usages that are rewritten one
by one.  These may stand between two pushes, in a statement of their own: if they ask for the
length, visit the elements by a method, or run through them in a loop, the merge goes ahead.

## Main definitions

* `Tree.IsMark`, `Tree.HasPartsOnce`, `Tree.CallShaped` — what the grammars promise of the parts of
  calls and names.
* `Tree.ReadsWhole` — the usages that look at a sequence as a whole.
* `MergePlan.FilledBy` — what is known of the statement that fills a member.
* `MergePlan.StandsBetween` — the statements between two pushes.

## Main results

* `Tree.Arranged.exists_child_between` — what stands between two statements stands in a statement
  of their block.
* `MergePlan.FilledBy.eq_of_within` — a push uses a member only in order to fill it.
* `MergePlan.read_while_filled` — what may be seen of a member between two pushes.
* `MergePlan.merge_changes_length_seen` — a length that is read between two pushes.
-/

namespace Declutter

open Attempt

/-! ### Constructs and their places in the source -/

namespace Tree

/-- Whether a node is a mark or a mere word: it has no parts and is no name that refers. -/
def IsMark (t : Tree) (i : NodeId) : Prop := t.children i = [] ∧ t.isReferenceNode i = false

instance (t : Tree) (i : NodeId) : Decidable (t.IsMark i) :=
  inferInstanceAs (Decidable (_ ∧ _))

/-- Whether no part of a call or of an access is there twice. -/
def HasPartsOnce (t : Tree) (i : NodeId) : Prop :=
  ∀ c ∈ t.children i, ∀ d ∈ t.children i, ∀ role ∈ ["function", "arguments", "object"],
    t.hasField c role = true → t.hasField d role = true → c = d

instance (t : Tree) (i : NodeId) : Decidable (t.HasPartsOnce i) :=
  inferInstanceAs (Decidable (∀ c ∈ _, _))

/-- What the grammars promise of calls, accesses and names: a call consists of a callee, arguments
and types, and an access to a property of an object, apart from marks and the name of the property;
no part is there twice; and names have no parts. -/
structure CallShaped (t : Tree) : Prop where
  call : ∀ i < t.nodes.size, t.kind i = .call → ∀ c ∈ t.children i,
    t.hasField c "function" = true ∨ t.hasField c "arguments" = true ∨ t.kind c = .type ∨
      t.IsMark c
  member : ∀ i < t.nodes.size, t.kind i = .member → ∀ c ∈ t.children i,
    t.hasField c "object" = true ∨ t.IsMark c
  once : ∀ i < t.nodes.size, t.kind i = .call ∨ t.kind i = .member → t.HasPartsOnce i
  name : ∀ i < t.nodes.size, t.isReferenceNode i = true → t.children i = []

theorem callShaped_iff {t : Tree} : t.CallShaped ↔
    (∀ i < t.nodes.size, t.kind i = .call → ∀ c ∈ t.children i,
        t.hasField c "function" = true ∨ t.hasField c "arguments" = true ∨ t.kind c = .type ∨
          t.IsMark c) ∧
      (∀ i < t.nodes.size, t.kind i = .member → ∀ c ∈ t.children i,
        t.hasField c "object" = true ∨ t.IsMark c) ∧
      (∀ i < t.nodes.size, t.kind i = .call ∨ t.kind i = .member → t.HasPartsOnce i) ∧
      ∀ i < t.nodes.size, t.isReferenceNode i = true → t.children i = [] :=
  ⟨fun h => ⟨h.call, h.member, h.once, h.name⟩, fun ⟨h₁, h₂, h₃, h₄⟩ => ⟨h₁, h₂, h₃, h₄⟩⟩

instance (t : Tree) : Decidable t.CallShaped := decidable_of_iff _ callShaped_iff.symm

variable {t : Tree} {i j c d p v : Nat}

/-- **What stands between two statements** of a block stands in one of the block. -/
theorem Arranged.exists_child_between (ha : t.Arranged) (hs : t.Spaced) (hn : t.InPreorder)
    (hv : v < t.nodes.size) (hleaf : t.children v = [])
    (hlt : (t.span v).start < (t.span v).stop) (hc : c ∈ t.children p) (hd : d ∈ t.children p)
    (hstart : (t.span c).start ≤ (t.span v).start) (hstop : (t.span v).stop ≤ (t.span d).stop) :
    ∃ k ∈ t.children p, t.isWithin v k = true := by
  have hp : p < t.nodes.size := lt_size_of_mem_children hc
  have hfirst := Span.covers_iff.mp (hs.nested p hp c hc)
  have hlast := Span.covers_iff.mp (hs.nested p hp d hd)
  have hstopv : t.stop v = v + 1 := by
    have htiles := hn.tiles v hv
    rw [hleaf] at htiles
    exact htiles.symm
  have hne : v ≠ p := by
    rintro rfl
    rw [hleaf] at hc
    cases hc
  have hin : t.isWithin v p = true := by
    rw [hn.isWithin_iff hv]
    refine ⟨?_, ?_⟩
    · by_contra hlow
      have hbefore := ha.isOrdered.stop_le_start hs hn hv (by omega) hp
      omega
    · by_contra hhigh
      have hbehind := ha.isOrdered.stop_le_start hs hn hp (Nat.le_of_not_lt hhigh) hv
      omega
  exact hn.exists_child_of_isWithin hv hin hne

/-- **What stands between two statements**, and in neither of them, stands in a statement that comes
behind the one and before the other. -/
theorem Arranged.exists_statement_between (ha : t.Arranged) (hs : t.Spaced) (hn : t.InPreorder)
    (hv : v < t.nodes.size) (hleaf : t.children v = [])
    (hlt : (t.span v).start < (t.span v).stop) (hc : c ∈ t.children p) (hd : d ∈ t.children p)
    (hstart : (t.span c).start ≤ (t.span v).start) (hstop : (t.span v).stop ≤ (t.span d).stop)
    (hapart : ∀ k, t.isWithin v k = true → k ≠ c ∧ k ≠ d) :
    ∃ k ∈ t.children p, t.isWithin v k = true ∧ (t.span c).stop ≤ (t.span k).start ∧
      (t.span k).stop ≤ (t.span d).start := by
  obtain ⟨k, hk, hwithin⟩ := ha.exists_child_between hs hn hv hleaf hlt hc hd hstart hstop
  obtain ⟨hkc, hkd⟩ := hapart k hwithin
  have hcovers := Span.covers_iff.mp (hs.covers_of_isWithin hn hwithin)
  refine ⟨k, hk, hwithin, ?_, ?_⟩
  · refine ha.isOrdered.stop_le_start_of_lt hn hc hk ?_
    by_contra hle
    have hbefore := ha.isOrdered.stop_le_start_of_lt hn hk hc (Nat.lt_of_le_of_ne (Nat.le_of_not_lt hle) hkc)
    omega
  · refine ha.isOrdered.stop_le_start_of_lt hn hk hd ?_
    by_contra hle
    have hbehind := ha.isOrdered.stop_le_start_of_lt hn hd hk
      (Nat.lt_of_le_of_ne (Nat.le_of_not_lt hle) hkd.symm)
    omega

/-- No name stands within a mark. -/
theorem InPreorder.not_isMark (hn : t.InPreorder) (hv : v < t.nodes.size)
    (href : t.isReferenceNode v = true) (hwithin : t.isWithin v c = true) :
    ¬ t.IsMark c := by
  rintro ⟨hleaf, hother⟩
  by_cases heq : v = c
  · rw [heq, hother] at href
    cases href
  · obtain ⟨d, hd, -⟩ := hn.exists_child_of_isWithin hv hwithin heq
    rw [hleaf] at hd
    cases hd

/-- Nothing lies within a name but the name itself. -/
theorem CallShaped.eq_of_within_name (h : t.CallShaped) (hn : t.InPreorder)
    (hv : v < t.nodes.size) (href : t.isReferenceNode c = true) (hc : c < t.nodes.size)
    (hwithin : t.isWithin v c = true) : v = c := by
  by_contra hne
  obtain ⟨d, hd, -⟩ := hn.exists_child_of_isWithin hv hwithin hne
  rw [h.name c hc href] at hd
  cases hd

/-- A name within a construct that has one part stands within the part. -/
theorem CallShaped.isWithin_part (h : t.CallShaped) (hn : t.InPreorder) (hv : v < t.nodes.size)
    (href : t.isReferenceNode v = true) (hwithin : t.isWithin v c = true)
    (honly : t.children c = [d]) : t.isWithin v d = true := by
  have hne : v ≠ c := by
    rintro rfl
    rw [h.name v hv href] at honly
    cases honly
  obtain ⟨e, he, hve⟩ := hn.exists_child_of_isWithin hv hwithin hne
  rw [honly] at he
  rw [← List.mem_singleton.mp he]
  exact hve

/-- What is looked up stands in no type. -/
theorem InPreorder.kind_ne_type (hn : t.InPreorder) (hv : v < t.nodes.size)
    (hlooked : t.isLookedUp v = true) (hwithin : t.isWithin v c = true) : t.kind c ≠ .type := by
  intro hkind
  rw [isLookedUp, Bool.and_eq_true, Bool.not_eq_true', isBelow, List.any_eq_false] at hlooked
  obtain ⟨href, houtside⟩ := hlooked
  rw [isWithin, chain, List.contains_iff_mem, List.mem_cons] at hwithin
  rcases hwithin with rfl | hmem
  · have hname := hn.kind_of_isReferenceNode hv href
    rw [hkind] at hname
    simp at hname
  · exact houtside c hmem (by simp [hkind])

/-- **A method call that is a statement** holds one name outside its arguments, the object. -/
theorem CallShaped.eq_object (h : t.CallShaped) (hn : t.InPreorder)
    {u access call arguments s : Nat} (hstatement : t.children s = [call])
    (haccess : t.parent? u = some access) (hcall : t.parent? access = some call)
    (hcallKind : t.kind call = .call) (harguments : t.child? call "arguments" = some arguments)
    (hmember : t.kind access = .member) (hobject : t.hasField u "object" = true)
    (hfunction : t.hasField access "function" = true) (hu : t.isReferenceNode u = true)
    (hv : v < t.nodes.size) (hlooked : t.isLookedUp v = true) (hwithin : t.isWithin v s = true)
    (houtside : t.isWithin v arguments = false) : v = u := by
  have href := isReferenceNode_of_isLookedUp hlooked
  -- None of the constructs on the way down is a name.
  have hne : ∀ i, t.kind i = .call ∨ t.kind i = .member → v ≠ i := by
    rintro i hi rfl
    have hname := hn.kind_of_isReferenceNode hv href
    rcases hi with hi | hi <;> rw [hi] at hname <;> simp at hname
  have haccessMem := hn.mem_children_iff.mpr hcall
  have huMem := hn.mem_children_iff.mpr haccess
  have hcallSize : call < t.nodes.size := lt_size_of_mem_children haccessMem
  have haccessSize : access < t.nodes.size := lt_size_of_mem_children huMem
  have hvc := h.isWithin_part hn hv href hwithin hstatement
  obtain ⟨d, hd, hvd⟩ := hn.exists_child_of_isWithin hv hvc (hne call (.inl hcallKind))
  have hroles := h.once call hcallSize (.inl hcallKind) d hd
  rcases h.call call hcallSize hcallKind d hd with hrole | hrole | htype | hmark
  · obtain rfl := hroles access haccessMem "function" (by simp) hrole hfunction
    obtain ⟨e, he, hve⟩ := hn.exists_child_of_isWithin hv hvd (hne d (.inr hmember))
    rcases h.member d haccessSize hmember e he with hrole' | hmark
    · obtain rfl := h.once d haccessSize (.inr hmember) e he u huMem "object" (by simp) hrole'
        hobject
      exact h.eq_of_within_name hn hv hu (hn.lt_size_of_mem huMem) hve
    · exact absurd hmark (hn.not_isMark hv href hve)
  · obtain ⟨hmem, hargumentsRole⟩ := mem_of_child? harguments
    obtain rfl := hroles arguments hmem "arguments" (by simp) hrole hargumentsRole
    rw [hvd] at houtside
    cases houtside
  · exact absurd htype (hn.kind_ne_type hv hlooked hvd)
  · exact absurd hmark (hn.not_isMark hv href hvd)

/-! ### Usages of the whole -/

/-- The usages that look at a sequence as a whole: they ask for its length, visit its elements by a
method, or run through them in a loop. -/
inductive ReadsWhole (t : Tree) (usage : NodeId) : Prop
  | length {access : NodeId} (haccess : t.parent? usage = some access)
      (hkind : t.kind access = .member) (hobject : t.hasField usage "object" = true)
      (hname : (t.child? access "property").map t.text = some "length")
      (htarget : t.isTarget access = false)
  | visit {access call : NodeId} {method : String} (haccess : t.parent? usage = some access)
      (hkind : t.kind access = .member) (hobject : t.hasField usage "object" = true)
      (hname : (t.child? access "property").map t.text = some method)
      (hmethod : method ∈ recordSafeMethods) (hcall : t.parent? access = some call)
      (hcallKind : t.kind call = .call) (hfunction : t.hasField access "function" = true)
  | loop {loop : NodeId} (hloop : t.parent? usage = some loop)
      (hkind : t.kind loop = .forInStatement) (hright : t.hasField usage "right" = true)
      (hof : t.operator loop = some "of")

end Tree

namespace MergePlan

variable {p : MergePlan} {m : CollectionId} {context : ZipContext}

/-- A usage that is rewritten by itself looks at the sequence as a whole. -/
theorem readsWhole_of_usageEdits {usage : NodeId} {edits : List Edit}
    (h : p.usageEdits m usage = .ok edits) : p.tree.ReadsWhole usage := by
  unfold usageEdits at h
  dsimp only at h
  split at h
  · exact absurd h withhold_ne_ok
  rename_i access haccess
  split at h
  · rename_i hobject
    simp only [Bool.and_eq_true, beq_iff_eq] at hobject
    unfold memberEdits at h
    dsimp only at h
    -- An access without a property has an empty name, which is that of no method.
    have hname : ∀ name : String, name ≠ "" →
        ((p.tree.child? access "property").map p.tree.text).getD "" = name →
        (p.tree.child? access "property").map p.tree.text = some name := by
      intro name hne heq
      cases hproperty : (p.tree.child? access "property").map p.tree.text with
      | none =>
        rw [hproperty] at heq
        exact absurd heq.symm hne
      | some text =>
        rw [hproperty] at heq
        rw [← heq]
        rfl
    split at h
    · rename_i hlength
      simp only [Bool.and_eq_true, beq_iff_eq, Bool.not_eq_true'] at hlength
      exact .length haccess hobject.1.1 hobject.1.2 (hname "length" (by decide) hlength.1) hlength.2
    split at h
    · rename_i call hcall
      unfold visitingCall? at hcall
      obtain ⟨hparent, hvisits⟩ := Option.filter_eq_some_iff.mp hcall
      simp only [Bool.and_eq_true, beq_iff_eq, List.contains_iff_mem] at hvisits
      obtain ⟨⟨hmethod, hkind⟩, hfunction⟩ := hvisits
      have hne : ((p.tree.child? access "property").map p.tree.text).getD "" ≠ "" := by
        intro hempty
        rw [hempty] at hmethod
        revert hmethod
        decide
      exact .visit haccess hobject.1.1 hobject.1.2 (hname _ hne rfl) hmethod hparent hkind hfunction
    · exact absurd h withhold_ne_ok
  split at h
  · rename_i hloop
    simp only [Bool.and_eq_true, beq_iff_eq] at hloop
    exact .loop haccess hloop.1.1 hloop.1.2 hloop.2
  split at h
  · exact absurd h withhold_ne_ok
  · exact absurd h withhold_ne_ok

end MergePlan

/-! ### Iterations behind the loop -/

section

variable {b : BindingTable} {t : Tree} {context : ZipContext}

/-- The receiver of a method call stands within it. -/
theorem Tree.InPreorder.isWithin_receiver (hn : t.InPreorder) {call receiver : NodeId}
    {parts : Call} (h : t.call? call = some parts) (hreceiver : parts.receiver = some receiver) :
    t.isWithin receiver call = true ∧ receiver < t.nodes.size := by
  unfold Tree.call? at h
  split at h
  · cases h
  obtain ⟨callee, hcallee, rfl⟩ := Option.map_eq_some_iff.mp h
  dsimp only at hreceiver
  split at hreceiver
  · split at hreceiver
    · rename_i object property hobject _
      obtain rfl := Option.some.inj hreceiver
      have hsize := hn.lt_size_of_mem (Tree.mem_of_child? hobject).1
      exact ⟨hn.isWithin_trans hsize (hn.isWithin_of_child? hobject)
        (hn.isWithin_of_child? hcallee), hsize⟩
    · cases hreceiver
  · cases hreceiver

/-- The length that a loop compares its index with stands within the comparison. -/
theorem BindingTable.isWithin_lengthBound (hn : t.InPreorder) {index : BindingId}
    {condition length : NodeId} (h : b.lengthBound? t index condition = some length) :
    t.isWithin length condition = true ∧ length < t.nodes.size := by
  unfold lengthBound? at h
  dsimp only at h
  generalize htest : (if t.kind condition == .expressionStatement then
    (t.children condition).head?.getD condition else condition) = test at h
  have hcondition : t.isWithin test condition = true := by
    rw [← htest]
    split
    · cases hhead : (t.children condition).head? with
      | none => exact t.isWithin_self condition
      | some c => exact hn.isWithin_of_mem_children (List.mem_of_mem_head? hhead)
    · exact t.isWithin_self condition
  split at h
  · split at h
    · rename_i left right hleft hright
      split at h
      · obtain rfl := Option.some.inj h
        have hsize := hn.lt_size_of_mem (Tree.mem_of_child? hright).1
        exact ⟨hn.isWithin_trans hsize (hn.isWithin_of_child? hright) hcondition, hsize⟩
      · cases h
    · cases h
  · cases h

/-- **What an iteration is rewritten at** stands within it. -/
theorem BindingTable.isWithin_of_mem_zipContexts (hn : t.InPreorder)
    (h : context ∈ b.zipContexts t) :
    t.isWithin context.body context.node = true ∧
      match context.indexing with
      | .loop length => t.isWithin length context.node = true
      | .callback _ receiver function =>
        t.isWithin receiver context.node = true ∧ t.isWithin function context.node = true := by
  obtain ⟨i, -, hi⟩ := List.mem_filterMap.mp h
  unfold zipContext? at hi
  split at hi
  · unfold indexLoop? at hi
    obtain ⟨initializer, -, hi⟩ := Option.bind_eq_some_iff.mp hi
    obtain ⟨condition, hcondition, hi⟩ := Option.bind_eq_some_iff.mp hi
    obtain ⟨increment, -, hi⟩ := Option.bind_eq_some_iff.mp hi
    obtain ⟨body, hbody, hi⟩ := Option.bind_eq_some_iff.mp hi
    obtain ⟨index, -, hi⟩ := Option.bind_eq_some_iff.mp hi
    obtain ⟨length, hlength, hi⟩ := Option.bind_eq_some_iff.mp hi
    obtain ⟨collection, -, hi⟩ := Option.bind_eq_some_iff.mp hi
    split at hi
    · obtain rfl := Option.some.inj hi
      obtain ⟨hwithin, hsize⟩ := isWithin_lengthBound hn hlength
      exact ⟨hn.isWithin_of_child? hbody,
        hn.isWithin_trans hsize hwithin (hn.isWithin_of_child? hcondition)⟩
    · cases hi
  · unfold indexedCallback? at hi
    obtain ⟨parts, hparts, hi⟩ := Option.bind_eq_some_iff.mp hi
    obtain ⟨receiver, hreceiver, hi⟩ := Option.bind_eq_some_iff.mp hi
    obtain ⟨function, hfunction, hi⟩ := Option.bind_eq_some_iff.mp hi
    obtain ⟨collection, hcollection, hi⟩ := Option.bind_eq_some_iff.mp hi
    obtain ⟨parameter, -, hi⟩ := Option.bind_eq_some_iff.mp hi
    obtain ⟨index, -, hi⟩ := Option.bind_eq_some_iff.mp hi
    obtain ⟨body, hbody, hi⟩ := Option.bind_eq_some_iff.mp hi
    split at hi
    · obtain rfl := Option.some.inj hi
      obtain ⟨argument, hargument, hself⟩ := Option.bind_eq_some_iff.mp hfunction
      obtain ⟨rfl, -⟩ := eq_of_asFunction hself
      have hmem : argument ∈ t.arguments i := by
        rw [← arguments_of_call? hparts]
        exact List.mem_of_mem_head? hargument
      obtain ⟨hwithin, hsize⟩ := hn.isWithin_argument hmem
      obtain ⟨hin, hreceiverSize⟩ := hn.isWithin_receiver hparts hreceiver
      have hstripped : t.stripped receiver < t.nodes.size := by
        refine Tree.lt_size_of_kind ?_
        rw [kind_stripped_of_sourceOf hcollection]
        decide
      exact ⟨hn.isWithin_trans (hn.lt_size_of_mem (Tree.mem_of_child? hbody).1)
          (hn.isWithin_of_child? hbody) hwithin,
        hn.isWithin_trans hstripped (hn.isWithin_stripped receiver) hin, hwithin⟩
    · cases hi
  · cases hi

end

namespace MergePlan

variable {p : MergePlan} {m : CollectionId} {context : ZipContext}

/-- An iteration that is rewritten stands behind the loop. -/
theorem ready_le_of_contextDraft {draft : Draft} (h : p.contextDraft context = .ok draft)
    (hconcerns : p.concerns context = true) : p.ready ≤ (p.tree.span context.node).start := by
  unfold contextDraft at h
  rw [if_pos hconcerns] at h
  dsimp only at h
  obtain ⟨_, hready, -⟩ := bind_eq_ok.mp h
  exact of_decide_eq_true (require_eq_ok.mp hready)

/-- **What an iteration takes care of** stands within it. -/
theorem isWithin_of_covered (hn : p.tree.InPreorder)
    (hcontext : context ∈ p.table.zipContexts p.tree) {draft : Draft}
    (h : p.contextDraft context = .ok draft) {n : NodeId} (hsize : n < p.tree.nodes.size)
    (hcovered : n ∈ draft.covered) :
    p.concerns context = true ∧ p.tree.isWithin n context.node = true := by
  obtain ⟨hbody, hhead⟩ := BindingTable.isWithin_of_mem_zipContexts hn hcontext
  obtain ⟨-, rfl⟩ | ⟨hconcerns, ⟨head, locals⟩, hheadDraft, -, rfl⟩ := contextDraft_cases h
  · cases hcovered
  refine ⟨hconcerns, ?_⟩
  have haccess : n ∈ p.subtrees ((p.memberAccesses context).map (·.1)) →
      p.tree.isWithin n context.node = true := by
    intro hmem
    obtain ⟨i, hi, hin⟩ := List.mem_flatMap.mp hmem
    obtain ⟨access, haccess, rfl⟩ := List.mem_map.mp hi
    have hbelow := hn.isWithin_trans hsize (hn.isWithin_of_mem_subtree hin)
      (hn.isWithin_of_mem_subtree (of_mem_memberAccesses haccess).1)
    exact hn.isWithin_trans hsize hbelow hbody
  obtain ⟨length, object, hindexing, hobject, heq⟩ |
    ⟨method, receiver, callback, first, locals', hindexing, hfirst, -, heq⟩ :=
      headDraft_cases hheadDraft
  · obtain ⟨rfl, rfl⟩ := Prod.mk.inj heq
    rw [hindexing] at hhead
    rcases List.mem_append.mp hcovered with hmem | hmem
    · obtain rfl := List.mem_singleton.mp hmem
      exact hn.isWithin_trans hsize (hn.isWithin_of_child? hobject) hhead
    · exact haccess hmem
  · obtain ⟨rfl, rfl⟩ := Prod.mk.inj heq
    rw [hindexing] at hhead
    rcases List.mem_append.mp hcovered with hmem | hmem
    · rcases List.mem_cons.mp hmem with rfl | hmem
      · exact hhead.1
      · have hparameter := hn.isWithin_functionParameter (List.mem_of_mem_head? hfirst)
        have hbelow := hn.isWithin_trans hsize (hn.isWithin_of_mem_subtree hmem) hparameter
        exact hn.isWithin_trans hsize hbelow hhead.2
    · exact haccess hmem

/-- The latest of some offsets is not before any of them. -/
theorem le_latest {offsets : List Nat} {k : Nat} (hk : k ∈ offsets) : k ≤ Arena.latest offsets := by
  have hfold : ∀ start : Nat, start ≤ offsets.foldl max start ∧
      (k ∈ offsets → k ≤ offsets.foldl max start) := by
    clear hk
    induction offsets with
    | nil => exact fun start => ⟨Nat.le_refl start, fun h => nomatch h⟩
    | cons first rest ih =>
      intro start
      obtain ⟨hle, hmem⟩ := ih (max start first)
      rw [List.foldl_cons]
      refine ⟨Nat.le_trans (Nat.le_max_left start first) hle, fun h => ?_⟩
      rcases List.mem_cons.mp h with rfl | h
      · exact Nat.le_trans (Nat.le_max_right start k) hle
      · exact hmem h
  exact (hfold 0).2 hk

/-! ### Statements that fill members -/

/-- What is known of the statement that fills a member in the loop of its group. -/
structure FilledBy (p : MergePlan) (loop body : NodeId) (m : CollectionId) (push : NodeId) :
    Prop where
  kind_eq : p.tree.kind push = .expressionStatement
  /-- It stands in the block that the loop runs. -/
  stands : p.tree.parent? push = some body
  within : p.tree.isWithin push loop = true
  loop_eq : (p.collection m).loop = some loop
  shape_eq : (p.collection m).shape = .sequence
  declared : ∃ d, (p.binding m).declaration = some d ∧
    (p.tree.span d).stop ≤ (p.tree.span loop).start
  /-- It calls a method of the member. -/
  fills : ∃ u ∈ (p.binding m).usages, BindingTable.adds p.tree .sequence u.node = true ∧
    ∃ access call, p.tree.parent? u.node = some access ∧ p.tree.parent? access = some call ∧
      p.tree.parent? call = some push

/-- What runs once per element of a loop stands within the loop. -/
theorem isWithin_of_iteration {b : BindingTable} {t : Tree} (hn : t.InPreorder)
    {statement loop : NodeId} {source : BindingId}
    (h : b.enclosingIteration? t statement = some (loop, source)) :
    t.isWithin statement loop = true := by
  obtain ⟨body, owner, hbody, howner, -, hloop⟩ := BindingTable.enclosingIteration_cases h
  have hsize := Tree.lt_size_of_parent hbody
  have hin : t.isWithin statement owner = true :=
    hn.isWithin_trans hsize (hn.isWithin_of_mem_children (hn.mem_children_iff.mpr hbody))
      (hn.isWithin_of_mem_children (hn.mem_children_iff.mpr howner))
  rcases hloop with ⟨-, rfl⟩ | ⟨-, arguments, harguments, hcall, -⟩
  · exact hin
  · have houter := hn.isWithin_trans hsize hin
      (hn.isWithin_of_mem_children (hn.mem_children_iff.mpr harguments))
    exact hn.isWithin_trans hsize houter
      (hn.isWithin_of_mem_children (hn.mem_children_iff.mpr hcall))

/-- **The members of a group that is filled side by side** are filled by statements of one block. -/
theorem Formed.exists_filledBy (hp : p.Formed) (hpattern : p.group.pattern = .coBuilt)
    (hpushed : ∀ m ∈ p.removed, p.checkPushed m = .ok ()) :
    ∃ loop body, ∀ m ∈ p.removed, ∃ push, (p.collection m).populate = some push ∧
      p.FilledBy loop body m push := by
  obtain ⟨hne, loop, hloop⟩ := exists_loop hp.mem_groups hpattern
  have hfilled : ∀ m ∈ p.removed, ∃ push f, (p.collection m).populate = some push ∧
      p.tree.kind push = .expressionStatement ∧ (p.collection m).shape = .sequence ∧
      p.table.filling? p.tree (p.bindingId m) .sequence = some f ∧ f.loop = loop ∧
      f.populate = push := by
    intro m hm
    obtain ⟨hshape, push, hpush, hkind⟩ := (checkPushed_yields m).of_ok (hpushed m hm)
    obtain ⟨f, hf, hfloop, hfpush⟩ := exists_filling_of_push hp.arena_eq (hloop m hm) hshape hpush
    exact ⟨push, f, hpush, hkind, hshape, hf, hfloop, hfpush⟩
  obtain ⟨first, hfirst⟩ := List.exists_mem_of_ne_nil _ hne
  obtain ⟨push, f, -, hkind, -, hf, rfl, rfl⟩ := hfilled first hfirst
  obtain ⟨-, -, source, hsource⟩ := BindingTable.exists_usage_of_filling hf hkind
  obtain ⟨body, hbody, -⟩ := BindingTable.block_unique hp.numbered hp.shaped hsource hsource
  refine ⟨f.loop, body, ?_⟩
  intro m hm
  obtain ⟨push, g, hpush, hkind', hshape, hg, hgloop, rfl⟩ := hfilled m hm
  obtain ⟨hfills, hdeclared, source', hsource'⟩ := BindingTable.exists_usage_of_filling hg hkind'
  rw [hgloop] at hdeclared hsource'
  obtain ⟨body', hbody', hstands⟩ :=
    BindingTable.block_unique hp.numbered hp.shaped hsource hsource'
  obtain rfl := Option.some.inj (hbody.symm.trans hbody')
  have hfilled := (Arena.of_fillingLoop (hloop m hm)).2.1
  exact ⟨g.populate, hpush, hkind', hstands, isWithin_of_iteration hp.numbered hsource', hfilled,
    hshape, hdeclared, hfills⟩

/-- Whether a statement fills a member that the merge removes. -/
def IsPush (p : MergePlan) (s : NodeId) : Prop :=
  ∃ m ∈ p.removed, (p.collection m).populate = some s

/-- Whether a statement that fills no member stands between two that do, in one block. -/
structure StandsBetween (p : MergePlan) (before statement after : NodeId) : Prop where
  pushes : p.IsPush before ∧ p.IsPush after
  other : ¬ p.IsPush statement
  siblings : p.tree.parent? statement = p.tree.parent? before ∧
    p.tree.parent? statement = p.tree.parent? after
  order : (p.tree.span before).stop ≤ (p.tree.span statement).start ∧
    (p.tree.span statement).stop ≤ (p.tree.span after).start

/-- A statement that is a call pushes the only argument. -/
theorem pushedValue_of_call {push call arguments value : NodeId} (k : CollectionId)
    (hstatement : p.tree.children push = [call])
    (harguments : p.tree.child? call "arguments" = some arguments)
    (hvalue : p.tree.children arguments = [value]) : p.pushedValue (k, push) = .ok (k, value) := by
  unfold pushedValue
  refine bind_eq_ok.mpr ⟨call, fetch_eq_ok.mpr (by rw [hstatement]; rfl), ?_⟩
  refine bind_eq_ok.mpr ⟨arguments, fetch_eq_ok.mpr harguments, ?_⟩
  exact bind_eq_ok.mpr ⟨value, fetch_eq_ok.mpr (by rw [hvalue]; rfl), rfl⟩

theorem OfProgram.accounted (hp : p.OfProgram) : p.table.Accounted p.tree := by
  rw [hp.table_eq]
  exact BindingTable.accounted_ofTree p.tree

/-- **A push uses a member only in order to fill it**: the value that it pushes was checked to use
none. -/
theorem FilledBy.populates_of_within {loop body push : NodeId} {k : CollectionId}
    (h : p.FilledBy loop body k push) (hp : p.OfProgram) (hg : p.tree.GrammarShaped)
    (hc : p.tree.CallShaped) (hpush : (p.collection k).populate = some push)
    {values : List NodeId} (hvalues : ∀ n, p.pushedValue (k, push) = .ok (k, n) → n ∈ values)
    (hunread : p.checkUnread values = .ok ()) (hm : m ∈ p.removed) {v : Usage}
    (hv : v ∈ (p.binding m).usages) (hwithin : p.tree.isWithin v.node push = true) :
    p.bindingId k = p.bindingId m ∧ (p.collection k).Populates p.tree v.node := by
  have hn := hp.numbered
  obtain ⟨u, hu, hadds, access, call, haccess, hcall, houter⟩ := h.fills
  obtain ⟨access', call', arguments, value, haccess', hcall', hcallKind, harguments, hvalue,
    hmember, hobject, hfunction⟩ := BindingTable.adds_sequence hadds
  obtain rfl := Option.some.inj (haccess.symm.trans haccess')
  obtain rfl := Option.some.inj (hcall.symm.trans hcall')
  have hstatement : p.tree.children push = [call] := by
    obtain ⟨only, honly⟩ := hg.statement push h.kind_eq
    have hmem := hn.mem_children_iff.mpr houter
    rw [honly, List.mem_singleton] at hmem
    rw [honly, hmem]
  have hpushed := pushedValue_of_call k hstatement harguments hvalue
  have htable := hp.accounted
  obtain ⟨-, hlt, href⟩ := htable.usage v hv
  have hlooked : p.tree.isLookedUp v.node = true := by
    have hrecorded := (BindingTable.recorded_ofTree p.tree).lookedUp (i := p.bindingId m) v
    rw [← hp.table_eq] at hrecorded
    exact hrecorded hv
  have houtside : p.tree.isWithin v.node arguments = false := by
    by_contra hin
    rw [Bool.not_eq_false] at hin
    have hinside := hc.isWithin_part hn hlt href hin hvalue
    rw [not_isWithin_of_checkUnread hunread hm v hv value (hvalues value hpushed)] at hinside
    cases hinside
  have heq : v.node = u.node := hc.eq_object hn hstatement haccess hcall hcallKind
    harguments hmember hobject hfunction (htable.usage u hu).2.2 hlt hlooked hwithin houtside
  refine ⟨?_, ?_, ?_⟩
  · have hkeep := htable.of_usage u hu
    rw [← heq, htable.of_usage v hv] at hkeep
    exact (Option.some.inj hkeep).symm
  · rw [hpush, heq, hn.ancestors_of_parent haccess, hn.ancestors_of_parent hcall,
      hn.ancestors_of_parent houter]
    simp
  · rw [h.shape_eq, heq]
    exact hadds

/-- **How members that are filled side by side are merged**: their declarations and pushes are taken
care of at once, no pushed value uses a member, and then come the other usages. -/
theorem OfProgram.exists_usageDraft (hp : p.OfProgram) (hg : p.tree.GrammarShaped)
    (hpattern : p.group.pattern = .coBuilt) {r : Rewrite} (h : p.rewrite = .ok r) :
    ∃ loop body values covered used,
      (∀ m ∈ p.removed, ∃ push, (p.collection m).populate = some push ∧
        p.FilledBy loop body m push) ∧
      p.checkUnread values = .ok () ∧
      (∀ k ∈ p.removed, ∀ push, (p.collection k).populate = some push →
        ∀ n, p.pushedValue (k, push) = .ok (k, n) → n ∈ values) ∧
      p.usageDraft covered = .ok used ∧
      ∀ n ∈ covered, (∃ k ∈ p.removed, ∃ d, (p.binding k).declaration = some d ∧
        p.tree.isWithin n d = true) ∨ ∃ push, p.IsPush push ∧ p.tree.isWithin n push = true := by
  have hn := hp.numbered
  obtain ⟨declared, used, hdeclared, hused, -⟩ := rewrite_eq_ok h
  rw [declarationDraft, hpattern] at hdeclared
  obtain ⟨declarations, pushes, values, hpushed, hdeclarations, hpushes, hunread, hsources, rfl⟩ :=
    coBuiltDraft_eq_ok hdeclared
  have hformed : p.Formed := ⟨hn, hg, hp.arena_eq, hp.mem_groups⟩
  obtain ⟨loop, body, hfilled⟩ := hformed.exists_filledBy hpattern hpushed
  refine ⟨loop, body, values.map (·.2), _, used, hfilled, hunread, ?_, hused, ?_⟩
  · intro k hk push hpush n hvalue
    exact (hsources n).mpr (mem_pushSources.mpr ⟨k, hk, push, hpush, hvalue⟩)
  · intro n hcovered
    obtain ⟨d, hd, hbelow⟩ := List.mem_flatMap.mp hcovered
    have hin := hn.isWithin_of_mem_subtree hbelow
    rcases List.mem_append.mp hd with hd | hd
    · obtain ⟨k, hk, hdeclaration⟩ := (mem_adjacentDeclarations hdeclarations).mp hd
      exact .inl ⟨k, hk, d, hdeclaration, hin⟩
    · exact .inr ⟨d, (hpushes d).mp hd, hin⟩

/-- **What may be seen of a member in the loop that fills it**, outside the pushes: the declarations
stand before the loop, and the iterations that read members at an index behind it, so the usage is
one of those that are rewritten by themselves. -/
theorem OfProgram.readsWhole_of_within (hp : p.OfProgram) (hs : p.tree.Spaced)
    (hready : p.ready = p.arena.groupReadyOffset p.table p.tree p.group)
    (hpattern : p.group.pattern = .coBuilt) {loop body : NodeId}
    (hfilled : ∀ m ∈ p.removed, ∃ push, (p.collection m).populate = some push ∧
      p.FilledBy loop body m push)
    {covered : List NodeId} {used : Draft} (hused : p.usageDraft covered = .ok used)
    (hcovered : ∀ n ∈ covered, (∃ k ∈ p.removed, ∃ d, (p.binding k).declaration = some d ∧
      p.tree.isWithin n d = true) ∨ ∃ push, p.IsPush push ∧ p.tree.isWithin n push = true)
    (hm : m ∈ p.removed) {u : Usage} (hu : u ∈ (p.binding m).usages)
    (hstart : (p.tree.span loop).start ≤ (p.tree.span u.node).start)
    (hstop : (p.tree.span u.node).stop ≤ (p.tree.span loop).stop)
    (houtside : ∀ push, p.IsPush push → p.tree.isWithin u.node push = false) :
    p.tree.ReadsWhole u.node := by
  have hn := hp.numbered
  have htable := hp.accounted
  obtain ⟨-, hsize, href⟩ := htable.usage u hu
  have hname := hs.name u.node hsize href
  obtain ⟨drafts, edits, hdrafts, hopen, -, -⟩ := usageDraft_eq_ok hused
  have hfree : u.node ∉ covered ++ (Draft.concat drafts).covered := by
    intro hmem
    rcases List.mem_append.mp hmem with hmem | hmem
    · rcases hcovered u.node hmem with ⟨k, hk, d, hdeclaration, hin⟩ | ⟨push, hpush, hin⟩
      · obtain ⟨push, -, hby⟩ := hfilled k hk
        obtain ⟨d', hd', hbefore⟩ := hby.declared
        obtain rfl := Option.some.inj (hdeclaration.symm.trans hd')
        have hcovers := Span.covers_iff.mp (hs.covers_of_isWithin hn hin)
        omega
      · rw [houtside push hpush] at hin
        cases hin
    · obtain ⟨draft, hdraft, hmem⟩ := Draft.mem_covered_concat.mp hmem
      obtain ⟨context, hcontext, hok⟩ := (mem_of_mapM hdrafts).mp hdraft
      obtain ⟨hconcerns, hin⟩ :=
        isWithin_of_covered hn (mem_zipContexts hp.arena_eq hcontext) hok hsize hmem
      have hbehind := ready_le_of_contextDraft hok hconcerns
      have hcovers := Span.covers_iff.mp (hs.covers_of_isWithin hn hin)
      have hcomplete : (p.tree.span loop).stop ≤ p.ready := by
        obtain ⟨push, -, hby⟩ := hfilled m hm
        have hloop : (p.arena.collection m).loop = some loop := hby.loop_eq
        rw [removed, hpattern] at hm
        rw [hready]
        refine le_latest (List.mem_map.mpr ⟨m, List.mem_append_left _ hm, ?_⟩)
        rw [Arena.readyOffset, hloop]
        rfl
      omega
  have husage : u.node ∈ p.openUsages (covered ++ (Draft.concat drafts).covered) m :=
    List.mem_filter.mpr ⟨List.mem_map_of_mem hu, by simpa using hfree⟩
  obtain ⟨es, -, hok⟩ := hopen m hm u.node husage
  exact readsWhole_of_usageEdits hok

/-- **What may be seen of a member between two pushes.** -/
theorem OfProgram.read_between (hp : p.OfProgram) (hs : p.tree.Spaced) (hg : p.tree.GrammarShaped)
    (ha : p.tree.Arranged) (hc : p.tree.CallShaped) (hpattern : p.group.pattern = .coBuilt)
    (hready : p.ready = p.arena.groupReadyOffset p.table p.tree p.group) {r : Rewrite}
    (h : p.rewrite = .ok r) (hm : m ∈ p.removed) {u : Usage} (hu : u ∈ (p.binding m).usages)
    {first last : NodeId} (hfirst : p.IsPush first) (hlast : p.IsPush last)
    (hstart : (p.tree.span first).start ≤ (p.tree.span u.node).start)
    (hstop : (p.tree.span u.node).stop ≤ (p.tree.span last).stop) :
    (∃ k ∈ p.removed, p.bindingId k = p.bindingId m ∧ (p.collection k).Populates p.tree u.node) ∨
      (p.tree.ReadsWhole u.node ∧ ∃ statement, p.StandsBetween first statement last ∧
        p.tree.isWithin u.node statement = true) := by
  have hn := hp.numbered
  have htable := hp.accounted
  obtain ⟨-, hsize, href⟩ := htable.usage u hu
  obtain ⟨loop, body, values, covered, used, hfilled, hunread, hvalues, hused, hcovered⟩ :=
    hp.exists_usageDraft hg hpattern h
  have hfilledBy : ∀ k ∈ p.removed, ∀ push, (p.collection k).populate = some push →
      p.FilledBy loop body k push := by
    intro k hk push hpush
    obtain ⟨push', hpush', hby⟩ := hfilled k hk
    rw [hpush] at hpush'
    obtain rfl := Option.some.inj hpush'
    exact hby
  by_cases hinside : ∃ push, p.IsPush push ∧ p.tree.isWithin u.node push = true
  · obtain ⟨push, ⟨k, hk, hpush⟩, hwithin⟩ := hinside
    exact .inl ⟨k, hk, (hfilledBy k hk push hpush).populates_of_within hp hg hc hpush
      (hvalues k hk push hpush) hunread hm hu hwithin⟩
  · have houtside : ∀ push, p.IsPush push → p.tree.isWithin u.node push = false := by
      intro push hpush
      by_contra hin
      exact hinside ⟨push, hpush, by simpa using hin⟩
    have hplace : ∀ s, p.IsPush s → (p.tree.span loop).covers (p.tree.span s) = true ∧
        p.tree.parent? s = some body := by
      rintro s ⟨k, hk, hpush⟩
      have hby := hfilledBy k hk s hpush
      exact ⟨hs.covers_of_isWithin hn hby.within, hby.stands⟩
    obtain ⟨hfirstIn, hfirstParent⟩ := hplace first hfirst
    obtain ⟨hlastIn, hlastParent⟩ := hplace last hlast
    refine .inr ⟨?_, ?_⟩
    · exact hp.readsWhole_of_within hs hready hpattern hfilled hused hcovered hm hu
        (Nat.le_trans (Span.covers_iff.mp hfirstIn).1 hstart)
        (Nat.le_trans hstop (Span.covers_iff.mp hlastIn).2) houtside
    · have hapart : ∀ k, p.tree.isWithin u.node k = true → ¬ p.IsPush k := by
        intro k hin hpush
        rw [houtside k hpush] at hin
        cases hin
      obtain ⟨statement, hstatement, hwithin, horder⟩ := ha.exists_statement_between hs hn hsize
        (hc.name u.node hsize href) (hs.name u.node hsize href)
        (hn.mem_children_iff.mpr hfirstParent) (hn.mem_children_iff.mpr hlastParent) hstart hstop
        fun k hin => ⟨fun heq => hapart k hin (heq ▸ hfirst), fun heq => hapart k hin (heq ▸ hlast)⟩
      have hparent := hn.parent_of_mem body statement hstatement
      exact ⟨statement, ⟨⟨hfirst, hlast⟩, hapart statement hwithin,
        ⟨hparent.trans hfirstParent.symm, hparent.trans hlastParent.symm⟩, horder⟩, hwithin⟩

/-- **What is seen of sequences that are being filled.**  Where a merge of such sequences is made,
every usage of a member between two of the pushes is itself one of those that fill it, or it stands
in another statement of the block and asks for the length, visits the elements by a method, or runs
through them in a loop. -/
theorem read_while_filled (l : Language) (source : Bytes) (root : Concrete) (pure : List String)
    (marker : String) (g : Group) :
    let t := Tree.ofConcrete l source root
    let b := BindingTable.ofTree t
    let a := Arena.ofTree b t
    let p := ofGroup t b a pure marker t.spelledNames g
    t.Spaced → t.GrammarShaped → t.Arranged → t.CallShaped → g ∈ a.groups b t →
      g.pattern = .coBuilt → ∀ r, p.rewrite = .ok r →
      ∀ m ∈ p.removed, ∀ u ∈ (p.binding m).usages, ∀ first last, p.IsPush first → p.IsPush last →
        (t.span first).start ≤ (t.span u.node).start → (t.span u.node).stop ≤ (t.span last).stop →
        (∃ k ∈ p.removed, p.bindingId k = p.bindingId m ∧ (p.collection k).Populates t u.node) ∨
          (t.ReadsWhole u.node ∧ ∃ statement, p.StandsBetween first statement last ∧
            t.isWithin u.node statement = true) := by
  intro t b a p hs hshaped ha hc hg hpattern r hr m hm u hu first last hfirst hlast hstart hstop
  have hp : p.OfProgram := .of_mem l source root pure marker t.spelledNames hg
  exact hp.read_between hs hshaped ha hc hpattern rfl hr hm hu hfirst hlast hstart hstop

end MergePlan

/-! ### A program -/

namespace Sample

/-- The statement `a.push(value);` at an offset, where the value stands at its place in it. -/
def pushTree (k : Nat) (value : Concrete) : Concrete :=
  statementTree (construct "call_expression" k (value.head.stop + 1) [
    construct "member_expression" k (k + 6) [
      nameTree k (some "object"), token "." (k + 1),
      construct "property_identifier" (k + 2) (k + 6) [] (some "property")] (some "function"),
    construct "arguments" (k + 6) (value.head.stop + 1)
      [token "(" (k + 6), value, token ")" value.head.stop] (some "arguments")])

/-- The statement `a.push(1);` at an offset. -/
def pushNumber (k : Nat) : Concrete := pushTree k (construct "number" (k + 7) (k + 8) [])

/-- The declaration `const a = [];` at an offset. -/
def emptyDeclaration (k : Nat) : Concrete :=
  construct "lexical_declaration" k (k + 13)
    [token "const" k (some "kind"), emptyDeclarator (k + 6), token ";" (k + 12)]

/-- The length of one sequence is asked for when only the other one has been filled. -/
def observing : Bytes := Utf8.encode ("const src = get();\nconst a = [];\nconst b = [];\n" ++
  "for (const s of src) \x7b\n  a.push(1);\n  log(b.length);\n  b.push(2);\n\x7d\n")

/-- The tree of `observing`. -/
def observingTree : Concrete :=
  construct "program" 0 115 [
    sourceDeclaration, emptyDeclaration 19, emptyDeclaration 33,
    construct "for_in_statement" 47 114 [
      token "for" 47, token "(" 51, token "const" 52 (some "kind"), nameTree 58 (some "left"),
      token "of" 60 (some "operator"), construct "identifier" 63 66 [] (some "right"),
      token ")" 66,
      construct "statement_block" 68 114 [
        token "\x7b" 68, pushNumber 72,
        statementTree (construct "call_expression" 85 98 [
          construct "identifier" 85 88 [] (some "function"),
          construct "arguments" 88 98 [
            token "(" 88,
            construct "member_expression" 89 97 [
              nameTree 89 (some "object"), token "." 90,
              construct "property_identifier" 91 97 [] (some "property")],
            token ")" 97] (some "arguments")]),
        pushNumber 102, token "\x7d" 113] (some "body")]]

end Sample

namespace MergePlan

/-- Two pushes stand apart, with a usage of the second sequence in between, and are merged. -/
theorem sample_observing :
    let t := Tree.ofConcrete .javascript Sample.observing Sample.observingTree
    let b := BindingTable.ofTree t
    let a := Arena.ofTree b t
    let g : Group := ⟨[1, 2], 0, .coBuilt, some 15, false⟩
    let p := ofGroup t b a [] "" t.spelledNames g
    g ∈ a.groups b t ∧ (1 ∈ p.removed ∧ (p.collection 1).populate = some 19) ∧
      (2 ∈ p.removed ∧ (p.collection 2).populate = some 33) ∧
      (⟨31, false, true⟩ ∈ (p.binding 2).usages ∧
        (b.binding 2).usages.map (·.node) = [31, 36]) ∧
      ((t.span 19).stop ≤ (t.span 31).start ∧ (t.span 31).stop ≤ (t.span 33).start) ∧
      (∀ k ∈ p.removed, BindingTable.adds t (p.collection k).shape 31 = false) ∧
      ∃ r, p.rewrite = .ok r ∧ (Edit.applyAll t.source r.edits).1 =
        Utf8.encode ("const src = get();\nconst srcRecords = [];\nfor (const s of src) \x7b\n" ++
          "  srcRecords.push(\x7b aItem: 1, bItem: 2 \x7d);\n  log(srcRecords.length);\n\x7d\n") := by
  intro t b a g p
  have hfacts : a.groups b t = [g] ∧ (1 ∈ p.removed ∧ (p.collection 1).populate = some 19) ∧
      (2 ∈ p.removed ∧ (p.collection 2).populate = some 33) ∧
      (⟨31, false, true⟩ ∈ (p.binding 2).usages ∧
        (b.binding 2).usages.map (·.node) = [31, 36]) ∧
      ((t.span 19).stop ≤ (t.span 31).start ∧ (t.span 31).stop ≤ (t.span 33).start) ∧
      (∀ k ∈ p.removed, BindingTable.adds t (p.collection k).shape 31 = false) ∧
      p.rewrite.toOption.map (fun r => (Edit.applyAll t.source r.edits).1) =
        some (Utf8.encode ("const src = get();\nconst srcRecords = [];\n" ++
          "for (const s of src) \x7b\n  srcRecords.push(\x7b aItem: 1, bItem: 2 \x7d);\n" ++
          "  log(srcRecords.length);\n\x7d\n")) := by
    decide +kernel
  obtain ⟨hgroups, hfirst, hlast, husages, hbetween, hadds, happlied⟩ := hfacts
  exact ⟨by rw [hgroups]; exact .head _, hfirst, hlast, husages, hbetween, hadds,
    exists_of_toOption_map happlied⟩

/-- The length is asked for in a statement between the two pushes. -/
theorem sample_read_while_filled :
    let t := Tree.ofConcrete .javascript Sample.observing Sample.observingTree
    let b := BindingTable.ofTree t
    let a := Arena.ofTree b t
    let g : Group := ⟨[1, 2], 0, .coBuilt, some 15, false⟩
    let p := ofGroup t b a [] "" t.spelledNames g
    (t.Spaced ∧ t.GrammarShaped ∧ t.Arranged ∧ t.CallShaped ∧ g ∈ a.groups b t) ∧
      (p.IsPush 19 ∧ p.IsPush 33 ∧ (t.span 19).start ≤ (t.span 31).start ∧
        (t.span 31).stop ≤ (t.span 33).stop) ∧
      t.ReadsWhole 31 ∧ ∃ statement, p.StandsBetween 19 statement 33 ∧
        t.isWithin 31 statement = true := by
  intro t b a g p
  have hshapes : t.Spaced ∧ t.Arranged ∧ t.CallShaped := by
    refine ⟨Tree.spaced_iff.mpr ?_, ?_, ?_⟩ <;> decide +kernel
  have hgrammar : t.GrammarShaped := by
    refine Sample.grammarShaped ("const src = get();\nconst a = [];\nconst b = [];\n" ++
      "for (const s of src) \x7b\n  a.push(1);\n  log(b.length);\n  b.push(2);\n\x7d\n")
      (by decide +kernel) (by decide +kernel) ?_
    decide +kernel
  obtain ⟨hs, ha, hc⟩ := hshapes
  obtain ⟨hg, hfirst, hlast, ⟨husage, -⟩, ⟨hbehind, hbefore⟩, hadds, r, hr, -⟩ :=
    sample_observing
  have hpushes : p.IsPush 19 ∧ p.IsPush 33 := ⟨⟨1, hfirst⟩, ⟨2, hlast⟩⟩
  have hbetween : (t.span 19).start ≤ (t.span 31).start ∧ (t.span 31).stop ≤ (t.span 33).stop :=
    ⟨Nat.le_trans (hs.span_le 19).1 hbehind, Nat.le_trans hbefore (hs.span_le 33).1⟩
  refine ⟨⟨hs, hgrammar, ha, hc, hg⟩, ⟨hpushes.1, hpushes.2, hbetween⟩, ?_⟩
  rcases read_while_filled .javascript Sample.observing Sample.observingTree [] "" g hs hgrammar ha
    hc hg rfl r hr 2 hlast.1 ⟨31, false, true⟩ husage 19 33 hpushes.1 hpushes.2 hbetween.1
    hbetween.2 with ⟨k, hk, -, hpopulates⟩ | hread
  · have hfills := hpopulates.adds
    rw [hadds k hk] at hfills
    cases hfills
  · exact hread

/-- **The exception.**  Two pushes stand apart, and their values can move; in between, the length of
the second sequence is asked for, which is still what it was before the round.  The merge goes ahead
and asks for the length of the records instead, which counts the record of the round. -/
theorem merge_changes_length_seen :
    let t := Tree.ofConcrete .javascript Sample.observing Sample.observingTree
    let b := BindingTable.ofTree t
    let a := Arena.ofTree b t
    let g : Group := ⟨[1, 2], 0, .coBuilt, some 15, false⟩
    let p := ofGroup t b a [] "" t.spelledNames g
    g ∈ a.groups b t ∧ p.IsPush 19 ∧ p.IsPush 33 ∧
      (b.binding 2).usages.map (·.node) = [31, 36] ∧ t.text 30 = "b.length" ∧
      t.parent? 31 = some 30 ∧ (t.span 19).stop ≤ (t.span 31).start ∧
      (t.span 31).stop ≤ (t.span 33).start ∧
      ∃ r, p.rewrite = .ok r ∧ (Edit.applyAll t.source r.edits).1 =
        Utf8.encode ("const src = get();\nconst srcRecords = [];\nfor (const s of src) \x7b\n" ++
          "  srcRecords.push(\x7b aItem: 1, bItem: 2 \x7d);\n  log(srcRecords.length);\n\x7d\n") := by
  intro t b a g p
  have haccess : t.text 30 = "b.length" ∧ t.parent? 31 = some 30 := by decide +kernel
  obtain ⟨hg, hfirst, hlast, ⟨-, husages⟩, ⟨hbehind, hbefore⟩, -, hrewrite⟩ := sample_observing
  exact ⟨hg, ⟨1, hfirst⟩, ⟨2, hlast⟩, husages, haccess.1, haccess.2, hbehind, hbefore, hrewrite⟩

end MergePlan

end Declutter
