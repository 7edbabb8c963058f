import Declutter.Proofs.Binding.Assignment
import Declutter.Proofs.Collection.Candidates
import Declutter.Proofs.Merge.Deletion

/-!
# What changes a collection

Elements are added, removed or replaced through an access to the collection: something is assigned
to the access, in whatever form, it is counted or deleted, or it names a method that changes the
collection and is called.  A collection counts as unchanged if none of its usages is found to do
so, and the usages are judged one by one, each by the access around it and the construct around
that.

Two sorts of changes are meant to be passed over: the statement that fills the collection, and the
markers `c[i] = v` of an iteration.  Others are passed over because the construct right around the
access does not tell: the access stands in parentheses, in a pattern or in the head of a loop, its
object stands in parentheses, a property is counted or deleted, or the usage lies below the
statement that fills the collection.

## Main definitions

* `Tree.ObjectOf`, `Tree.Altered` — the object of an access, and the accesses through which an
  object is changed.
* `BindingTable.Marks` — the statements that mark an element as done.
* `Collection.Populates` — the usage that fills a collection.
* `Collection.Overlooked` — the changes that are passed over.

## Main results

* `Arena.altered_of_not_mutated` — what may change a collection that counts as unchanged.
* `Collection.touch_of_overlooked` — what is overlooked counts as harmless.
* `Arena.counted_length_overlooked` — a collection that loses its alignment and counts as
  unchanged.
-/

namespace Declutter

/-! ### Changes -/

namespace Tree

/-- The object of an access, apart from the parentheses and type assertions around it. -/
inductive ObjectOf (t : Tree) (access : NodeId) : NodeId → Prop
  | object {i : NodeId} (h : t.child? access "object" = some i) : ObjectOf t access i
  | inside {i p : NodeId} (hp : t.wrapped? p = some i) (houter : ObjectOf t access p) :
      ObjectOf t access i

/-- The method that an access names: its property, or the text in its brackets. -/
def methodName? (t : Tree) (access : NodeId) : Option String :=
  if t.kind access == .member then (t.child? access "property").map t.text
  else (t.child? access "index").bind fun place =>
    if t.type place == "string" then some (String.ofList ((t.text place).toList.drop 1).dropLast)
    else none

/-- The accesses through which an object is changed: something is assigned to them, directly or as
part of a pattern, they are counted or deleted, or they name a method that changes its object and
is called. -/
inductive Altered (t : Tree) : NodeId → Prop
  | assigned {i : NodeId} (h : t.Target false i) : Altered t i
  | counted {i p : NodeId} (hp : t.parent? i = some p) (hkind : t.kind p = .update)
      (hrole : t.hasField i "argument" = true) : Altered t i
  | deleted {i p : NodeId} (hp : t.parent? i = some p) (h : t.isDeletion p = true) : Altered t i
  | called {i p : NodeId} {method : String} (hp : t.parent? i = some p) (hkind : t.kind p = .call)
      (hrole : t.hasField i "function" = true) (hname : t.methodName? i = some method)
      (hmethod : method ∈ mutatingMethods) : Altered t i
  | inside {i p : NodeId} (hp : t.wrapped? p = some i) (houter : Altered t p) : Altered t i

end Tree

/-- A statement `c[i] = v` in the iteration that counts `i`. -/
structure BindingTable.Marks (b : BindingTable) (t : Tree) (contexts : List ZipContext)
    (subscript : NodeId) (context : ZipContext) : Prop where
  iteration : context ∈ contexts ∧ context.body ∈ t.ancestors subscript
  /-- The subscript is the whole left side of a plain assignment, which is a statement. -/
  statement : ∃ assignment statement, t.parent? subscript = some assignment ∧
    t.parent? assignment = some statement ∧ t.kind assignment = .assignment ∧
    (t.operator assignment).all (· == "=") = true ∧ t.hasField subscript "left" = true ∧
    t.kind statement = .expressionStatement
  index : ∃ place, t.child? subscript "index" = some place ∧ t.kind place = .identifier ∧
    b.of? place = some context.index

namespace Collection

/-- The usage that fills a collection, in the statement that was found to do so. -/
structure Populates (t : Tree) (c : Collection) (usage : NodeId) : Prop where
  below : c.populate.any (t.ancestors usage).contains = true
  adds : BindingTable.adds t c.shape usage = true

/-- The changes of a collection that are passed over. -/
inductive Overlooked (t : Tree) (c : Collection) (usage access : NodeId) : Prop
  /-- The usage lies below the statement that fills the collection and does not itself fill it. -/
  | filling (hbelow : c.populate.any (t.ancestors usage).contains = true)
      (hadds : BindingTable.adds t c.shape usage = false)
  /-- The usage stands in parentheses or in a type assertion. -/
  | sheltered {p : NodeId} (hp : t.wrapped? p = some usage)
  /-- The access stands in parentheses or in a type assertion, in a pattern, or in the head of a
  loop. -/
  | indirect {p : NodeId} (hp : t.parent? access = some p)
      (h : t.wrapped? p = some access ∨ t.isPart access p = true ∨ t.kind p = .forInStatement)
  /-- A property is counted or deleted. -/
  | property {p : NodeId} (hkind : t.kind access = .member) (hp : t.parent? access = some p)
      (h : t.kind p = .update ∨ t.isDeletion p = true)
  /-- The method is named in brackets. -/
  | bracketed {p : NodeId} (hkind : t.kind access = .subscript) (hp : t.parent? access = some p)
      (hcall : t.kind p = .call)

end Collection

/-! ### One usage -/

section

variable {b : BindingTable} {t : Tree} {contexts : List ZipContext} {access p : NodeId}

theorem Tree.kind_of_deletion (h : t.isDeletion p = true) : t.kind p = .unary := by
  unfold Tree.isDeletion at h
  rw [Bool.and_eq_true, beq_iff_eq] at h
  exact h.1

theorem Tree.kind_of_wrapped? (h : t.wrapped? p = some access) :
    t.kind p = .parenthesized ∨ t.kind p = .typeExpression := by
  by_contra hkind
  simp_all [Tree.wrapped?]

/-- What leads on to an access from further out neither assigns nor calls, counts or deletes. -/
theorem Tree.kind_of_indirect
    (h : t.wrapped? p = some access ∨ t.isPart access p = true ∨ t.kind p = .forInStatement) :
    (t.kind p).isAssignment = false ∧ t.kind p ≠ .call ∧ t.kind p ≠ .update ∧
      t.kind p ≠ .unary := by
  rcases h with hwrapped | hpart | hkind
  · rcases Tree.kind_of_wrapped? hwrapped with hkind | hkind <;> simp [hkind, Kind.isAssignment]
  · revert hpart
    unfold Tree.isPart
    cases t.kind p <;> simp [Kind.isAssignment]
  · simp [hkind, Kind.isAssignment]

/-- A marker is a statement of its iteration. -/
theorem BindingTable.marks_of_markerContext {context : ZipContext}
    (h : Collection.markerContext? b t contexts access = some context) :
    b.Marks t contexts access context := by
  unfold Collection.markerContext? at h
  obtain ⟨assignment, hassignment, h⟩ := Option.bind_eq_some_iff.mp h
  obtain ⟨statement, hstatement, h⟩ := Option.bind_eq_some_iff.mp h
  obtain ⟨place, hplace, h⟩ := Option.bind_eq_some_iff.mp h
  obtain ⟨index, hindex, h⟩ := Option.bind_eq_some_iff.mp h
  split at h
  · rename_i hshape
    simp only [Bool.and_eq_true, beq_iff_eq] at hshape
    obtain ⟨⟨⟨⟨hkind, hleft⟩, hoperator⟩, hwhole⟩, hname⟩ := hshape
    have hfound := List.find?_some h
    simp only [Bool.and_eq_true, beq_iff_eq, List.contains_iff_mem] at hfound
    refine ⟨⟨List.mem_of_find?_eq_some h, hfound.2⟩, ?_, place, hplace, hname, ?_⟩
    · exact ⟨assignment, statement, hassignment, hstatement, hkind, hoperator, hleft, hwhole⟩
    · rw [hindex, hfound.1]
  · cases h

/-- Only what is assigned to is a marker. -/
theorem Collection.markerContext_eq_none (hp : t.parent? access = some p)
    (hkind : t.kind p ≠ .assignment) : markerContext? b t contexts access = none := by
  cases h : markerContext? b t contexts access with
  | none => rfl
  | some context =>
    obtain ⟨assignment, -, hassignment, -, hassigned, -⟩ :=
      (BindingTable.marks_of_markerContext h).statement
    rw [hp] at hassignment
    rw [Option.some.inj hassignment] at hkind
    exact absurd hassigned hkind

/-- The construct around an access tells that the object is changed, if it is no member that is
counted or deleted. -/
theorem Collection.mutates_iff (hp : t.parent? access = some p) :
    (mutatesByMember t access = true ↔
      (t.kind p = .call ∧ t.hasField access "function" = true ∧
        ((t.child? access "property").map t.text).getD "" ∈ mutatingMethods) ∨
      ((t.kind p).isAssignment = true ∧ t.hasField access "left" = true)) ∧
    (mutatesBySubscript t access = true ↔
      (((t.kind p).isAssignment = true ∨ t.kind p = .update) ∧
        (t.hasField access "left" = true ∨ t.hasField access "argument" = true)) ∨
      t.isDeletion p = true) := by
  unfold mutatesByMember mutatesBySubscript Tree.hasEitherField
  rw [hp]
  simp only [Bool.or_eq_true, Bool.and_eq_true, beq_iff_eq, List.contains_iff_mem, and_assoc,
    and_self]

variable {c : Collection} {usage : NodeId}

/-- How a usage is judged that is the object of an access. -/
theorem Collection.touch_eq (hpopulate : c.populate.any (t.ancestors usage).contains = false)
    (husage : t.parent? usage = some access) (hrole : t.hasField usage "object" = true)
    (hp : t.parent? access = some p) :
    touch b t contexts c usage =
      if t.kind access = .member then
        if mutatesByMember t access = true then .mutation else .harmless
      else if t.kind access = .subscript then
        match (if c.derivation == .map || c.derivation == .copy then
            markerContext? b t contexts access else none) with
        | some context => .marker access context
        | none => if mutatesBySubscript t access = true then .mutation else .harmless
      else .harmless := by
  unfold touch
  rw [hpopulate, husage]
  simp only [Bool.false_eq_true, if_false, hrole, Bool.not_true, beq_iff_eq, hp,
    Option.isNone_some]
  -- Either choice is made by the value of the test alone.
  cases c.derivation == .map || c.derivation == .copy with
  | true => rfl
  | false => rfl

/-- **The construct around an access** through which an object is changed: it leads on to the
access from further out, or it changes the object itself. -/
theorem Tree.Altered.around (hn : t.InPreorder) (h : t.Altered access) :
    ∃ p, t.parent? access = some p ∧
      ((t.wrapped? p = some access ∨ t.isPart access p = true ∨ t.kind p = .forInStatement) ∨
        ((t.kind p).isAssignment = true ∧ t.hasField access "left" = true) ∨
        (t.kind p = .update ∧ t.hasField access "argument" = true) ∨ t.isDeletion p = true ∨
        (t.kind p = .call ∧ t.hasField access "function" = true ∧
          ∃ method ∈ mutatingMethods, t.methodName? access = some method)) := by
  have hwrapped : ∀ p, t.wrapped? p = some access → t.parent? access = some p := by
    intro p hp
    exact hn.parent_of_mem p access (Tree.mem_children_of_wrapped? p access hp)
  cases h with
  | assigned htarget =>
    cases htarget with
    | assignment hp hkind hleft => exact ⟨_, hp, .inr (.inl ⟨hkind, hleft⟩)⟩
    | head hp hkind => exact ⟨_, hp, .inl (.inr (.inr hkind))⟩
    | inside hp => exact ⟨_, hwrapped _ hp, .inl (.inl hp)⟩
    | part hp hpart => exact ⟨_, hp, .inl (.inr (.inl hpart))⟩
  | counted hp hkind hrole => exact ⟨_, hp, .inr (.inr (.inl ⟨hkind, hrole⟩))⟩
  | deleted hp hdeletion => exact ⟨_, hp, .inr (.inr (.inr (.inl hdeletion)))⟩
  | called hp hkind hrole hname hmethod =>
    exact ⟨_, hp, .inr (.inr (.inr (.inr ⟨hkind, hrole, _, hmethod, hname⟩)))⟩
  | inside hp => exact ⟨_, hwrapped _ hp, .inl (.inl hp)⟩

/-- **A change that is not overlooked** is found from the access, unless the statement that fills
the collection is around it. -/
theorem Collection.mutates_of_altered (hn : t.InPreorder)
    (haccess : (t.kind access).isAccess = true) (halters : t.Altered access) :
    (t.kind access = .member ∧ mutatesByMember t access = true) ∨
      (t.kind access = .subscript ∧ mutatesBySubscript t access = true) ∨
      c.Overlooked t usage access := by
  obtain ⟨p, hp, hindirect | haround⟩ := halters.around hn
  · exact .inr (.inr (.indirect hp hindirect))
  obtain ⟨hmember, hsubscript⟩ := mutates_iff hp
  have hkinds : t.kind access = .member ∨ t.kind access = .subscript := by
    revert haccess
    cases t.kind access <;> simp [Kind.isAccess]
  rcases hkinds with hkind | hkind
  · rcases haround with hassigned | ⟨hcounted, -⟩ | hdeleted |
      ⟨hcall, hrole, method, hmethod, hname⟩
    · exact .inl ⟨hkind, hmember.mpr (.inr hassigned)⟩
    · exact .inr (.inr (.property hkind hp (.inl hcounted)))
    · exact .inr (.inr (.property hkind hp (.inr hdeleted)))
    · rw [Tree.methodName?, if_pos (by simp [hkind])] at hname
      exact .inl ⟨hkind, hmember.mpr (.inl ⟨hcall, hrole, by rw [hname]; exact hmethod⟩)⟩
  · refine .inr ?_
    rcases haround with ⟨hassigned, hleft⟩ | ⟨hcounted, hrole⟩ | hdeleted | ⟨hcall, -⟩
    · exact .inl ⟨hkind, hsubscript.mpr (.inl ⟨.inl hassigned, .inl hleft⟩)⟩
    · exact .inl ⟨hkind, hsubscript.mpr (.inl ⟨.inr hcounted, .inr hrole⟩)⟩
    · exact .inl ⟨hkind, hsubscript.mpr (.inr hdeleted)⟩
    · exact .inr (.bracketed hkind hp hcall)

/-- **How a change is judged**: as a mutation or as a marker, unless it fills the collection or is
overlooked. -/
theorem Collection.touch_of_altered (hn : t.InPreorder) (hobject : t.ObjectOf access usage)
    (haccess : (t.kind access).isAccess = true) (halters : t.Altered access) :
    touch b t contexts c usage = .mutation ∨
      (∃ context, touch b t contexts c usage = .marker access context) ∨
      c.Populates t usage ∨ c.Overlooked t usage access := by
  cases hobject with
  | inside hp => exact .inr (.inr (.inr (.sheltered hp)))
  | object hchild =>
    by_cases hbelow : c.populate.any (t.ancestors usage).contains = true
    · cases hadds : BindingTable.adds t c.shape usage with
      | true => exact .inr (.inr (.inl ⟨hbelow, hadds⟩))
      | false => exact .inr (.inr (.inr (.filling hbelow hadds)))
    obtain ⟨hmem, hrole⟩ := Tree.mem_of_child? hchild
    obtain ⟨p, hp, -⟩ := halters.around hn
    rw [touch_eq (by simpa using hbelow) (hn.parent_of_mem access usage hmem) hrole hp]
    have hfound : (t.kind access = .member ∧ mutatesByMember t access = true) ∨
        (t.kind access = .subscript ∧ mutatesBySubscript t access = true) ∨
          c.Overlooked t usage access := mutates_of_altered hn haccess halters
    rcases hfound with ⟨hkind, hmutates⟩ | ⟨hkind, hmutates⟩ | hoverlooked
    · rw [if_pos hkind, if_pos hmutates]
      exact .inl rfl
    · rw [if_neg (by simp [hkind]), if_pos hkind]
      split
      · exact .inr (.inl ⟨_, rfl⟩)
      · rw [if_pos hmutates]
        exact .inl rfl
    · exact .inr (.inr (.inr hoverlooked))

/-- **What is overlooked counts as harmless.** -/
theorem Collection.touch_of_overlooked (hn : t.InPreorder) (hobject : t.ObjectOf access usage)
    (h : c.Overlooked t usage access) : touch b t contexts c usage = .harmless := by
  -- The parent of a usage in parentheses is no access.
  have hinside : ∀ p, t.wrapped? p = some usage → touch b t contexts c usage = .harmless := by
    intro p hp
    have hparent := hn.parent_of_mem p usage (Tree.mem_children_of_wrapped? p usage hp)
    unfold touch
    rw [hparent]
    rcases Tree.kind_of_wrapped? hp with hkind | hkind
    · simp [hkind]
    · simp [hkind]
  by_cases hbelow : c.populate.any (t.ancestors usage).contains = true
  · unfold touch
    rw [if_pos hbelow]
  cases hobject with
  | inside hp => exact hinside _ hp
  | object hchild =>
    obtain ⟨hmem, hrole⟩ := Tree.mem_of_child? hchild
    have husage := hn.parent_of_mem access usage hmem
    have hjudged : ∀ p, t.parent? access = some p → t.kind p ≠ .assignment →
        (t.kind access = .member → mutatesByMember t access = false) →
        (t.kind access = .subscript → mutatesBySubscript t access = false) →
        touch b t contexts c usage = .harmless := by
      intro p hp hkind hmember hsubscript
      rw [touch_eq (by simpa using hbelow) husage hrole hp, markerContext_eq_none hp hkind]
      by_cases hmem : t.kind access = .member
      · rw [if_pos hmem, hmember hmem]
        rfl
      · rw [if_neg hmem]
        by_cases hsub : t.kind access = .subscript
        · rw [if_pos hsub, hsubscript hsub]
          simp
        · rw [if_neg hsub]
    cases h with
    | filling hb => exact absurd hb hbelow
    | sheltered hp => exact hinside _ hp
    | @indirect p hp houter =>
      have hkind : (t.kind p).isAssignment = false ∧ t.kind p ≠ .call ∧ t.kind p ≠ .update ∧
          t.kind p ≠ .unary := Tree.kind_of_indirect houter
      refine hjudged p hp ?_ ?_ ?_
      · intro hassignment
        simp [hassignment, Kind.isAssignment] at hkind
      · intro _
        rw [← Bool.not_eq_true, (mutates_iff hp).1]
        simp [hkind]
      · intro _
        rw [← Bool.not_eq_true, (mutates_iff hp).2]
        simp [hkind, Tree.isDeletion]
    | @property p hmember hp houter =>
      have hkind : t.kind p = .update ∨ t.kind p = .unary := houter.imp_right Tree.kind_of_deletion
      refine hjudged p hp ?_ ?_ ?_
      · rcases hkind with hkind | hkind <;> simp [hkind]
      · intro _
        rw [← Bool.not_eq_true, (mutates_iff hp).1]
        rcases hkind with hkind | hkind <;> simp [hkind, Kind.isAssignment]
      · intro hsubscript
        rw [hmember] at hsubscript
        cases hsubscript
    | @bracketed p hsubscript hp hcall =>
      refine hjudged p hp (by simp [hcall]) ?_ ?_
      · intro hmember
        rw [hsubscript] at hmember
        cases hmember
      · intro _
        rw [← Bool.not_eq_true, (mutates_iff hp).2]
        simp [hcall, Kind.isAssignment, Tree.isDeletion]

end

/-! ### All usages -/

section

variable {b : BindingTable} {t : Tree} {contexts : List ZipContext} {c : Collection}
  {usages : List Usage}

/-- **A usage of a collection that counts as unchanged** is harmless or a marker: the inspection
comes to every usage unless one of them is a mutation. -/
theorem Collection.touch_of_not_mutated
    (hmutated : (inspect b t contexts c usages).mutated = false)
    (hdefect : (inspect b t contexts c usages).defect = none) :
    ∀ u ∈ usages, touch b t contexts c u.node = .harmless ∨
      ∃ subscript context, touch b t contexts c u.node = .marker subscript context ∧
        (subscript, context) ∈ (inspect b t contexts c usages).markers := by
  induction usages with
  | nil =>
    intro u hu
    cases hu
  | cons v rest ih =>
    rw [inspect] at hmutated hdefect ⊢
    cases htouch : touch b t contexts c v.node with
    | mutation =>
      rw [htouch] at hmutated
      cases hmutated
    | defect d =>
      rw [htouch] at hdefect
      cases hdefect
    | harmless =>
      rw [htouch] at hmutated hdefect
      intro u hu
      rcases List.mem_cons.mp hu with rfl | hu
      · exact .inl htouch
      · exact ih hmutated hdefect u hu
    | marker subscript context =>
      rw [htouch] at hmutated hdefect
      intro u hu
      rcases List.mem_cons.mp hu with rfl | hu
      · exact .inr ⟨subscript, context, htouch, .head _⟩
      · refine (ih hmutated hdefect u hu).imp_right ?_
        rintro ⟨subscript', context', hmarker, hmem⟩
        exact ⟨subscript', context', hmarker, .tail _ hmem⟩

/-- A usage that is a marker is the object of a subscript, which marks an element of its
iteration. -/
theorem Collection.of_touch_eq_marker {usage subscript : NodeId} {context : ZipContext}
    (h : touch b t contexts c usage = .marker subscript context) :
    (t.parent? usage = some subscript ∧ t.hasField usage "object" = true ∧
      t.kind subscript = .subscript) ∧ b.Marks t contexts subscript context := by
  unfold touch at h
  split at h
  · cases h
  split at h
  · cases h
  rename_i access haccess
  split at h
  · cases h
  rename_i hobject
  split at h
  · split at h <;> cases h
  split at h
  · rename_i hkind
    split at h
    · split at h
      · cases h
      · split at h
        · rename_i hcontext
          cases h
          exact ⟨⟨haccess, by simpa using hobject, by simpa using hkind⟩,
            BindingTable.marks_of_markerContext hcontext⟩
        · split at h <;> cases h
    · split at h <;> cases h
  · cases h

/-- What the inspection records as markers are usages that are markers. -/
theorem Collection.exists_touch_of_mem {subscript : NodeId} {context : ZipContext}
    (h : (subscript, context) ∈ (inspect b t contexts c usages).markers) :
    ∃ u ∈ usages, touch b t contexts c u.node = .marker subscript context := by
  induction usages with
  | nil => cases h
  | cons u rest ih =>
    rw [inspect] at h
    cases htouch : touch b t contexts c u.node with
    | mutation =>
      rw [htouch] at h
      cases h
    | defect d =>
      rw [htouch] at h
      cases h
    | harmless =>
      rw [htouch] at h
      obtain ⟨v, hv, hmarker⟩ := ih h
      exact ⟨v, .tail _ hv, hmarker⟩
    | marker subscript' context' =>
      rw [htouch] at h
      rcases List.mem_cons.mp h with heq | h
      · cases heq
        exact ⟨u, .head _, htouch⟩
      · obtain ⟨v, hv, hmarker⟩ := ih h
        exact ⟨v, .tail _ hv, hmarker⟩

end

/-! ### The arena -/

/-- A collection with a statement that fills it was found to be filled. -/
theorem BindingTable.isSome_filling_of_populate {b : BindingTable} {t : Tree} {i : BindingId}
    {candidate : Candidate} (h : b.candidate? t i = some candidate)
    (hpopulate : candidate.populate.isSome) :
    (b.filling? t i candidate.shape).isSome := by
  obtain ⟨-, -, ⟨-, -, hnone⟩ | ⟨f, hf, -⟩⟩ := candidate_cases h
  · rw [hnone] at hpopulate
    cases hpopulate
  · rw [hf]
    rfl

/-- A loop fills a collection with a single usage. -/
theorem BindingTable.eq_of_adds {b : BindingTable} {t : Tree} {i : BindingId} {shape : Shape}
    (h : (b.filling? t i shape).isSome) {u v : Usage} (hu : u ∈ (b.binding i).usages)
    (hv : v ∈ (b.binding i).usages) (hadds : adds t shape u.node = true)
    (hadds' : adds t shape v.node = true) : u = v := by
  have hmem : u ∈ (b.binding i).usages.filter fun u => adds t shape u.node :=
    List.mem_filter.mpr ⟨hu, hadds⟩
  have hmem' : v ∈ (b.binding i).usages.filter fun u => adds t shape u.node :=
    List.mem_filter.mpr ⟨hv, hadds'⟩
  unfold filling? at h
  dsimp only at h
  split at h
  · cases h
  split at h
  · rename_i w hone
    rw [hone] at hmem hmem'
    rw [List.mem_singleton.mp hmem, List.mem_singleton.mp hmem']
  · cases h

namespace Arena

variable {b : BindingTable} {t : Tree} {m : CollectionId}

/-- **A collection is filled by one usage.** -/
theorem eq_of_populates (hm : m ∈ (ofTree b t).ids) {u v : Usage}
    (hu : u ∈ (b.binding ((ofTree b t).collection m).binding).usages)
    (hv : v ∈ (b.binding ((ofTree b t).collection m).binding).usages)
    (hpu : ((ofTree b t).collection m).Populates t u.node)
    (hpv : ((ofTree b t).collection m).Populates t v.node) : u = v := by
  obtain ⟨candidate, hcandidate, hentry⟩ := exists_inspected hm
  have hkept : ((ofTree b t).collection m).binding = candidate.binding ∧
      ((ofTree b t).collection m).shape = candidate.shape ∧
      (((ofTree b t).collection m).populate = candidate.populate ∨
        ((ofTree b t).collection m).populate = none) := by
    obtain ⟨hbinding, hshape, -, -, -, hpopulate⟩ := Collection.inspected_eq b t
      (b.zipContexts t) (Collection.ofCandidate (b.candidates t) candidate m)
    rw [hentry, hbinding, hshape, hpopulate]
    unfold Collection.ofCandidate
    split
    · exact ⟨rfl, rfl, .inl rfl⟩
    · exact ⟨rfl, rfl, .inr rfl⟩
  obtain ⟨hbinding, hshape, hpopulate⟩ := hkept
  have hsome : candidate.populate.isSome := by
    have hbelow := hpu.below
    rcases hpopulate with hpopulate | hpopulate
    · rw [hpopulate] at hbelow
      cases hp : candidate.populate with
      | none =>
        rw [hp] at hbelow
        cases hbelow
      | some p => rfl
    · rw [hpopulate] at hbelow
      cases hbelow
  have hfound : b.candidate? t candidate.binding = some candidate := by
    rcases b.candidate?_or_eq_of_mem hcandidate with hfound | hsource
    · exact hfound
    · rw [hsource] at hsome
      cases hsome
  rw [hbinding] at hu hv
  have hadds := hpu.adds
  have hadds' := hpv.adds
  rw [hshape] at hadds hadds'
  exact BindingTable.eq_of_adds (BindingTable.isSome_filling_of_populate hfound hsome) hu hv hadds
    hadds'

/-- **A marker on record** belongs to a usage: the object of a subscript, which marks an element. -/
theorem exists_usage_of_marker {subscript : NodeId} {context : ZipContext}
    (h : (subscript, context) ∈ ((ofTree b t).collection m).markers) :
    (∃ u ∈ (b.binding ((ofTree b t).collection m).binding).usages,
        t.parent? u.node = some subscript ∧ t.hasField u.node "object" = true ∧
          t.kind subscript = .subscript) ∧
      b.Marks t (ofTree b t).contexts subscript context := by
  by_cases hm : m ∈ (ofTree b t).ids
  · obtain ⟨candidate, -, hentry⟩ := exists_inspected hm
    generalize hd : Collection.ofCandidate (b.candidates t) candidate m = d at hentry
    have hnone : d.markers = [] := by
      rw [← hd]
      unfold Collection.ofCandidate
      split <;> rfl
    rw [hentry] at h ⊢
    unfold Collection.inspected at h ⊢
    dsimp only at h ⊢
    split at h
    · rw [hnone] at h
      cases h
    · rename_i hwrites
      rw [if_neg hwrites]
      obtain ⟨u, hu, hmarker⟩ := Collection.exists_touch_of_mem h
      obtain ⟨hobject, hmarks⟩ := Collection.of_touch_eq_marker hmarker
      exact ⟨⟨u, hu, hobject⟩, hmarks⟩
  · rw [collection_of_notMem hm] at h
    cases h

/-- **What may change a collection that counts as unchanged.**  Nothing is assigned to its
variable, and a usage through which it is changed is the one that fills it, or a marker on record,
or one of those that are overlooked. -/
theorem altered_of_not_mutated (l : Language) (source : Bytes) (root : Concrete)
    {m : CollectionId} :
    let t := Tree.ofConcrete l source root
    let b := BindingTable.ofTree t
    let a := ofTree b t
    let c := a.collection m
    m ∈ a.ids → c.defect = none → c.mutated = false →
      (b.binding c.binding).writes = [] ∧
      (∀ u ∈ (b.binding c.binding).usages, ∀ access, t.ObjectOf access u.node →
        (t.kind access).isAccess = true → t.Altered access →
          c.Populates t u.node ∨ (∃ context, (access, context) ∈ c.markers) ∨
            c.Overlooked t u.node access) ∧
      (∀ u ∈ (b.binding c.binding).usages, ∀ v ∈ (b.binding c.binding).usages,
        c.Populates t u.node → c.Populates t v.node → u = v) ∧
      ∀ subscript context, (subscript, context) ∈ c.markers →
        b.Marks t a.contexts subscript context := by
  intro t b a c hm hdefect hmutated
  have hn : t.InPreorder := Tree.inPreorder_ofConcrete l source root
  obtain ⟨candidate, -, hentry⟩ := exists_inspected hm
  generalize Collection.ofCandidate (b.candidates t) candidate m = d at hentry
  have hc : c = d.inspected b t (b.zipContexts t) := hentry
  unfold Collection.inspected at hc
  dsimp only at hc
  split at hc
  · rw [hc] at hmutated
    cases hmutated
  rename_i hwrites
  generalize hfound : Collection.inspect b t (b.zipContexts t) d (b.binding d.binding).usages =
    found at hc
  -- The inspection looks at nothing that it adds to the entry.
  have htouch : ∀ u, Collection.touch b t (b.zipContexts t) c u =
      Collection.touch b t (b.zipContexts t) d u := by
    intro u
    rw [hc]
    rfl
  have hbinding : c.binding = d.binding := by rw [hc]
  have hmarkers : c.markers = found.markers := by rw [hc]
  have hchanges : found.mutated = false ∧ found.defect = none := by
    rw [hc] at hmutated hdefect
    exact ⟨hmutated, hdefect⟩
  rw [hbinding, hmarkers]
  refine ⟨by simpa using hwrites, ?_, ?_, ?_⟩
  · intro u hu access hobject haccess halters
    have hjudged : Collection.touch b t (b.zipContexts t) c u.node = .mutation ∨
        (∃ context, Collection.touch b t (b.zipContexts t) c u.node = .marker access context) ∨
          c.Populates t u.node ∨ c.Overlooked t u.node access :=
      Collection.touch_of_altered hn hobject haccess halters
    rw [htouch] at hjudged
    rw [← hfound] at hchanges ⊢
    have hseen := Collection.touch_of_not_mutated hchanges.1 hchanges.2 u hu
    rcases hjudged with hmutation | ⟨context, hmarker⟩ | hpopulates | hoverlooked
    · rw [hmutation] at hseen
      rcases hseen with h | ⟨_, _, h, -⟩ <;> cases h
    · rw [hmarker] at hseen
      rcases hseen with h | ⟨subscript, context', h, hmem⟩
      · cases h
      · obtain ⟨rfl, rfl⟩ := Collection.Touch.marker.inj h
        exact .inr (.inl ⟨context, hmem⟩)
    · exact .inl hpopulates
    · exact .inr (.inr hoverlooked)
  · intro u hu v hv hpu hpv
    rw [← hbinding] at hu hv
    exact eq_of_populates hm hu hv hpu hpv
  · intro subscript context hmem
    rw [← hmarkers] at hmem
    exact (exists_usage_of_marker hmem).2

end Arena

/-! ### Two programs -/

namespace Sample

/-- The declaration `const a = src.map(x => x);` behind `const src = get();`. -/
def mappedDeclaration : Concrete :=
  construct "lexical_declaration" 19 45 [
    token "const" 19 (some "kind"),
    construct "variable_declarator" 25 44 [
      nameTree 25 (some "name"), token "=" 27,
      construct "call_expression" 29 44 [
        construct "member_expression" 29 36 [
          construct "identifier" 29 32 [] (some "object"), token "." 32,
          construct "property_identifier" 33 36 [] (some "property")] (some "function"),
        construct "arguments" 36 44 [
          token "(" 36,
          construct "arrow_function" 37 43 [
            nameTree 37 (some "parameter"), token "=>" 39, nameTree 42 (some "body")],
          token ")" 43] (some "arguments")] (some "value")],
    token ";" 44]

/-- An iteration marks the elements of a view. -/
def marking : Bytes := Utf8.encode ("const src = get();\nconst a = src.map(x => x);\n" ++
  "src.forEach((s, i) => \x7b a[i] = s; \x7d);\n")

/-- The tree of `marking`. -/
def markingTree : Concrete :=
  construct "program" 0 84 [
    sourceDeclaration, mappedDeclaration,
    statementTree (construct "call_expression" 46 82 [
      construct "member_expression" 46 57 [
        construct "identifier" 46 49 [] (some "object"), token "." 49,
        construct "property_identifier" 50 57 [] (some "property")] (some "function"),
      construct "arguments" 57 82 [
        token "(" 57,
        construct "arrow_function" 58 81 [
          construct "formal_parameters" 58 64
            [token "(" 58, nameTree 59, token "," 60, nameTree 62, token ")" 63]
            (some "parameters"),
          token "=>" 65,
          construct "statement_block" 68 81 [
            token "\x7b" 68,
            statementTree (construct "assignment_expression" 70 78 [
              construct "subscript_expression" 70 74 [
                nameTree 70 (some "object"), token "[" 71, nameTree 72 (some "index"),
                token "]" 73] (some "left"),
              token "=" 75, nameTree 77 (some "right")]),
            token "\x7d" 80] (some "body")],
        token ")" 81] (some "arguments")])]

/-- The length of a view is counted up. -/
def growing : Bytes :=
  Utf8.encode "const src = get();\nconst a = src.map(x => x);\na.length++;\n"

/-- The tree of `growing`. -/
def growingTree : Concrete :=
  construct "program" 0 58 [
    sourceDeclaration, mappedDeclaration,
    statementTree (construct "update_expression" 46 56 [
      construct "member_expression" 46 54 [
        nameTree 46 (some "object"), token "." 47,
        construct "property_identifier" 48 54 [] (some "property")] (some "argument"),
      token "++" 54 (some "operator")])]

end Sample

/-- The marker is the one change of the view. -/
theorem Arena.sample_marked :
    let t := Tree.ofConcrete .javascript Sample.marking Sample.markingTree
    let b := BindingTable.ofTree t
    let a := ofTree b t
    (1 ∈ a.ids ∧ (a.collection 1).defect = none ∧ (a.collection 1).mutated = false) ∧
      ⟨32, false, false⟩ ∈ (b.binding 1).usages ∧ t.Altered 31 ∧
      ∃ context, (31, context) ∈ (a.collection 1).markers ∧
        b.Marks t a.contexts 31 context := by
  intro t b a
  have hfacts : (1 ∈ a.ids ∧ (a.collection 1).defect = none ∧ (a.collection 1).mutated = false) ∧
      ((a.collection 1).binding = 1 ∧ (a.collection 1).populate = none ∧
        ⟨32, false, false⟩ ∈ (b.binding 1).usages) ∧
      (t.child? 31 "object" = some 32 ∧ (t.kind 31).isAccess = true ∧ t.parent? 31 = some 30 ∧
        t.kind 30 = .assignment ∧ t.hasField 31 "left" = true) ∧
      Collection.touch b t a.contexts (a.collection 1) 32 ≠ .harmless := by
    decide +kernel
  obtain ⟨⟨hm, hdefect, hmutated⟩, ⟨hbinding, hpopulate, husage⟩, ⟨hobject, haccess, hparent, hkind,
    hleft⟩, htouch⟩ := hfacts
  have halters : t.Altered 31 := .assigned (.assignment hparent (by rw [hkind]; rfl) hleft)
  obtain ⟨-, hspared, -, hmarks⟩ := altered_of_not_mutated .javascript Sample.marking
    Sample.markingTree hm hdefect hmutated
  refine ⟨⟨hm, hdefect, hmutated⟩, husage, halters, ?_⟩
  rcases hspared ⟨32, false, false⟩ (by rw [hbinding]; exact husage) 31 (.object hobject) haccess
    halters with hpopulates | ⟨context, hmem⟩ | hoverlooked
  · have hbelow := hpopulates.below
    rw [hpopulate] at hbelow
    cases hbelow
  · exact ⟨context, hmem, hmarks 31 context hmem⟩
  · exact absurd (Collection.touch_of_overlooked (Tree.inPreorder_ofConcrete _ _ _)
      (.object hobject) hoverlooked) htouch

/-- **The exception.**  The length of a view is counted up, which takes it out of step with its
source: the view counts as unchanged and as aligned all the same. -/
theorem Arena.counted_length_overlooked :
    let t := Tree.ofConcrete .javascript Sample.growing Sample.growingTree
    let b := BindingTable.ofTree t
    let a := ofTree b t
    1 ∈ a.ids ∧ (a.collection 1).binding = 1 ∧ (b.binding 1).usages = [⟨21, false, false⟩] ∧
      t.ObjectOf 20 21 ∧ t.kind 20 = .member ∧ t.Altered 20 ∧
      (a.collection 1).mutated = false ∧ (a.collection 1).populate = none ∧
      (a.collection 1).markers = [] ∧ a.anchor? 1 = some 0 := by
  intro t b a
  have hfacts : (1 ∈ a.ids ∧ (a.collection 1).binding = 1 ∧
        (b.binding 1).usages = [⟨21, false, false⟩]) ∧
      (t.child? 20 "object" = some 21 ∧ t.kind 20 = .member ∧ t.parent? 20 = some 19 ∧
        t.kind 19 = .update ∧ t.hasField 20 "argument" = true) ∧
      (a.collection 1).mutated = false ∧ (a.collection 1).populate = none ∧
      (a.collection 1).markers = [] ∧ a.anchor? 1 = some 0 := by
    decide +kernel
  obtain ⟨⟨hm, hbinding, husages⟩, ⟨hobject, hmember, hparent, hkind, hrole⟩, hunchanged⟩ := hfacts
  exact ⟨hm, hbinding, husages, .object hobject, hmember, .counted hparent hkind hrole,
    hunchanged⟩

end Declutter
