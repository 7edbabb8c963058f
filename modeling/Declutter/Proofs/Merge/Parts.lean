import Declutter.Proofs.Merge.Outcome

/-!
# What a merge consists of

A merge is put together from drafts, each with its own checks.  Taken apart again, every edit of a
merge is of one of twelve sorts; the sort tells what the edit replaces and which parts of the source
its text is copied from, and with it come the checks that were passed on the way.

## Main definitions

* `Tree.IsVisitor` — whether a function visits the elements of a usage.
* `MergePlan.Part` — the edits of a merge, each with the nodes whose text it copies.
* `MergePlan.buildSources` — the nodes whose text the records are built of.
* `MergePlan.OfProgram` — whether a plan is one for a group of a program.

## Main results

* `MergePlan.adjacentDeclarations_eq_ok` — the declarations that are replaced.
* `MergePlan.viewDraft_eq_ok`, `MergePlan.coBuiltDraft_eq_ok` — how the merged collection comes to
  be declared.
* `MergePlan.contextDraft_cases`, `MergePlan.usageEdits_cases` — how usages are rewritten.
* `MergePlan.exists_filled_of_coBuiltDraft` — what was checked of the statements that fill.
* `MergePlan.checked_of_rewrite` — what the removed members were checked for.
* `MergePlan.edit_cases` — which draft an edit of a merge comes from.
* `MergePlan.exists_part_drawing`, `MergePlan.exists_part` — every edit of a merge is of one of
  these sorts.
-/

namespace Declutter

open Attempt

/-- Whether a function is an argument of a call of a method of a usage. -/
def Tree.IsVisitor (t : Tree) (usage callback : NodeId) : Prop :=
  ∃ access call arguments, t.parent? usage = some access ∧ t.kind access = .member ∧
    t.parent? access = some call ∧ t.kind call = .call ∧
    t.child? call "arguments" = some arguments ∧ callback ∈ t.children arguments

namespace MergePlan

/-- The name under which the derivation of merged views knows an element. -/
def viewParameter (p : MergePlan) : String :=
  p.parameterName (p.removed.filter fun m => (p.collection m).derivation == .map)

/-- Whether a text is the derivation of merged views. -/
def IsViewValue (p : MergePlan) (value : String) : Prop :=
  ∃ entries, p.viewEntries p.viewParameter = .ok entries ∧
    p.viewDerivation p.viewParameter entries = .ok value

/-- The nodes whose text the derivation of merged views is made of: the bodies of the callbacks and
their parameters. -/
def viewSources (p : MergePlan) : List NodeId :=
  p.removed.flatMap fun m =>
    ((p.collection m).callback.bind fun callback => p.tree.child? callback "body").toList ++
      (p.callbackParameter? m).toList

/-- The values that the statements which fill the members push. -/
def pushSources (p : MergePlan) : List NodeId :=
  p.removed.filterMap fun m => (p.pushOf m >>= p.pushedValue).toOption.map (·.2)

/-- The nodes whose text the records of a merge are built of. -/
def buildSources (p : MergePlan) : List NodeId :=
  match p.group.pattern with
  | .coBuilt => p.pushSources
  | .derivedViews => p.viewSources

/-- Whether an edit may draw on a node: records are built of it, or the edit takes its place. -/
def Draws (p : MergePlan) (e : Edit) (n : NodeId) : Prop :=
  n ∈ p.buildSources ∨ e.span = p.tree.span n

/-- What declares the merged collection in the place of a statement. -/
def declarationText (p : MergePlan) (value : String) (d : NodeId) : String :=
  s!"const {p.recordName} = {value}" ++ p.terminatorOf d

/-- What pushes a record in the place of a statement. -/
def pushText (p : MergePlan) (entries : List String) (s : NodeId) : String :=
  s!"{p.recordName}.push({recordText entries})" ++ p.terminatorOf s

/-- The fields of a record that is pushed. -/
def pushedEntries (p : MergePlan) (values : List (CollectionId × NodeId)) : List String :=
  values.map fun (m, value) => entryText (p.fieldOf (p.bindingId m)) (p.tree.text value)

/-- The edits of a merge, each with the nodes whose text it copies. -/
inductive Part (p : MergePlan) : Edit → List NodeId → Prop
  /-- Merged views are declared in the place of one of them. -/
  | views {m : CollectionId} {d : NodeId} {value : String} (hm : m ∈ p.removed)
      (hd : (p.binding m).declaration = some d) (hpattern : p.group.pattern = .derivedViews)
      (hvalue : p.IsViewValue value) :
      Part p ⟨p.tree.span d, p.declarationText value d⟩ p.viewSources
  /-- A sequence to be filled is declared in the place of one of the members. -/
  | empty {m : CollectionId} {d : NodeId} (hm : m ∈ p.removed)
      (hd : (p.binding m).declaration = some d) (hpattern : p.group.pattern = .coBuilt) :
      Part p ⟨p.tree.span d, p.declarationText "[]" d⟩ []
  /-- The declaration of a member is removed. -/
  | undeclare {m : CollectionId} {d : NodeId} (hm : m ∈ p.removed)
      (hd : (p.binding m).declaration = some d) : Part p (p.tree.removal p.marker d) []
  /-- A record is pushed in the place of the first value. -/
  | push {m : CollectionId} {s : NodeId} {values : List (CollectionId × NodeId)}
      (hm : m ∈ p.removed) (hs : (p.collection m).populate = some s)
      (hkind : p.tree.kind s = .expressionStatement)
      (hunread : p.checkUnread (values.map (·.2)) = .ok ()) :
      Part p ⟨p.tree.span s, p.pushText (p.pushedEntries values) s⟩ (values.map (·.2))
  /-- The statement that pushed another value is removed. -/
  | unpush {m : CollectionId} {s : NodeId} (hm : m ∈ p.removed)
      (hs : (p.collection m).populate = some s)
      (hkind : p.tree.kind s = .expressionStatement) : Part p (p.tree.removal p.marker s) []
  /-- A method is called on the merged collection. -/
  | receiver {context : ZipContext} {method : String} {receiver callback : NodeId}
      (hcontext : context ∈ p.arena.contexts) (hconcerns : p.concerns context = true)
      (hindexing : context.indexing = .callback method receiver callback) :
      Part p ⟨p.tree.span receiver, p.recordName⟩ []
  /-- The callback of an iteration that knows the index takes a record apart. -/
  | element {context : ZipContext} {method : String} {receiver callback first : NodeId}
      {locals : List String} (hcontext : context ∈ p.arena.contexts)
      (hconcerns : p.concerns context = true)
      (hindexing : context.indexing = .callback method receiver callback)
      (hfirst : (p.tree.functionParameters callback).head? = some first) :
      Part p ⟨p.tree.span first, recordText
        (entryText (p.fieldOf context.collection) (p.tree.text first) :: locals)⟩ [first]
  /-- The head of a loop reads the length of the merged collection. -/
  | length {context : ZipContext} {length object : NodeId} (hcontext : context ∈ p.arena.contexts)
      (hconcerns : p.concerns context = true) (hindexing : context.indexing = .loop length)
      (hobject : p.tree.child? length "object" = some object) :
      Part p ⟨p.tree.span object, p.recordName⟩ []
  /-- An access at the index of an iteration reads a field of a record. -/
  | access {context : ZipContext} {n : NodeId} {target : BindingId}
      {locals : List (BindingId × String)} (hcontext : context ∈ p.arena.contexts)
      (hconcerns : p.concerns context = true) (haccess : (n, target) ∈ p.memberAccesses context)
      (hlocals : ∀ l ∈ locals, l.2 = p.fieldOf l.1) :
      Part p ⟨p.tree.span n, p.accessText context locals target⟩ []
  /-- A usage names the merged collection. -/
  | usage {m : CollectionId} {u : Usage} (hm : m ∈ p.removed) (hu : u ∈ (p.binding m).usages) :
      Part p ⟨p.tree.span u.node, p.recordName⟩ []
  /-- A callback that visits the elements of a member takes the record apart. -/
  | parameter {m : CollectionId} {callback first : NodeId} {wrap : Bool} (hm : m ∈ p.removed)
      (hfirst : (p.tree.functionParameters callback).head? = some first) :
      Part p ⟨p.tree.span first, parenthesize wrap (recordText
        [entryText (p.fieldOf (p.bindingId m)) (p.tree.text first)])⟩ [first]
  /-- A loop over the elements of a member takes the record apart. -/
  | target {m : CollectionId} {loop target : NodeId} (hm : m ∈ p.removed)
      (hloop : p.tree.kind loop = .forInStatement)
      (htarget : p.tree.child? loop "left" = some target) :
      Part p ⟨p.tree.span target, recordText
        [entryText (p.fieldOf (p.bindingId m)) (p.tree.text target)]⟩ [target]

variable {p : MergePlan} {e : Edit} {m : CollectionId} {context : ZipContext}

/-- An edit of a merge replaces a construct or removes a statement. -/
theorem Part.exists_node {copied : List NodeId} (h : p.Part e copied) :
    ∃ n, e.span = p.tree.span n ∨ e = p.tree.removal p.marker n := by
  cases h with
  | undeclare | unpush => exact ⟨_, .inr rfl⟩
  | _ => exact ⟨_, .inl rfl⟩

/-! ### Declarations -/

/-- **The declarations that are replaced** are those of the members; there are some, and all have
one parent. -/
theorem adjacentDeclarations_eq_ok {members : List CollectionId} {declarations : List NodeId}
    (h : p.adjacentDeclarations members = .ok declarations) :
    declarations ≠ [] ∧ (∀ m ∈ members, ∃ d ∈ declarations, (p.binding m).declaration = some d) ∧
      (∀ d ∈ declarations, ∃ m ∈ members, (p.binding m).declaration = some d) ∧
      ∀ d ∈ declarations, ∀ e ∈ declarations, p.tree.parent? d = p.tree.parent? e := by
  unfold adjacentDeclarations at h
  obtain ⟨declared, hdeclared, h⟩ := bind_eq_ok.mp h
  dsimp only at h
  split at h
  · cases h
  · rename_i first rest hsorted
    obtain ⟨_, hparents, h⟩ := bind_eq_ok.mp h
    have hparent : ∀ d ∈ first :: rest, p.tree.parent? d = p.tree.parent? first := by
      intro d hd
      rcases List.mem_cons.mp hd with rfl | hd
      · rfl
      · exact beq_iff_eq.mp (List.all_eq_true.mp (require_eq_ok.mp hparents) d hd)
    split at h
    · exact absurd h withhold_ne_ok
    · obtain ⟨_, -, h⟩ := bind_eq_ok.mp h
      rw [← pure_eq_ok.mp h]
      refine ⟨?_, fun m hm => ?_, fun d hd => ?_, fun d hd e he => ?_⟩
      · rw [hsorted]
        exact List.cons_ne_nil _ _
      · obtain ⟨d, hd, hok⟩ := exists_of_mapM hdeclared hm
        exact ⟨d, (mem_sortBy _).mpr hd, fetch_eq_ok.mp hok⟩
      · obtain ⟨m, hm, hok⟩ := (mem_of_mapM hdeclared).mp ((mem_sortBy _).mp hd)
        exact ⟨m, hm, fetch_eq_ok.mp hok⟩
      · rw [hsorted] at hd he
        exact (hparent d hd).trans (hparent e he).symm

theorem mem_adjacentDeclarations {members : List CollectionId} {declarations : List NodeId}
    (h : p.adjacentDeclarations members = .ok declarations) {d : NodeId} :
    d ∈ declarations ↔ ∃ m ∈ members, (p.binding m).declaration = some d := by
  obtain ⟨-, hall, honly, -⟩ := adjacentDeclarations_eq_ok h
  constructor
  · exact honly d
  · rintro ⟨m, hm, hd⟩
    obtain ⟨e, he, hde⟩ := hall m hm
    obtain rfl := Option.some.inj (hd.symm.trans hde)
    exact he

/-- Where the records are built, no removed member is used. -/
theorem not_isWithin_of_checkUnread {regions : List NodeId}
    (h : p.checkUnread regions = .ok ()) (hm : m ∈ p.removed) :
    ∀ u ∈ (p.binding m).usages, ∀ region ∈ regions, p.tree.isWithin u.node region = false := by
  intro u hu region hregion
  have hcheck := require_eq_ok.mp (checkAll_eq_ok.mp h m hm)
  rw [Bool.not_eq_true', List.any_eq_false] at hcheck
  have hnone := hcheck u hu
  rw [Bool.not_eq_true, List.any_eq_false] at hnone
  simpa using hnone region hregion

theorem mem_declarationEdits {value : String} {declarations : List NodeId}
    (h : e ∈ p.declarationEdits value declarations) : ∃ d ∈ declarations,
      e = ⟨p.tree.span d, p.declarationText value d⟩ ∨ e = p.tree.removal p.marker d := by
  cases declarations with
  | nil => cases h
  | cons first rest =>
    rcases List.mem_cons.mp h with rfl | h
    · exact ⟨first, .head _, .inl rfl⟩
    · obtain ⟨d, hd, rfl⟩ := List.mem_map.mp h
      exact ⟨d, .tail _ hd, .inr rfl⟩

/-- Every declaration has its edit. -/
theorem exists_declarationEdit (value : String) {declarations : List NodeId} {d : NodeId}
    (hd : d ∈ declarations) : ∃ e ∈ p.declarationEdits value declarations,
      e = ⟨p.tree.span d, p.declarationText value d⟩ ∨ e = p.tree.removal p.marker d := by
  cases declarations with
  | nil => cases hd
  | cons first rest =>
    rcases List.mem_cons.mp hd with rfl | hd
    · exact ⟨_, .head _, .inl rfl⟩
    · exact ⟨_, .tail _ (List.mem_map_of_mem hd), .inr rfl⟩

theorem mem_pushEdits {entries : List String} {pushes : List NodeId}
    (h : e ∈ p.pushEdits entries pushes) : ∃ s ∈ pushes,
      e = ⟨p.tree.span s, p.pushText entries s⟩ ∨ e = p.tree.removal p.marker s := by
  cases pushes with
  | nil => cases h
  | cons first rest =>
    rcases List.mem_cons.mp h with rfl | h
    · exact ⟨first, .head _, .inl rfl⟩
    · obtain ⟨s, hs, rfl⟩ := List.mem_map.mp h
      exact ⟨s, .tail _ hs, .inr rfl⟩

/-- Every statement that pushed a value has its edit. -/
theorem exists_pushEdit (entries : List String) {pushes : List NodeId} {s : NodeId}
    (hs : s ∈ pushes) : ∃ e ∈ p.pushEdits entries pushes,
      e = ⟨p.tree.span s, p.pushText entries s⟩ ∨ e = p.tree.removal p.marker s := by
  cases pushes with
  | nil => cases hs
  | cons first rest =>
    rcases List.mem_cons.mp hs with rfl | hs
    · exact ⟨_, .head _, .inl rfl⟩
    · exact ⟨_, .tail _ (List.mem_map_of_mem hs), .inr rfl⟩

/-- **How merged views come to be declared**: every member is a plain view, and none is used where
the members are declared. -/
theorem viewDraft_eq_ok {draft : Draft} (h : p.viewDraft = .ok draft) :
    ∃ declarations value, (∀ m ∈ p.removed, p.checkView m = .ok ()) ∧
      p.adjacentDeclarations p.removed = .ok declarations ∧
      p.checkUnread declarations = .ok () ∧ p.IsViewValue value ∧
      draft = ⟨p.declarationEdits value declarations, p.subtrees declarations⟩ := by
  unfold viewDraft at h
  obtain ⟨_, hviews, h⟩ := bind_eq_ok.mp h
  obtain ⟨declarations, hdeclarations, h⟩ := bind_eq_ok.mp h
  obtain ⟨_, hunread, h⟩ := bind_eq_ok.mp h
  dsimp only at h
  obtain ⟨_, -, h⟩ := bind_eq_ok.mp h
  -- The effects of the callbacks are checked only if there are several.
  have hrest : ∃ value, p.IsViewValue value ∧
      draft = ⟨p.declarationEdits value declarations, p.subtrees declarations⟩ := by
    split at h
    · obtain ⟨_, -, h⟩ := bind_eq_ok.mp h
      obtain ⟨entries, hentries, h⟩ := bind_eq_ok.mp h
      obtain ⟨value, hvalue, h⟩ := bind_eq_ok.mp h
      exact ⟨value, ⟨entries, hentries, hvalue⟩, (pure_eq_ok.mp h).symm⟩
    · obtain ⟨entries, hentries, h⟩ := bind_eq_ok.mp h
      obtain ⟨value, hvalue, h⟩ := bind_eq_ok.mp h
      exact ⟨value, ⟨entries, hentries, hvalue⟩, (pure_eq_ok.mp h).symm⟩
  obtain ⟨value, hvalue, hdraft⟩ := hrest
  exact ⟨declarations, value, checkAll_eq_ok.mp hviews, hdeclarations, hunread, hvalue, hdraft⟩

theorem pushOf_eq_ok {v : CollectionId × NodeId} :
    p.pushOf m = .ok v ↔ v.1 = m ∧ (p.collection m).populate = some v.2 := by
  unfold pushOf
  rw [map_eq_ok]
  constructor
  · rintro ⟨s, hs, rfl⟩
    exact ⟨rfl, fetch_eq_ok.mp hs⟩
  · rintro ⟨rfl, hs⟩
    exact ⟨v.2, fetch_eq_ok.mpr hs, rfl⟩

/-- A value that is pushed belongs to a statement that fills a member. -/
theorem mem_pushSources {n : NodeId} : n ∈ p.pushSources ↔
    ∃ m ∈ p.removed, ∃ s, (p.collection m).populate = some s ∧
      p.pushedValue (m, s) = .ok (m, n) := by
  have hmember : ∀ v : CollectionId × NodeId, ∀ w, p.pushedValue v = .ok w → w.1 = v.1 := by
    rintro ⟨m, s⟩ w hw
    unfold pushedValue at hw
    obtain ⟨call, -, hw⟩ := bind_eq_ok.mp hw
    obtain ⟨arguments, -, hw⟩ := bind_eq_ok.mp hw
    obtain ⟨value, -, hw⟩ := bind_eq_ok.mp hw
    rw [← pure_eq_ok.mp hw]
  unfold pushSources
  simp only [List.mem_filterMap, Option.map_eq_some_iff, toOption_eq_some]
  constructor
  · rintro ⟨m, hm, v, hv, rfl⟩
    obtain ⟨⟨k, s⟩, hpush, hvalue⟩ := bind_eq_ok.mp hv
    obtain ⟨rfl, hs⟩ := pushOf_eq_ok.mp hpush
    obtain rfl : v.1 = k := hmember _ _ hvalue
    exact ⟨v.1, hm, s, hs, hvalue⟩
  · rintro ⟨m, hm, s, hs, hv⟩
    exact ⟨m, hm, (m, n), bind_eq_ok.mpr ⟨(m, s), pushOf_eq_ok.mpr ⟨rfl, hs⟩, hv⟩, rfl⟩

/-- A list that is sorted by a number. -/
theorem pairwise_sortBy_key {α : Type} (key : α → Nat) (l : List α) :
    (sortBy (fun v w => decide (key v ≤ key w)) l).Pairwise fun v w => key v ≤ key w := by
  have htrans : ∀ u v w, decide (key u ≤ key v) = true → decide (key v ≤ key w) = true →
      decide (key u ≤ key w) = true := by
    simp only [decide_eq_true_eq]
    exact fun u v w => Nat.le_trans
  have htotal : ∀ v w, (decide (key v ≤ key w) || decide (key w ≤ key v)) = true := by
    simp [Nat.le_total]
  exact (pairwise_sortBy htrans htotal l).imp of_decide_eq_true

/-- The statements that fill the members, in the order of the source, and the values that they push:
the statements are adjacent, or all values but the first can move. -/
theorem exists_filled_of_coBuiltDraft {draft : Draft} (h : p.coBuiltDraft = .ok draft) :
    ∃ (declarations : List NodeId) (filled values : List (CollectionId × NodeId)),
      (∀ m ∈ p.removed, p.checkPushed m = .ok ()) ∧
      p.adjacentDeclarations p.removed = .ok declarations ∧
      (∀ v, v ∈ filled ↔ v.1 ∈ p.removed ∧ (p.collection v.1).populate = some v.2) ∧
      (filled.Pairwise fun v w => (p.tree.span v.2).start ≤ (p.tree.span w.2).start) ∧
      filled.mapM p.pushedValue = .ok values ∧ p.checkUnread (values.map (·.2)) = .ok () ∧
      (p.areAdjacent (filled.map (·.2)) = .ok true ∨
        ∃ offset, ∀ v ∈ values.tail, p.checkMovable offset v = .ok ()) ∧
      draft = ⟨p.declarationEdits "[]" declarations ++
          p.pushEdits (p.pushedEntries values) (filled.map (·.2)),
        p.subtrees (declarations ++ filled.map (·.2))⟩ := by
  unfold coBuiltDraft at h
  obtain ⟨_, hpushed, h⟩ := bind_eq_ok.mp h
  obtain ⟨declarations, hdeclarations, h⟩ := bind_eq_ok.mp h
  dsimp only at h
  obtain ⟨found, hfound, h⟩ := bind_eq_ok.mp h
  have hordered := pairwise_sortBy_key (fun v => (p.tree.span v.2).start) found
  generalize hsorted : sortBy _ found = filled at h hordered
  obtain ⟨adjacent, hadjacent, h⟩ := bind_eq_ok.mp h
  obtain ⟨values, hvalues, h⟩ := bind_eq_ok.mp h
  obtain ⟨_, hunread, h⟩ := bind_eq_ok.mp h
  have hfilled : ∀ v, v ∈ filled ↔ v.1 ∈ p.removed ∧ (p.collection v.1).populate = some v.2 := by
    intro v
    rw [← hsorted, mem_sortBy, mem_of_mapM hfound]
    constructor
    · rintro ⟨m, hm, hpush⟩
      obtain ⟨rfl, hs⟩ := pushOf_eq_ok.mp hpush
      exact ⟨hm, hs⟩
    · rintro ⟨hm, hs⟩
      exact ⟨v.1, hm, pushOf_eq_ok.mpr ⟨rfl, hs⟩⟩
  refine ⟨declarations, filled, values, checkAll_eq_ok.mp hpushed, hdeclarations, hfilled,
    hordered, hvalues, hunread, ?_⟩
  -- The values have to be movable only if the statements stand apart.
  split at h
  · obtain ⟨_, hmovable, h⟩ := bind_eq_ok.mp h
    exact ⟨.inr ⟨_, checkAll_eq_ok.mp hmovable⟩, (pure_eq_ok.mp h).symm⟩
  · rename_i hstand
    have htrue : adjacent = true := by simpa using hstand
    exact ⟨.inl (htrue ▸ hadjacent), (pure_eq_ok.mp h).symm⟩

/-- **How a sequence to be filled comes to be declared**: every member is filled by a statement, and
none is used in a value that is pushed. -/
theorem coBuiltDraft_eq_ok {draft : Draft} (h : p.coBuiltDraft = .ok draft) :
    ∃ (declarations pushes : List NodeId) (values : List (CollectionId × NodeId)),
      (∀ m ∈ p.removed, p.checkPushed m = .ok ()) ∧
      p.adjacentDeclarations p.removed = .ok declarations ∧
      (∀ s, s ∈ pushes ↔ ∃ m ∈ p.removed, (p.collection m).populate = some s) ∧
      p.checkUnread (values.map (·.2)) = .ok () ∧ (∀ n, n ∈ values.map (·.2) ↔ n ∈ p.pushSources) ∧
      draft = ⟨p.declarationEdits "[]" declarations ++ p.pushEdits (p.pushedEntries values) pushes,
        p.subtrees (declarations ++ pushes)⟩ := by
  obtain ⟨declarations, filled, values, hpushed, hdeclarations, hfilled, -, hvalues, hunread, -,
    hdraft⟩ := exists_filled_of_coBuiltDraft h
  refine ⟨declarations, filled.map (·.2), values, hpushed, hdeclarations, ?_, hunread, ?_, hdraft⟩
  · intro s
    simp only [List.mem_map, hfilled]
    constructor
    · rintro ⟨v, ⟨hm, hs⟩, rfl⟩
      exact ⟨v.1, hm, hs⟩
    · rintro ⟨m, hm, hs⟩
      exact ⟨(m, s), ⟨hm, hs⟩, rfl⟩
  · intro n
    constructor
    · intro hn
      obtain ⟨v, hv, rfl⟩ := List.mem_map.mp hn
      obtain ⟨⟨m, s⟩, hfound, hv⟩ := (mem_of_mapM hvalues).mp hv
      obtain ⟨hm, hs⟩ := (hfilled _).mp hfound
      refine List.mem_filterMap.mpr ⟨m, hm, ?_⟩
      rw [toOption_eq_some.mpr (bind_eq_ok.mpr ⟨(m, s), pushOf_eq_ok.mpr ⟨rfl, hs⟩, hv⟩)]
      rfl
    · intro hn
      obtain ⟨m, hm, s, hs, hv⟩ := mem_pushSources.mp hn
      exact List.mem_map.mpr
        ⟨(m, n), (mem_of_mapM hvalues).mpr ⟨(m, s), (hfilled _).mpr ⟨hm, hs⟩, hv⟩, rfl⟩

/-- A member that is filled by a statement. -/
theorem kind_of_checkPushed (h : p.checkPushed m = .ok ()) {s : NodeId}
    (hs : (p.collection m).populate = some s) : p.tree.kind s = .expressionStatement := by
  unfold checkPushed at h
  obtain ⟨_, hpush, -⟩ := bind_eq_ok.mp h
  have hpush := require_eq_ok.mp hpush
  rw [hs, Bool.and_eq_true] at hpush
  simpa using hpush.2

/-! ### Usages -/

/-- What a callback takes out of the record besides the element: the fields of other members that
it accesses at the index, none of which it marks. -/
theorem of_mem_localFields {accesses : List (NodeId × BindingId)} {own parameter : String}
    {l : BindingId × String} (h : l ∈ p.localFields context accesses own parameter) :
    l.2 = p.fieldOf l.1 ∧ l.1 ≠ context.collection ∧ (∃ n, (n, l.1) ∈ accesses) ∧
      ∀ n, (n, l.1) ∈ accesses → n ∉ p.markerNodes := by
  obtain ⟨target, htarget, hl⟩ := List.mem_filterMap.mp h
  dsimp only at hl
  split at hl
  · cases hl
  rename_i hkeep
  obtain rfl := Option.some.inj hl
  simp only [Bool.or_eq_true, not_or, beq_iff_eq, List.contains_iff_mem] at hkeep
  obtain ⟨⟨n, target'⟩, haccess, heq⟩ := List.mem_map.mp (List.mem_eraseDups.mp htarget)
  obtain rfl : target' = target := heq
  refine ⟨rfl, hkeep.1.1.1.1, ⟨n, haccess⟩, fun k hk hmarker => hkeep.1.1.1.2 ?_⟩
  exact List.mem_map.mpr ⟨(k, target'), List.mem_filter.mpr ⟨hk, by simpa using hmarker⟩, rfl⟩

/-- The edits of the head of an iteration that knows the index. -/
theorem headDraft_cases {accesses : List (NodeId × BindingId)}
    {head : Draft × List (BindingId × String)} (h : p.headDraft context accesses = .ok head) :
    (∃ length object, context.indexing = .loop length ∧
        p.tree.child? length "object" = some object ∧
        head = (⟨[⟨p.tree.span object, p.recordName⟩], [object]⟩, [])) ∨
      ∃ method receiver callback first locals,
        context.indexing = .callback method receiver callback ∧
        (p.tree.functionParameters callback).head? = some first ∧
        locals =
          p.localFields context accesses (p.fieldOf context.collection) (p.tree.text first) ∧
        head = (⟨[⟨p.tree.span receiver, p.recordName⟩, ⟨p.tree.span first, recordText
          (entryText (p.fieldOf context.collection) (p.tree.text first) :: locals.map (·.2))⟩],
          receiver :: p.tree.subtree first⟩, locals) := by
  unfold headDraft at h
  split at h
  · rename_i method receiver callback hindexing
    unfold callbackDraft at h
    dsimp only at h
    obtain ⟨_, -, h⟩ := bind_eq_ok.mp h
    obtain ⟨_, -, h⟩ := bind_eq_ok.mp h
    obtain ⟨first, hfirst, h⟩ := bind_eq_ok.mp h
    exact .inr ⟨method, receiver, callback, first, _, hindexing, fetch_eq_ok.mp hfirst, rfl,
      (pure_eq_ok.mp h).symm⟩
  · rename_i length hindexing
    obtain ⟨object, hobject, h⟩ := bind_eq_ok.mp h
    exact .inl ⟨length, object, hindexing, fetch_eq_ok.mp hobject, (pure_eq_ok.mp h).symm⟩

/-- Each access that may be rewritten has its edit, and only marked elements are assigned to. -/
theorem accessEdits_eq_ok {locals : List (BindingId × String)}
    {accesses : List (NodeId × BindingId)} {edits : List Edit}
    (h : accesses.mapM (p.accessEdit context locals) = .ok edits) :
    (∀ access ∈ accesses, p.tree.isTarget access.1 = true → access.1 ∈ p.markerNodes) ∧
      edits = accesses.map fun access =>
        ⟨p.tree.span access.1, p.accessText context locals access.2⟩ := by
  induction mapM_eq_ok.mp h with
  | nil => exact ⟨fun _ h => (List.not_mem_nil h).elim, rfl⟩
  | @cons access e rest es haccess hrest ih =>
    obtain ⟨hmarked, hes⟩ := ih (mapM_eq_ok.mpr hrest)
    unfold accessEdit at haccess
    obtain ⟨_, hwritten, haccess⟩ := bind_eq_ok.mp haccess
    refine ⟨fun n hn htarget => ?_, by rw [List.map_cons, hes, ← pure_eq_ok.mp haccess]⟩
    rcases List.mem_cons.mp hn with rfl | hn
    · simpa [htarget] using require_eq_ok.mp hwritten
    · exact hmarked n hn htarget

/-- **How an iteration that knows the index is rewritten**: not at all, or its head and all accesses
at the index are. -/
theorem contextDraft_cases {draft : Draft} (h : p.contextDraft context = .ok draft) :
    (p.concerns context = false ∧ draft = {}) ∨
      (p.concerns context = true ∧ ∃ head,
        p.headDraft context (p.memberAccesses context) = .ok head ∧
        (∀ access ∈ p.memberAccesses context,
          p.tree.isTarget access.1 = true → access.1 ∈ p.markerNodes) ∧
        draft = head.1.append
          ⟨(p.memberAccesses context).map fun access =>
              ⟨p.tree.span access.1, p.accessText context head.2 access.2⟩,
            p.subtrees ((p.memberAccesses context).map (·.1))⟩) := by
  unfold contextDraft at h
  split at h
  · rename_i hconcerns
    dsimp only at h
    obtain ⟨_, -, h⟩ := bind_eq_ok.mp h
    obtain ⟨head, hhead, h⟩ := bind_eq_ok.mp h
    obtain ⟨edits, hedits, h⟩ := bind_eq_ok.mp h
    obtain ⟨hmarked, rfl⟩ := accessEdits_eq_ok hedits
    exact .inr ⟨hconcerns, head, hhead, hmarked, (pure_eq_ok.mp h).symm⟩
  · rename_i hconcerns
    exact .inl ⟨by simpa using hconcerns, (Except.ok.inj h).symm⟩

/-- The edits of a method call on a member: its name and the parameter of the callback. -/
theorem methodEdits_eq_ok {usage call : NodeId} {method : String} {edits : List Edit}
    (h : p.methodEdits m usage call method = .ok edits) :
    ∃ arguments callback first wrap, p.tree.child? call "arguments" = some arguments ∧
      callback ∈ p.tree.children arguments ∧
      (p.tree.functionParameters callback).head? = some first ∧
      edits = [⟨p.tree.span usage, p.recordName⟩, ⟨p.tree.span first, parenthesize wrap
        (recordText [entryText (p.fieldOf (p.bindingId m)) (p.tree.text first)])⟩] := by
  unfold methodEdits at h
  dsimp only at h
  split at h
  · exact absurd h withhold_ne_ok
  rename_i callback hcallback
  obtain ⟨_, -, h⟩ := bind_eq_ok.mp h
  split at h
  · exact absurd h withhold_ne_ok
  rename_i first rest hparameters
  obtain ⟨argument, hargument, hfunction⟩ := Option.bind_eq_some_iff.mp hcallback
  obtain ⟨arguments, harguments, hhead⟩ := Option.bind_eq_some_iff.mp hargument
  obtain ⟨rfl, -⟩ := BindingTable.eq_of_asFunction hfunction
  refine ⟨arguments, argument, first, _, harguments, List.mem_of_mem_head? hhead, ?_,
    (pure_eq_ok.mp h).symm⟩
  rw [hparameters]
  rfl

/-- **How a usage outside such iterations is rewritten**: it names the merged collection, and what
takes an element from it takes a record apart. -/
theorem usageEdits_cases {usage : NodeId} {edits : List Edit}
    (h : p.usageEdits m usage = .ok edits) :
    edits = [⟨p.tree.span usage, p.recordName⟩] ∨
      (∃ callback first wrap, p.tree.IsVisitor usage callback ∧
        (p.tree.functionParameters callback).head? = some first ∧
        edits = [⟨p.tree.span usage, p.recordName⟩, ⟨p.tree.span first, parenthesize wrap
          (recordText [entryText (p.fieldOf (p.bindingId m)) (p.tree.text first)])⟩]) ∨
      ∃ loop target, p.tree.parent? usage = some loop ∧ p.tree.kind loop = .forInStatement ∧
        p.tree.child? loop "left" = some target ∧
        edits = [⟨p.tree.span usage, p.recordName⟩, ⟨p.tree.span target,
          recordText [entryText (p.fieldOf (p.bindingId m)) (p.tree.text target)]⟩] := by
  unfold usageEdits at h
  dsimp only at h
  split at h
  · exact absurd h withhold_ne_ok
  rename_i parent hparent
  split at h
  · rename_i haccess
    simp only [Bool.and_eq_true, beq_iff_eq] at haccess
    unfold memberEdits at h
    dsimp only at h
    split at h
    · exact .inl (Except.ok.inj h).symm
    split at h
    · rename_i call hcall
      obtain ⟨houter, hvisits⟩ := Option.filter_eq_some_iff.mp hcall
      simp only [Bool.and_eq_true, beq_iff_eq] at hvisits
      obtain ⟨arguments, callback, first, wrap, harguments, hcallback, hfirst, heq⟩ :=
        methodEdits_eq_ok h
      exact .inr (.inl ⟨callback, first, wrap,
        ⟨parent, call, arguments, hparent, haccess.1.1, houter, hvisits.1.2, harguments, hcallback⟩,
        hfirst, heq⟩)
    · exact absurd h withhold_ne_ok
  split at h
  · rename_i hloop
    simp only [Bool.and_eq_true, beq_iff_eq] at hloop
    unfold loopEdits at h
    split at h
    · exact absurd h withhold_ne_ok
    · rename_i target htarget
      exact .inr (.inr ⟨parent, target, hparent, hloop.1.1, htarget, (Except.ok.inj h).symm⟩)
  split at h
  · exact absurd h withhold_ne_ok
  · exact absurd h withhold_ne_ok

/-- The draft of all usages: the iterations that know the index, and each usage that is still
open. -/
theorem usageDraft_eq_ok {covered : List NodeId} {draft : Draft}
    (h : p.usageDraft covered = .ok draft) :
    ∃ (drafts : List Draft) (edits : List (List Edit)),
      p.arena.contexts.mapM p.contextDraft = .ok drafts ∧
      (∀ m ∈ p.removed, ∀ usage ∈ p.openUsages (covered ++ (Draft.concat drafts).covered) m,
        ∃ es ∈ edits, p.usageEdits m usage = .ok es) ∧
      (∀ es ∈ edits, ∃ m ∈ p.removed, ∃ u ∈ (p.binding m).usages,
        p.usageEdits m u.node = .ok es) ∧
      draft.edits = (Draft.concat drafts).edits ++ edits.flatten := by
  unfold usageDraft at h
  obtain ⟨drafts, hdrafts, h⟩ := bind_eq_ok.mp h
  dsimp only at h
  obtain ⟨edits, hedits, h⟩ := bind_eq_ok.mp h
  refine ⟨drafts, edits, hdrafts, fun m hm usage husage => ?_, fun es hes => ?_, ?_⟩
  · -- Every open usage was tried, so it has its edits.
    have hmem : (m, usage) ∈ p.removed.flatMap fun m =>
        (p.openUsages (covered ++ (Draft.concat drafts).covered) m).map fun usage => (m, usage) :=
      List.mem_flatMap.mpr ⟨m, hm, List.mem_map_of_mem husage⟩
    obtain ⟨es, hes, hok⟩ := exists_of_mapM hedits hmem
    exact ⟨es, hes, hok⟩
  · obtain ⟨⟨m, usage⟩, hmem, hok⟩ := (mem_of_mapM hedits).mp hes
    obtain ⟨m', hm, hmap⟩ := List.mem_flatMap.mp hmem
    obtain ⟨usage', husage, heq⟩ := List.mem_map.mp hmap
    obtain ⟨rfl, rfl⟩ := Prod.mk.inj heq
    obtain ⟨u, hu, rfl⟩ := List.mem_map.mp (List.mem_filter.mp husage).1
    exact ⟨m', hm, u, hu, hok⟩
  · rw [← pure_eq_ok.mp h]
    rfl

/-! ### The whole rewrite -/

/-- The drafts that a merge is made of. -/
theorem rewrite_eq_ok {r : Rewrite} (h : p.rewrite = .ok r) :
    ∃ declared used, p.declarationDraft = .ok declared ∧ p.usageDraft declared.covered = .ok used ∧
      Rewrite.ofEdits (distinctBy sameEdit [] (declared.edits ++ used.edits)) = .ok r := by
  unfold rewrite at h
  obtain ⟨draft, hdraft, h⟩ := bind_eq_ok.mp h
  unfold MergePlan.draft at hdraft
  obtain ⟨declared, hdeclared, hdraft⟩ := bind_eq_ok.mp hdraft
  obtain ⟨used, hused, hdraft⟩ := bind_eq_ok.mp hdraft
  obtain rfl := pure_eq_ok.mp hdraft
  refine ⟨declared, used, hdeclared, hused, ?_⟩
  split at h
  · rename_i s hs
    rw [← pure_eq_ok.mp h]
    exact hs
  · exact absurd h withhold_ne_ok

/-- **What a merge was checked for**: the declarations of the removed members are adjacent, and each
of the members is filled by a statement or is a plain view. -/
theorem checked_of_rewrite {r : Rewrite} (h : p.rewrite = .ok r) :
    (∃ declarations, p.adjacentDeclarations p.removed = .ok declarations) ∧
      match p.group.pattern with
      | .coBuilt => ∀ m ∈ p.removed, p.checkPushed m = .ok ()
      | .derivedViews => ∀ m ∈ p.removed, p.checkView m = .ok () := by
  obtain ⟨declared, -, hdeclared, -⟩ := rewrite_eq_ok h
  unfold declarationDraft at hdeclared
  cases hpattern : p.group.pattern with
  | coBuilt =>
    rw [hpattern] at hdeclared
    obtain ⟨declarations, -, -, hpushed, hdeclarations, -⟩ := coBuiltDraft_eq_ok hdeclared
    exact ⟨⟨declarations, hdeclarations⟩, hpushed⟩
  | derivedViews =>
    rw [hpattern] at hdeclared
    obtain ⟨declarations, -, hviews, hdeclarations, -⟩ := viewDraft_eq_ok hdeclared
    exact ⟨⟨declarations, hdeclarations⟩, hviews⟩

/-- The edits of the declaration of the merged collection. -/
theorem exists_part_of_declared {declared : Draft} (h : p.declarationDraft = .ok declared)
    (he : e ∈ declared.edits) : ∃ copied, p.Part e copied ∧ ∀ n ∈ copied, p.Draws e n := by
  have hnothing : ∀ n ∈ ([] : List NodeId), p.Draws e n := fun n hn => nomatch hn
  unfold declarationDraft at h
  split at h
  · rename_i hpattern
    obtain ⟨declarations, pushes, values, hpushed, hdeclarations, hpushes, hunread, hsources,
      rfl⟩ := coBuiltDraft_eq_ok h
    rcases List.mem_append.mp he with he | he
    · obtain ⟨d, hd, he⟩ := mem_declarationEdits he
      obtain ⟨m, hm, hd⟩ := (mem_adjacentDeclarations hdeclarations).mp hd
      rcases he with rfl | rfl
      · exact ⟨_, .empty hm hd hpattern, hnothing⟩
      · exact ⟨_, .undeclare hm hd, hnothing⟩
    · obtain ⟨s, hs, he⟩ := mem_pushEdits he
      obtain ⟨m, hm, hs⟩ := (hpushes s).mp hs
      have hkind := kind_of_checkPushed (hpushed m hm) hs
      rcases he with rfl | rfl
      · refine ⟨_, .push hm hs hkind hunread, fun n hn => .inl ?_⟩
        rw [buildSources, hpattern]
        exact (hsources n).mp hn
      · exact ⟨_, .unpush hm hs hkind, hnothing⟩
  · rename_i hpattern
    obtain ⟨declarations, value, -, hdeclarations, -, hvalue, rfl⟩ := viewDraft_eq_ok h
    obtain ⟨d, hd, he⟩ := mem_declarationEdits he
    obtain ⟨m, hm, hd⟩ := (mem_adjacentDeclarations hdeclarations).mp hd
    rcases he with rfl | rfl
    · refine ⟨_, .views hm hd hpattern hvalue, fun n hn => .inl ?_⟩
      rw [buildSources, hpattern]
      exact hn
    · exact ⟨_, .undeclare hm hd, hnothing⟩

/-- What takes the place of a node may draw on it. -/
theorem draws_span {n : NodeId} {text : String} :
    ∀ k ∈ [n], p.Draws ⟨p.tree.span n, text⟩ k := by
  intro k hk
  rw [List.mem_singleton.mp hk]
  exact .inr rfl

/-- The edits of an iteration that knows the index. -/
theorem exists_part_of_context {draft : Draft} (hcontext : context ∈ p.arena.contexts)
    (h : p.contextDraft context = .ok draft) (he : e ∈ draft.edits) :
    ∃ copied, p.Part e copied ∧ ∀ n ∈ copied, p.Draws e n := by
  have hnothing : ∀ n ∈ ([] : List NodeId), p.Draws e n := fun n hn => nomatch hn
  obtain ⟨-, rfl⟩ | ⟨hconcerns, ⟨head, locals⟩, hhead, -, rfl⟩ := contextDraft_cases h
  · cases he
  -- The accesses are rewritten alike, whatever the head is.
  have haccesses : (∀ l ∈ locals, l.2 = p.fieldOf l.1) →
      e ∈ ((p.memberAccesses context).map fun access =>
        (⟨p.tree.span access.1, p.accessText context locals access.2⟩ : Edit)) →
      ∃ copied, p.Part e copied ∧ ∀ n ∈ copied, p.Draws e n := by
    intro hlocals he
    obtain ⟨⟨n, target⟩, haccess, rfl⟩ := List.mem_map.mp he
    exact ⟨_, .access hcontext hconcerns haccess hlocals, hnothing⟩
  obtain ⟨length, object, hindexing, hobject, heq⟩ |
    ⟨method, receiver, callback, first, locals', hindexing, hfirst, hlocals, heq⟩ :=
      headDraft_cases hhead
  · obtain ⟨rfl, rfl⟩ := Prod.mk.inj heq
    rcases List.mem_append.mp he with he | he
    · rw [List.mem_singleton.mp he]
      exact ⟨_, .length hcontext hconcerns hindexing hobject, fun n hn => nomatch hn⟩
    · exact haccesses (fun l hl => nomatch hl) he
  · obtain ⟨rfl, rfl⟩ := Prod.mk.inj heq
    rcases List.mem_append.mp he with he | he
    · rcases List.mem_cons.mp he with rfl | he
      · exact ⟨_, .receiver hcontext hconcerns hindexing, hnothing⟩
      · rw [List.mem_singleton.mp he]
        exact ⟨_, .element hcontext hconcerns hindexing hfirst, draws_span⟩
    · exact haccesses (fun l hl => (of_mem_localFields (hlocals ▸ hl)).1) he

/-- The edits of a usage outside such iterations. -/
theorem exists_part_of_usage (hm : m ∈ p.removed) {u : Usage} (hu : u ∈ (p.binding m).usages)
    {edits : List Edit} (h : p.usageEdits m u.node = .ok edits) (he : e ∈ edits) :
    ∃ copied, p.Part e copied ∧ ∀ n ∈ copied, p.Draws e n := by
  obtain rfl | ⟨callback, first, wrap, -, hfirst, rfl⟩ |
    ⟨loop, target, -, hloop, htarget, rfl⟩ := usageEdits_cases h
  · rw [List.mem_singleton.mp he]
    exact ⟨_, .usage hm hu, fun n hn => nomatch hn⟩
  · rcases List.mem_cons.mp he with rfl | he
    · exact ⟨_, .usage hm hu, fun n hn => nomatch hn⟩
    · rw [List.mem_singleton.mp he]
      exact ⟨_, .parameter hm hfirst, draws_span⟩
  · rcases List.mem_cons.mp he with rfl | he
    · exact ⟨_, .usage hm hu, fun n hn => nomatch hn⟩
    · rw [List.mem_singleton.mp he]
      exact ⟨_, .target hm hloop htarget, draws_span⟩

/-- **Where an edit of a merge comes from**: it declares and fills the merged collection, or it
belongs to an iteration that knows the index, or to another usage of a removed member. -/
theorem edit_cases {r : Rewrite} (h : p.rewrite = .ok r) (he : e ∈ r.edits) :
    (∃ declared, p.declarationDraft = .ok declared ∧ e ∈ declared.edits) ∨
      (∃ context ∈ p.arena.contexts, ∃ draft, p.contextDraft context = .ok draft ∧
        e ∈ draft.edits) ∨
      ∃ m ∈ p.removed, ∃ u ∈ (p.binding m).usages, ∃ edits,
        p.usageEdits m u.node = .ok edits ∧ e ∈ edits := by
  obtain ⟨declared, used, hdeclared, hused, hr⟩ := rewrite_eq_ok h
  obtain ⟨drafts, edits, hdrafts, -, husages, hedits⟩ := usageDraft_eq_ok hused
  rcases mem_of_mem_distinctBy ((Rewrite.mem_of_ofEdits hr e).mp he) with he | he
  · cases he
  rcases List.mem_append.mp he with he | he
  · exact .inl ⟨declared, hdeclared, he⟩
  rw [hedits] at he
  rcases List.mem_append.mp he with he | he
  · obtain ⟨draft, hdraft, he⟩ := Draft.mem_edits_concat.mp he
    obtain ⟨context, hcontext, hok⟩ := (mem_of_mapM hdrafts).mp hdraft
    exact .inr (.inl ⟨context, hcontext, draft, hok, he⟩)
  · obtain ⟨es, hes, he⟩ := List.mem_flatten.mp he
    obtain ⟨m, hm, u, hu, hok⟩ := husages es hes
    exact .inr (.inr ⟨m, hm, u, hu, es, hok, he⟩)

/-- **Every edit of a merge is of one of these sorts**, and draws on what its records are built of or
on what it takes the place of. -/
theorem exists_part_drawing {r : Rewrite} (h : p.rewrite = .ok r) (he : e ∈ r.edits) :
    ∃ copied, p.Part e copied ∧ ∀ n ∈ copied, p.Draws e n := by
  obtain ⟨declared, hdeclared, he⟩ | ⟨context, hcontext, draft, hok, he⟩ |
    ⟨m, hm, u, hu, edits, hok, he⟩ := edit_cases h he
  · exact exists_part_of_declared hdeclared he
  · exact exists_part_of_context hcontext hok he
  · exact exists_part_of_usage hm hu hok he

theorem exists_part {r : Rewrite} (h : p.rewrite = .ok r) (he : e ∈ r.edits) :
    ∃ copied, p.Part e copied := by
  obtain ⟨copied, hpart, -⟩ := exists_part_drawing h he
  exact ⟨copied, hpart⟩

/-! ### Plans for the groups of a program -/

/-- Whether a plan is one for a group of a program. -/
structure OfProgram (p : MergePlan) : Prop where
  numbered : p.tree.InPreorder
  table_eq : p.table = BindingTable.ofTree p.tree
  arena_eq : p.arena = Arena.ofTree p.table p.tree
  mem_groups : p.group ∈ p.arena.groups p.table p.tree

theorem OfProgram.of_mem (l : Language) (source : Bytes) (root : Concrete) (pure : List String)
    (marker : String) (names : List String) {g : Group}
    (h : let t := Tree.ofConcrete l source root
      let b := BindingTable.ofTree t
      g ∈ (Arena.ofTree b t).groups b t) :
    let t := Tree.ofConcrete l source root
    let b := BindingTable.ofTree t
    (ofGroup t b (Arena.ofTree b t) pure marker names g).OfProgram :=
  ⟨Tree.inPreorder_ofConcrete l source root, rfl, rfl, h⟩

end MergePlan

end Declutter
