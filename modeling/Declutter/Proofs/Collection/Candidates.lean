import Declutter.Collection.Group
import Declutter.Proofs.Rewrite.Placement
import Declutter.Proofs.Syntax.Spacing

/-!
# What is known of a collection

A collection enters the arena because of its initial value and of the loop that fills it.  What
was found then is what a merge relies on later: the declaration and the initial value are there, a
collection that is filled has the statement that fills it, and statements that fill collections in
one loop stand in one block.

## Main results

* `BindingTable.candidate_cases` — how a variable comes to hold a collection.
* `BindingTable.argument_of_construction` — where the callback of an initial value stands.
* `Arena.exists_origin` — a collection that was made of another one is a candidate.
* `Tree.GrammarShaped.block_unique` — what runs once per element of one loop stands in one block.
-/

namespace Declutter

/-! ### Candidates -/

namespace BindingTable

variable {b : BindingTable} {t : Tree} {i : BindingId}

theorem derivation_of_array {items : List NodeId} {d : Derivation} {s : BindingId}
    {f : Option NodeId} (h : b.arrayConstruction? t items = some (.derived d s f)) :
    d ≠ .append ∧ d ≠ .root := by
  unfold arrayConstruction? at h
  split at h
  · cases h
  · split at h
    · obtain ⟨source, -, hd⟩ := Option.map_eq_some_iff.mp h
      cases hd
      decide
    · cases h
  · cases h

theorem derivation_of_method {source : BindingId} {method : String} {arguments : List NodeId}
    {d : Derivation} {s : BindingId} {f : Option NodeId}
    (h : methodConstruction? t source method arguments = some (.derived d s f)) :
    d ≠ .append ∧ d ≠ .root := by
  unfold methodConstruction? at h
  split at h
  · split at h
    · cases h
    · cases h
      decide
  all_goals
    cases h
    try decide

theorem derivation_of_from {arguments : List NodeId} {d : Derivation} {s : BindingId}
    {f : Option NodeId} (h : b.fromConstruction? t arguments = some (.derived d s f)) :
    d ≠ .append ∧ d ≠ .root := by
  unfold fromConstruction? at h
  split at h
  · cases h
  · split at h
    · cases h
    · obtain ⟨source, -, hd⟩ := Option.bind_eq_some_iff.mp h
      split at hd
      all_goals
        cases hd
        try decide

/-- An initial value that is made of another collection was not filled by a loop. -/
theorem derivation_of_construction {value : NodeId} {d : Derivation} {s : BindingId}
    {f : Option NodeId} (h : b.construction? t value = some (.derived d s f)) :
    d ≠ .append ∧ d ≠ .root := by
  unfold construction? at h
  dsimp only at h
  split at h
  · exact derivation_of_array h
  · split at h <;> cases h
  · split at h <;> cases h
  · unfold callConstruction? at h
    obtain ⟨parts, -, h⟩ := Option.bind_eq_some_iff.mp h
    obtain ⟨receiver, -, h⟩ := Option.bind_eq_some_iff.mp h
    split at h
    · exact derivation_of_from h
    · obtain ⟨source, -, h⟩ := Option.bind_eq_some_iff.mp h
      exact derivation_of_method h

theorem eq_of_asFunction {n f : NodeId} (h : t.asFunction? n = some f) :
    n = f ∧ t.kind f = .function := by
  unfold Tree.asFunction? at h
  split at h
  · rename_i hkind
    obtain rfl : n = f := Option.some.inj h
    exact ⟨rfl, beq_iff_eq.mp hkind⟩
  · cases h

theorem mem_of_from {arguments : List NodeId} {d : Derivation} {s : BindingId} {f : NodeId}
    (h : b.fromConstruction? t arguments = some (.derived d s (some f))) :
    f ∈ arguments ∧ t.kind f = .function := by
  unfold fromConstruction? at h
  split at h
  · cases h
  split at h
  · cases h
  obtain ⟨source, -, h⟩ := Option.bind_eq_some_iff.mp h
  split at h
  · cases h
  · rename_i callback
    obtain ⟨-, -, hcallback⟩ := Construction.derived.inj (Option.some.inj h)
    obtain ⟨rfl, hkind⟩ := eq_of_asFunction hcallback
    exact ⟨.tail _ (.head _), hkind⟩
  · cases h

theorem mem_of_method {source : BindingId} {method : String} {arguments : List NodeId}
    {d : Derivation} {s : BindingId} {f : NodeId}
    (h : methodConstruction? t source method arguments = some (.derived d s (some f))) :
    f ∈ arguments ∧ t.kind f = .function := by
  unfold methodConstruction? at h
  split at h
  · rename_i argument
    split at h
    · cases h
    · obtain ⟨-, -, hcallback⟩ := Construction.derived.inj (Option.some.inj h)
      obtain ⟨rfl, hkind⟩ := eq_of_asFunction hcallback
      exact ⟨.head _, hkind⟩
  all_goals cases h

theorem arguments_of_call? {call : NodeId} {parts : Call} (h : t.call? call = some parts) :
    parts.arguments = t.arguments call := by
  unfold Tree.call? at h
  split at h
  · cases h
  · obtain ⟨callee, -, rfl⟩ := Option.map_eq_some_iff.mp h
    dsimp only
    split
    · split <;> rfl
    · rfl

/-- **The callback of an initial value** is an argument of a call, and a function. -/
theorem argument_of_construction {value : NodeId} {d : Derivation} {s : BindingId} {f : NodeId}
    (h : b.construction? t value = some (.derived d s (some f))) :
    f ∈ t.arguments (t.stripped value) ∧ t.kind f = .function := by
  have hcall : b.callConstruction? t (t.stripped value) = some (.derived d s (some f)) := by
    unfold construction? at h
    dsimp only at h
    split at h
    · -- An array in brackets has no callback.
      unfold arrayConstruction? at h
      split at h
      · cases h
      · split at h
        · obtain ⟨source, -, h⟩ := Option.map_eq_some_iff.mp h
          cases h
        · cases h
      · cases h
    · split at h <;> cases h
    · split at h <;> cases h
    · exact h
  unfold callConstruction? at hcall
  obtain ⟨parts, hparts, hcall⟩ := Option.bind_eq_some_iff.mp hcall
  obtain ⟨receiver, -, hcall⟩ := Option.bind_eq_some_iff.mp hcall
  rw [← arguments_of_call? hparts]
  split at hcall
  · exact mem_of_from hcall
  · obtain ⟨source, -, hcall⟩ := Option.bind_eq_some_iff.mp hcall
    exact mem_of_method hcall

/-- The callback of a candidate is the callback of the initial value of its variable. -/
theorem exists_construction {c : Candidate} {f : NodeId} (h : b.candidate? t i = some c)
    (hf : c.callback = some f) :
    ∃ value d s, (b.binding i).initializer = some value ∧
      b.construction? t value = some (.derived d s (some f)) := by
  unfold candidate? at h
  dsimp only at h
  split at h
  · obtain ⟨construction, hconstruction, hc⟩ := Option.map_eq_some_iff.mp h
    obtain ⟨value, hvalue, hconstruction⟩ := Option.bind_eq_some_iff.mp hconstruction
    cases construction with
    | derived d s callback =>
      rw [← hc] at hf
      obtain rfl : callback = some f := hf
      exact ⟨value, d, s, hvalue, hconstruction⟩
    | empty shape =>
      -- What starts out empty has no callback.
      dsimp only at hc
      split at hc <;> rw [← hc] at hf <;> cases hf
  · cases h

/-- The callback of a candidate stands within the initial value of its variable. -/
theorem isWithin_callback (hn : t.InPreorder) {c : Candidate} {f : NodeId}
    (h : b.candidate? t i = some c) (hf : c.callback = some f) :
    ∃ value, (b.binding i).initializer = some value ∧ t.isWithin f value = true := by
  obtain ⟨value, d, s, hvalue, hconstruction⟩ := exists_construction h hf
  obtain ⟨hwithin, hsize⟩ := hn.isWithin_argument (argument_of_construction hconstruction).1
  exact ⟨value, hvalue, hn.isWithin_trans hsize hwithin (hn.isWithin_stripped value)⟩

/-- **How a variable comes to hold a collection**: its initial value is derived, or it starts out
empty and is filled, or neither. -/
theorem candidate_cases {c : Candidate} (h : b.candidate? t i = some c) :
    c.binding = i ∧ (b.binding i).initializer.isSome ∧
      ((c.derivation ≠ .append ∧ c.loop = none ∧ c.populate = none) ∨
        ∃ f, b.filling? t i c.shape = some f ∧ c.derivation = .append ∧
          c.source = some f.source ∧ c.loop = some f.loop ∧ c.populate = some f.populate) := by
  unfold candidate? at h
  dsimp only at h
  split at h
  · obtain ⟨construction, hconstruction, hc⟩ := Option.map_eq_some_iff.mp h
    obtain ⟨value, hvalue, hconstruction⟩ := Option.bind_eq_some_iff.mp hconstruction
    have hsome : (b.binding i).initializer.isSome := by rw [hvalue]; rfl
    cases construction with
    | derived d s f =>
      rw [← hc]
      exact ⟨rfl, hsome, .inl ⟨(derivation_of_construction hconstruction).1, rfl, rfl⟩⟩
    | empty shape =>
      dsimp only at hc
      split at hc
      · rename_i f hf
        rw [← hc]
        exact ⟨rfl, hsome, .inr ⟨f, hf, rfl, rfl, rfl, rfl⟩⟩
      · rw [← hc]
        exact ⟨rfl, hsome, .inl ⟨Derivation.noConfusion, rfl, rfl⟩⟩
  · cases h

/-- A candidate has a source exactly if it was made of another collection. -/
theorem isSome_source_iff {c : Candidate} (h : b.candidate? t i = some c) :
    c.source.isSome = true ↔ c.derivation ≠ .root := by
  unfold candidate? at h
  dsimp only at h
  split at h
  · obtain ⟨construction, hconstruction, hc⟩ := Option.map_eq_some_iff.mp h
    obtain ⟨value, -, hconstruction⟩ := Option.bind_eq_some_iff.mp hconstruction
    cases construction with
    | derived d s f =>
      rw [← hc]
      exact iff_of_true rfl (derivation_of_construction hconstruction).2
    | empty shape =>
      dsimp only at hc
      split at hc <;> rw [← hc]
      · exact iff_of_true rfl Derivation.noConfusion
      · exact iff_of_false Bool.false_ne_true (absurd rfl)
  · cases h

end BindingTable

namespace Candidate

theorem mem_insert {new c : Candidate} {l : List Candidate} (h : c ∈ insert new l) :
    c = new ∨ c ∈ l := by
  induction l with
  | nil => exact .inl (List.mem_singleton.mp h)
  | cons d rest ih =>
    rw [insert] at h
    split at h
    · rcases List.mem_cons.mp h with h | h
      · exact .inl h
      · exact .inr (.tail _ h)
    · rcases List.mem_cons.mp h with rfl | h
      · exact .inr (.head _)
      · exact (ih h).imp_right (.tail _)

theorem mem_insertSource {new c : Candidate} {l : List Candidate} (h : c ∈ insertSource new l) :
    c ∈ l ∨ c = { binding := c.binding } := by
  unfold insertSource at h
  split at h
  · exact .inl h
  · split at h
    · exact .inl h
    · rcases List.mem_append.mp h with h | h
      · exact .inl h
      · rw [List.mem_singleton.mp h]
        exact .inr rfl

end Candidate

/-- A candidate is what its variable holds, unless it was added as the source of another one. -/
theorem BindingTable.candidate?_or_eq_of_mem {b : BindingTable} {t : Tree} {c : Candidate}
    (hc : c ∈ b.candidates t) :
    b.candidate? t c.binding = some c ∨ c = { binding := c.binding } := by
  unfold candidates at hc
  rw [mem_sortBy] at hc
  have hall : ∀ c ∈ b.ids.filterMap (b.candidate? t), b.candidate? t c.binding = some c := by
    intro c hc
    obtain ⟨i, -, hi⟩ := List.mem_filterMap.mp hc
    rwa [(candidate_cases hi).1]
  generalize b.ids.filterMap (b.candidate? t) = found at hall hc
  -- The candidates are collected one by one, each with its source.
  have hinvariant : ∀ (kept : List Candidate),
      (∀ c ∈ kept, b.candidate? t c.binding = some c ∨ c = { binding := c.binding }) →
      c ∈ found.foldl (fun all c => c.insertSource (c.insert all)) kept →
      b.candidate? t c.binding = some c ∨ c = { binding := c.binding } := by
    clear hc
    induction found with
    | nil => exact fun kept hkept hc => hkept c hc
    | cons d rest ih =>
      intro kept hkept hc
      refine ih (fun e he => hall e (.tail _ he)) _ (fun e he => ?_) hc
      rcases Candidate.mem_insertSource he with he | he
      · rcases Candidate.mem_insert he with rfl | he
        · exact .inl (hall e (.head _))
        · exact hkept e he
      · exact .inr he
  exact hinvariant [] (fun e he => nomatch he) hc

/-- A candidate that was made of another collection is what its variable holds. -/
theorem BindingTable.candidate?_of_mem {b : BindingTable} {t : Tree} {c : Candidate}
    (hc : c ∈ b.candidates t) (hd : c.derivation ≠ .root) :
    b.candidate? t c.binding = some c := by
  rcases b.candidate?_or_eq_of_mem hc with hcandidate | hsource
  · exact hcandidate
  · rw [hsource] at hd
    exact absurd rfl hd

/-! ### Collections -/

namespace Collection

/-- What inspecting its usages leaves of a collection. -/
theorem inspected_eq (b : BindingTable) (t : Tree) (contexts : List ZipContext) (c : Collection) :
    let d := c.inspected b t contexts
    d.binding = c.binding ∧ d.shape = c.shape ∧ d.derivation = c.derivation ∧
      d.callback = c.callback ∧ d.loop = c.loop ∧ d.populate = c.populate := by
  unfold inspected
  dsimp only
  split <;> exact ⟨rfl, rfl, rfl, rfl, rfl, rfl⟩

theorem origin_inspected {b : BindingTable} {t : Tree} {contexts : List ZipContext}
    {c : Collection} : (c.inspected b t contexts).origin = c.origin := by
  unfold inspected
  dsimp only
  split <;> rfl

end Collection

namespace Arena

variable {b : BindingTable} {t : Tree} {m : CollectionId}

theorem collection_eq (hm : m < (b.candidates t).length) :
    (ofTree b t).collection m = (Collection.ofCandidate (b.candidates t) (b.candidates t)[m]
      m).inspected b t (b.zipContexts t) := by
  rw [collection, Array.getD_eq_getD_getElem?]
  simp [ofTree, hm]

/-- **An entry of the arena** is a candidate with what its usages do to it. -/
theorem exists_inspected (hm : m ∈ (ofTree b t).ids) :
    ∃ c ∈ b.candidates t, (ofTree b t).collection m =
      (Collection.ofCandidate (b.candidates t) c m).inspected b t (b.zipContexts t) := by
  have hsize : m < (b.candidates t).length := by
    have hlt := List.mem_range.mp hm
    simpa [ofTree] using hlt
  exact ⟨(b.candidates t)[m], List.getElem_mem hsize, collection_eq hsize⟩

/-- A number without collection stands for one that was not made of another. -/
theorem collection_of_notMem (hm : m ∉ (ofTree b t).ids) : (ofTree b t).collection m = default := by
  have hsize : (ofTree b t).collections.size ≤ m := by
    by_contra hlt
    exact hm (List.mem_range.mpr (Nat.lt_of_not_le hlt))
  rw [collection, Array.getD_eq_getD_getElem?, Array.getElem?_eq_none hsize]
  rfl

/-- An entry has the variable of its candidate. -/
theorem binding_eq (hm : m < (b.candidates t).length) :
    ((ofTree b t).collection m).binding = (b.candidates t)[m].binding := by
  rw [collection_eq hm, (Collection.inspected_eq b t _ _).1]
  unfold Collection.ofCandidate
  split <;> rfl

/-- The collection at the position of a binding is the one of that binding. -/
theorem binding_of_position {i : BindingId} {o : CollectionId}
    (h : Collection.position? (b.candidates t) i = some o) :
    ((ofTree b t).collection o).binding = i := by
  obtain ⟨hsize, hbinding, -⟩ := List.findIdx?_eq_some_iff_getElem.mp h
  rw [binding_eq hsize]
  simpa using hbinding

/-- **A collection that was made of another one** is a candidate, and its origin is an earlier
collection, the one of the source of the candidate. -/
theorem exists_origin (h : ((ofTree b t).collection m).derivation ≠ .root) :
    ∃ (c : Candidate) (o : CollectionId), b.candidate? t c.binding = some c ∧
      c.source = some ((ofTree b t).collection o).binding ∧ o < m ∧
      (ofTree b t).collection m =
        Collection.inspected b t (b.zipContexts t)
          { binding := c.binding, shape := c.shape, derivation := c.derivation, origin := some o,
            callback := c.callback, loop := c.loop, populate := c.populate } := by
  by_cases hm : m ∈ (ofTree b t).ids
  · obtain ⟨c, hc, hget⟩ := exists_inspected hm
    have hderivation := congrArg Collection.derivation hget
    rw [(Collection.inspected_eq b t _ _).2.2.1] at hderivation
    unfold Collection.ofCandidate at hget hderivation
    split at hget
    · rename_i o horigin
      rw [horigin] at hderivation
      rw [hderivation] at h
      obtain ⟨hposition, hbefore⟩ := Option.filter_eq_some_iff.mp horigin
      obtain ⟨source, hsource, hposition⟩ := Option.bind_eq_some_iff.mp hposition
      refine ⟨c, o, b.candidate?_of_mem hc h, ?_, by simpa using hbefore, hget⟩
      rw [binding_of_position hposition, hsource]
    · rename_i horigin
      rw [horigin] at hderivation
      exact absurd hderivation h
  · rw [collection_of_notMem hm] at h
    exact absurd rfl h

/-- What a collection that was made of another one shares with its candidate. -/
theorem exists_candidate (h : ((ofTree b t).collection m).derivation ≠ .root) :
    ∃ c : Candidate, b.candidate? t c.binding = some c ∧
      ((ofTree b t).collection m).binding = c.binding ∧
      ((ofTree b t).collection m).shape = c.shape ∧
      ((ofTree b t).collection m).derivation = c.derivation ∧
      ((ofTree b t).collection m).callback = c.callback ∧
      ((ofTree b t).collection m).loop = c.loop ∧
      ((ofTree b t).collection m).populate = c.populate := by
  obtain ⟨c, o, hc, -, -, hget⟩ := exists_origin h
  rw [hget]
  exact ⟨c, hc, Collection.inspected_eq b t _ _⟩

/-- A collection that was made of another one has an initial value. -/
theorem initializer_isSome (h : ((ofTree b t).collection m).derivation ≠ .root) :
    (b.binding ((ofTree b t).collection m).binding).initializer.isSome := by
  obtain ⟨c, hc, hbinding, -⟩ := exists_candidate h
  rw [hbinding]
  exact (BindingTable.candidate_cases hc).2.1

/-- The callback of a collection that was made of another one stands within its initial value. -/
theorem isWithin_callback (hn : t.InPreorder) {f : NodeId}
    (h : ((ofTree b t).collection m).derivation ≠ .root)
    (hf : ((ofTree b t).collection m).callback = some f) :
    ∃ value, (b.binding ((ofTree b t).collection m).binding).initializer = some value ∧
      t.isWithin f value = true := by
  obtain ⟨c, hc, hbinding, -, -, hcallback, -⟩ := exists_candidate h
  rw [hbinding]
  exact BindingTable.isWithin_callback hn hc (hcallback.symm.trans hf)

/-- The callback of a collection that was made of another one is a function. -/
theorem kind_callback {f : NodeId} (h : ((ofTree b t).collection m).derivation ≠ .root)
    (hf : ((ofTree b t).collection m).callback = some f) : t.kind f = .function := by
  obtain ⟨c, hc, -, -, -, hcallback, -⟩ := exists_candidate h
  obtain ⟨_, _, _, -, hconstruction⟩ :=
    BindingTable.exists_construction hc (hcallback.symm.trans hf)
  exact (BindingTable.argument_of_construction hconstruction).2

end Arena

end Declutter
