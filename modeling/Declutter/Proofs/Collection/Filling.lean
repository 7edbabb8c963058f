import Declutter.Proofs.Collection.Candidates

/-!
# How a loop fills a collection

A statement that fills a collection calls `push` with one argument, and stands in the block that a
loop runs for each element.  Statements that fill collections in one loop stand in one block.

## Main results

* `BindingTable.sourceOf_eq_some_iff`, `BindingTable.kind_of_sourceOf` — what names a collection.
* `BindingTable.filling_cases` — the statement that fills a sequence.
* `BindingTable.block_of_enclosingIteration` — the block in which it stands.
* `Tree.GrammarShaped.block_unique` — one loop has one such block.
* `Arena.exists_filling` — what is known of a collection that a loop fills.
-/

namespace Declutter

namespace BindingTable

variable {b : BindingTable} {t : Tree} {i : BindingId}

/-- **What names a collection** is a name, apart from parentheses and type assertions. -/
theorem sourceOf_eq_some_iff {n : NodeId} {s : BindingId} : b.sourceOf? t n = some s ↔
    t.kind (t.stripped n) = .identifier ∧ b.of? (t.stripped n) = some s := by
  unfold sourceOf?
  dsimp only
  by_cases hkind : t.kind (t.stripped n) = .identifier
  · simp [hkind]
  · simp [hkind]

theorem kind_stripped_of_sourceOf {n : NodeId} {s : BindingId} (h : b.sourceOf? t n = some s) :
    t.kind (t.stripped n) = .identifier := (sourceOf_eq_some_iff.mp h).1

theorem kind_of_sourceOf {n : NodeId} {s : BindingId} (h : b.sourceOf? t n = some s) :
    t.kind n = .identifier ∨ t.kind n = .parenthesized ∨ t.kind n = .typeExpression := by
  have hinner := kind_stripped_of_sourceOf h
  by_contra hother
  simp only [not_or] at hother
  obtain ⟨hname, hparentheses, htyped⟩ := hother
  -- Without parentheses or a type assertion, nothing is stripped.
  have hnone : t.wrapped? n = none := by
    rw [Tree.wrapped?, if_neg (by simp [hparentheses, htyped])]
  have hself : t.stripped n = n := by
    rw [Tree.stripped, Tree.bottom, Tree.descent, hnone]
    rfl
  rw [hself] at hinner
  exact hname hinner

/-- What adds an element to a sequence is a call with one argument of a method of it. -/
theorem adds_sequence {u : NodeId} (h : adds t .sequence u = true) :
    ∃ access call arguments value, t.parent? u = some access ∧ t.parent? access = some call ∧
      t.kind call = .call ∧ t.child? call "arguments" = some arguments ∧
      t.children arguments = [value] ∧
      t.kind access = .member ∧ t.hasField u "object" = true ∧
      t.hasField access "function" = true := by
  unfold adds at h
  split at h
  · cases h
  rename_i access haccess
  split at h
  · cases h
  rename_i hobject
  split at h
  · cases h
  rename_i call hcall
  split at h
  · rename_i hmember
    simp only [Bool.and_eq_true, beq_iff_eq] at h
    obtain ⟨⟨hkind, hfunction⟩, h⟩ := h
    split at h
    · rename_i method items hmethod hitems
      have hlength : items.length = 1 := by
        have h : t.text method = "push" ∧ items.length = 1 := by simpa using h
        exact h.2
      unfold fixedArguments? at hitems
      split at hitems
      · rename_i arguments harguments
        split at hitems
        · obtain ⟨value, hvalue⟩ := List.length_eq_one_iff.mp hlength
          exact ⟨access, call, arguments, value, haccess, hcall, hkind, harguments,
            (Option.some.inj hitems).trans hvalue, hmember, by simpa using hobject, hfunction⟩
        · cases hitems
      · cases hitems
    · cases h
  · rename_i hshape
    cases hshape
  · cases h

/-- **What fills a collection**: the only usage that adds an element to it, in a loop that comes
after the declaration. -/
theorem fillingAt_of_filling {f : Filling} {shape : Shape} (h : b.filling? t i shape = some f) :
    ∃ u expression, ((b.binding i).usages.filter fun u => adds t shape u.node) = [u] ∧
      (t.parent? u.node).bind t.parent? = some expression ∧
      b.fillingAt? t expression = some f ∧ b.precedes t i f.loop = true := by
  unfold filling? at h
  dsimp only at h
  split at h
  · cases h
  split at h
  · rename_i u husages
    obtain ⟨hfill, hfilter⟩ := Option.filter_eq_some_iff.mp h
    obtain ⟨expression, hexpression, hfill⟩ := Option.bind_eq_some_iff.mp hfill
    simp only [Bool.and_eq_true] at hfilter
    exact ⟨u, expression, husages, hexpression, hfill, hfilter.2⟩
  · cases h

/-- A loop that comes after the declaration of a variable starts behind it. -/
theorem stop_le_of_precedes {loop d : NodeId} (h : b.precedes t i loop = true)
    (hd : (b.binding i).declaration = some d) : (t.span d).stop ≤ (t.span loop).start := by
  unfold precedes at h
  rw [hd, Bool.and_eq_true] at h
  exact of_decide_eq_true h.1

/-- **What fills a sequence**: a usage whose call is a statement, in a loop that comes after the
declaration. -/
theorem exists_usage_of_filling {f : Filling} (h : b.filling? t i .sequence = some f)
    (hf : t.kind f.populate = .expressionStatement) :
    (∃ u ∈ (b.binding i).usages, adds t .sequence u.node = true ∧ ∃ access call,
      t.parent? u.node = some access ∧ t.parent? access = some call ∧
        t.parent? call = some f.populate) ∧
      (∃ d, (b.binding i).declaration = some d ∧ (t.span d).stop ≤ (t.span f.loop).start) ∧
      ∃ source, b.enclosingIteration? t f.populate = some (f.loop, source) := by
  obtain ⟨u, expression, husages, hexpression, hfill, hprecedes⟩ := fillingAt_of_filling h
  have hu : u ∈ (b.binding i).usages.filter fun u => adds t .sequence u.node := by
    rw [husages]
    exact .head _
  obtain ⟨hmem, hadds⟩ := List.mem_filter.mp hu
  obtain ⟨access, call, -, -, haccess, hcall, hkind, -⟩ := adds_sequence hadds
  rw [haccess, Option.bind_some, hcall] at hexpression
  obtain rfl := Option.some.inj hexpression
  have hdeclaration : ∃ d, (b.binding i).declaration = some d ∧
      (t.span d).stop ≤ (t.span f.loop).start := by
    simp only [precedes, Bool.and_eq_true] at hprecedes
    obtain ⟨d, hd, hbefore⟩ := (Option.any_eq_true _ _).mp hprecedes.1
    exact ⟨d, hd, of_decide_eq_true hbefore⟩
  unfold fillingAt? at hfill
  split at hfill
  · cases hfill
  rename_i outer houter
  split at hfill
  · -- The value of an arrow function is the call itself, which is no statement.
    obtain ⟨⟨loop, source⟩, -, rfl⟩ := Option.map_eq_some_iff.mp hfill
    rw [hkind] at hf
    cases hf
  split at hfill
  · obtain ⟨⟨loop, source⟩, hloop, rfl⟩ := Option.map_eq_some_iff.mp hfill
    exact ⟨⟨u, hmem, hadds, access, call, haccess, hcall, houter⟩, hdeclaration, source, hloop⟩
  · cases hfill

/-- **The statement that fills a sequence** consists of a call with one argument, and runs once
for each element of a loop that comes after the declaration. -/
theorem filling_cases {f : Filling} (h : b.filling? t i .sequence = some f)
    (hf : t.kind f.populate = .expressionStatement) :
    (b.binding i).declaration.isSome ∧
      (∃ call arguments value, t.parent? call = some f.populate ∧
        t.child? call "arguments" = some arguments ∧ t.children arguments = [value]) ∧
      ∃ source, b.enclosingIteration? t f.populate = some (f.loop, source) := by
  obtain ⟨⟨u, -, hadds, access, call, haccess, hcall, houter⟩, ⟨d, hd, -⟩, hiterates⟩ :=
    exists_usage_of_filling h hf
  obtain ⟨access', call', arguments, value, haccess', hcall', -, harguments, hvalue, -⟩ :=
    adds_sequence hadds
  obtain rfl := Option.some.inj (haccess.symm.trans haccess')
  obtain rfl := Option.some.inj (hcall.symm.trans hcall')
  exact ⟨by rw [hd]; rfl, ⟨call, arguments, value, houter, harguments, hvalue⟩, hiterates⟩

theorem call?_kind {call : NodeId} {parts : Call} (h : t.call? call = some parts) :
    t.kind call = .call := by
  unfold Tree.call? at h
  split at h
  · cases h
  · simpa using ‹¬ (t.kind call != .call) = true›

/-- What a call runs for each element of a collection is its first argument. -/
theorem callbackIteration_cases {function loop : NodeId} {source : BindingId}
    (h : b.callbackIteration? t function = some (loop, source)) :
    ∃ arguments, t.parent? function = some arguments ∧ t.parent? arguments = some loop ∧
      t.kind arguments = .arguments ∧ (t.children arguments).head? = some function ∧
      t.kind loop = .call := by
  unfold callbackIteration? at h
  obtain ⟨arguments, harguments, h⟩ := Option.bind_eq_some_iff.mp h
  obtain ⟨call, hcall, h⟩ := Option.bind_eq_some_iff.mp h
  split at h
  · rename_i hplace
    simp only [Bool.and_eq_true, beq_iff_eq] at hplace
    obtain ⟨parts, hparts, h⟩ := Option.bind_eq_some_iff.mp h
    obtain ⟨receiver, -, h⟩ := Option.bind_eq_some_iff.mp h
    obtain ⟨src, -, h⟩ := Option.bind_eq_some_iff.mp h
    split at h
    · obtain ⟨rfl, rfl⟩ := Prod.mk.inj (Option.some.inj h)
      exact ⟨arguments, harguments, hcall, hplace.1, hplace.2, call?_kind hparts⟩
    · cases h
  · cases h

/-- What a call runs for each element, it runs for the elements of the object of its `forEach`. -/
theorem call_of_callbackIteration {function loop : NodeId} {source : BindingId}
    (h : b.callbackIteration? t function = some (loop, source)) :
    ∃ parts, t.call? loop = some parts ∧ parts.name = "forEach" ∧
      parts.receiver.bind (b.sourceOf? t) = some source := by
  unfold callbackIteration? at h
  obtain ⟨arguments, -, h⟩ := Option.bind_eq_some_iff.mp h
  obtain ⟨call, -, h⟩ := Option.bind_eq_some_iff.mp h
  split at h
  · obtain ⟨parts, hparts, h⟩ := Option.bind_eq_some_iff.mp h
    obtain ⟨receiver, hreceiver, h⟩ := Option.bind_eq_some_iff.mp h
    obtain ⟨src, hsource, h⟩ := Option.bind_eq_some_iff.mp h
    split at h
    · rename_i hname
      obtain ⟨rfl, rfl⟩ := Prod.mk.inj (Option.some.inj h)
      exact ⟨parts, hparts, by simpa using hname, by rw [hreceiver, Option.bind_some, hsource]⟩
    · cases h
  · cases h

/-- **The block in which a statement runs once per element** has no early exit, and is the body of
a loop over the source or of the function that a call runs for its elements. -/
theorem block_of_enclosingIteration {statement loop : NodeId} {source : BindingId}
    (h : b.enclosingIteration? t statement = some (loop, source)) :
    ∃ body owner, t.parent? statement = some body ∧ t.parent? body = some owner ∧
      t.kind body = .block ∧ t.hasField body "body" = true ∧ t.hasEarlyExit body = false ∧
      ((t.kind owner = .forInStatement ∧ loop = owner ∧
          (t.child? loop "right").bind (b.sourceOf? t) = some source) ∨
        (t.kind owner = .forStatement ∧ loop = owner ∧
          ∃ context, b.indexLoop? t loop = some context ∧ context.collection = source) ∨
        (t.kind owner = .function ∧ b.callbackIteration? t owner = some (loop, source))) := by
  unfold enclosingIteration? at h
  obtain ⟨body, hbody, h⟩ := Option.bind_eq_some_iff.mp h
  obtain ⟨owner, howner, h⟩ := Option.bind_eq_some_iff.mp h
  split at h
  · rename_i hplace
    simp only [Bool.and_eq_true, beq_iff_eq, Bool.not_eq_true'] at hplace
    refine ⟨body, owner, hbody, howner, hplace.1.1, hplace.1.2, hplace.2, ?_⟩
    split at h
    · rename_i hkind
      split at h
      · obtain ⟨src, hsource, h⟩ := Option.bind_eq_some_iff.mp h
        obtain ⟨rfl, rfl⟩ := Prod.mk.inj (Option.some.inj h)
        exact .inl ⟨hkind, rfl, hsource⟩
      · cases h
    · rename_i hkind
      obtain ⟨context, hcontext, h⟩ := Option.bind_eq_some_iff.mp h
      obtain ⟨rfl, rfl⟩ := Prod.mk.inj (Option.some.inj h)
      exact .inr (.inl ⟨hkind, rfl, context, hcontext, rfl⟩)
    · rename_i hkind
      exact .inr (.inr ⟨hkind, h⟩)
    · cases h
  · cases h

/-- The body in which a statement runs once per element belongs to a loop, or to the first argument
of a call. -/
theorem enclosingIteration_cases {statement loop : NodeId} {source : BindingId}
    (h : b.enclosingIteration? t statement = some (loop, source)) :
    ∃ body owner, t.parent? statement = some body ∧ t.parent? body = some owner ∧
      t.hasField body "body" = true ∧
      (((t.kind owner = .forStatement ∨ t.kind owner = .forInStatement) ∧ loop = owner) ∨
        (t.kind owner = .function ∧ ∃ arguments, t.parent? owner = some arguments ∧
          t.parent? arguments = some loop ∧ t.kind arguments = .arguments ∧
          (t.children arguments).head? = some owner ∧ t.kind loop = .call)) := by
  obtain ⟨body, owner, hbody, howner, -, hfield, -, hcases⟩ := block_of_enclosingIteration h
  refine ⟨body, owner, hbody, howner, hfield, ?_⟩
  rcases hcases with ⟨hkind, rfl, -⟩ | ⟨hkind, rfl, -⟩ | ⟨hkind, hcallback⟩
  · exact .inl ⟨.inr hkind, rfl⟩
  · exact .inl ⟨.inl hkind, rfl⟩
  · exact .inr ⟨hkind, callbackIteration_cases hcallback⟩

/-- **One loop has one block**: statements that run once per element of it stand in the same
one. -/
theorem block_unique (hn : t.InPreorder) (hg : t.GrammarShaped) {s s' loop : NodeId}
    {source source' : BindingId} (h : b.enclosingIteration? t s = some (loop, source))
    (h' : b.enclosingIteration? t s' = some (loop, source')) :
    ∃ body, t.parent? s = some body ∧ t.parent? s' = some body := by
  obtain ⟨body, owner, hs, hbody, hfield, howner⟩ := enclosingIteration_cases h
  obtain ⟨body', owner', hs', hbody', hfield', howner'⟩ := enclosingIteration_cases h'
  have hsame : owner = owner' := by
    rcases howner with ⟨hkind, rfl⟩ | ⟨-, arguments, ha, hl, hka, hhead, hkl⟩
    · rcases howner' with ⟨-, hloop⟩ | ⟨-, _, -, -, -, -, hkl'⟩
      · exact hloop
      · rw [hkl'] at hkind
        rcases hkind with hkind | hkind <;> cases hkind
    · rcases howner' with ⟨hkind, rfl⟩ | ⟨-, arguments', ha', hl', hka', hhead', -⟩
      · -- A loop is no call.
        rw [hkl] at hkind
        rcases hkind with hkind | hkind <;> cases hkind
      · -- Both functions are the first argument of the same call.
        have harguments := hg.arguments loop hkl arguments (hn.mem_children_iff.mpr hl) arguments'
          (hn.mem_children_iff.mpr hl') hka hka'
        rw [← harguments, hhead] at hhead'
        exact Option.some.inj hhead'
  subst hsame
  have hkind : t.kind owner = .function ∨ t.kind owner = .forStatement ∨
      t.kind owner = .forInStatement := by
    rcases howner with ⟨hkind, -⟩ | ⟨hkind, -⟩
    · exact .inr hkind
    · exact .inl hkind
  have hbodies := hg.body owner hkind body (hn.mem_children_iff.mpr hbody) body'
    (hn.mem_children_iff.mpr hbody') hfield hfield'
  exact ⟨body, hs, hbodies ▸ hs'⟩

end BindingTable

/-! ### Collections -/

namespace Arena

variable {b : BindingTable} {t : Tree} {m : CollectionId}

/-- **A collection that a loop fills**, with the earlier one whose elements the loop takes. -/
theorem exists_filling (h : ((ofTree b t).collection m).derivation = .append) :
    ∃ (f : Filling) (o : CollectionId),
      b.filling? t ((ofTree b t).collection m).binding ((ofTree b t).collection m).shape = some f ∧
        ((ofTree b t).collection m).loop = some f.loop ∧
        ((ofTree b t).collection m).populate = some f.populate ∧
        ((ofTree b t).collection m).origin = some o ∧ o < m ∧
        f.source = ((ofTree b t).collection o).binding := by
  have hmade : ((ofTree b t).collection m).derivation ≠ .root := by
    rw [h]
    decide
  obtain ⟨c, o, hc, hsource, hbefore, hget⟩ := exists_origin hmade
  have horigin := congrArg Collection.origin hget
  rw [Collection.origin_inspected] at horigin
  obtain ⟨hbinding, hshape, hderivation, -, hloop, hpopulate⟩ :=
    Collection.inspected_eq b t (b.zipContexts t) _
  rw [← hget] at hbinding hshape hderivation hloop hpopulate
  obtain ⟨-, -, ⟨hother, -⟩ | ⟨f, hf, -, hfsource, hfloop, hfpopulate⟩⟩ :=
    BindingTable.candidate_cases hc
  · -- A collection that is filled in a loop was not made by its initial value.
    exact absurd (hderivation.symm.trans h) hother
  · refine ⟨f, o, ?_, hloop.trans hfloop, hpopulate.trans hfpopulate, horigin, hbefore,
      Option.some.inj (hfsource.symm.trans hsource)⟩
    rw [hbinding, hshape]
    exact hf

/-- A collection that was made of another one by its initial value is filled by no loop. -/
theorem unfilled_of_ne_append (h : ((ofTree b t).collection m).derivation ≠ .root)
    (hother : ((ofTree b t).collection m).derivation ≠ .append) :
    ((ofTree b t).collection m).loop = none ∧ ((ofTree b t).collection m).populate = none := by
  obtain ⟨c, hc, -, -, hderivation, -, hloop, hpopulate⟩ := exists_candidate h
  rw [hloop, hpopulate]
  obtain ⟨-, -, ⟨-, hnone⟩ | ⟨_, -, happend, -⟩⟩ := BindingTable.candidate_cases hc
  · exact hnone
  · exact absurd (hderivation.trans happend) hother

/-- **A collection is complete only behind its declaration**: a loop that fills it comes later. -/
theorem stop_le_readyOffset (hs : t.Spaced) (h : ((ofTree b t).collection m).derivation ≠ .root)
    {d : NodeId} (hd : (b.binding ((ofTree b t).collection m).binding).declaration = some d) :
    (t.span d).stop ≤ (ofTree b t).readyOffset b t m := by
  rw [readyOffset]
  by_cases happend : ((ofTree b t).collection m).derivation = .append
  · obtain ⟨f, -, hf, hloop, -⟩ := exists_filling happend
    obtain ⟨_, _, -, -, -, hprecedes⟩ := BindingTable.fillingAt_of_filling hf
    rw [hloop]
    exact Nat.le_trans (BindingTable.stop_le_of_precedes hprecedes hd) (hs.span_le f.loop).1
  · rw [(unfilled_of_ne_append h happend).1, Binding.declarationNode, hd]
    exact Nat.le_refl _

end Arena

end Declutter
