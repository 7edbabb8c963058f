import Declutter.Binding.SingleUse
import Declutter.Proofs.Binding.Resolution
import Declutter.Proofs.Syntax.Scoping

/-!
# What a statement declares

The statement of a declaration may declare many names, and may stand in an export.  A statement
that is itself a declaration, with one declarator whose name is no pattern, declares one binding,
which is not exported; nothing else is lost with it.

## Main definitions

* `Tree.HasDeclarator` — the declarators of a statement that may stand in an export.

## Main results

* `BindingTable.exists_declared` — a binding that was declared by a statement is a declared name.
* `Tree.patternNames_of_isNameLeaf` — a plain name declares itself alone.
* `BindingTable.eq_of_sole_declarator` — a statement with one plain declarator declares one binding.
* `BindingTable.isWithin_initializer` — an initial value stands within its declaration.
* `BindingTable.scope_of_declaration` — the scope of a name is that of its declaration.
-/

namespace Declutter

/-! ### Declared names -/

namespace Tree

variable {t : Tree} {new : Binding} {d s : NodeId}

/-- The name of a function or a class is declared without a statement. -/
theorem declaration_of_mem_declaredName {kind : BindingKind} (h : new ∈ t.declaredName kind s) :
    new.declaration = none := by
  unfold declaredName at h
  split at h
  · split at h
    · rw [List.mem_singleton.mp h]
      rfl
    · cases h
  · cases h

/-- Only declarations of variables have a statement of their own: the declaration itself, or the
export around it. -/
theorem statement_of_mem_declaredAt (h : new ∈ t.declaredAt s) (hd : new.declaration = some d) :
    t.kind s = .variableDeclaration ∧ new ∈ t.declaredVariables s ∧
      ((new.exported = false ∧ d = s) ∨
        (new.exported = true ∧ t.parent? s = some d ∧ t.kind d = .exportStatement)) := by
  unfold declaredAt at h
  split at h
  · rename_i hkind
    refine ⟨hkind, h, ?_⟩
    unfold declaredVariables at h
    obtain ⟨declarator, -, h⟩ := List.mem_flatMap.mp h
    split at h
    · cases h
    obtain ⟨n, -, rfl⟩ := List.mem_map.mp h
    dsimp only at hd ⊢
    split at hd
    · rename_i hexported
      refine .inr ⟨hexported, hd, ?_⟩
      rw [parentKind?, hd] at hexported
      simpa using hexported
    · rename_i hexported
      exact .inl ⟨by simpa using hexported, (Option.some.inj hd).symm⟩
  -- All other constructs declare names without a statement.
  · rcases List.mem_append.mp h with h | h
    · exact absurd (declaration_of_mem_declaredName h) (by simp [hd])
    · obtain ⟨n, -, rfl⟩ := List.mem_map.mp h
      cases hd
  · exact absurd (declaration_of_mem_declaredName h) (by simp [hd])
  · obtain ⟨n, -, rfl⟩ := List.mem_map.mp h
    cases hd
  · obtain ⟨n, -, rfl⟩ := List.mem_map.mp h
    cases hd
  · cases h

/-- A pattern is no plain name. -/
theorem isPatternPart_eq_false (hn : t.InPreorder) {c i : Nat} (hc : c ∈ t.children i)
    (hi : t.isNameLeaf i = true) : t.isPatternPart c = false := by
  have hlt : i < t.nodes.size := lt_size_of_mem_children hc
  rw [isNameLeaf, hn.kind_eq i hlt, Bool.or_eq_true, beq_iff_eq, beq_iff_eq] at hi
  unfold isPatternPart
  rw [hn.parent_of_mem i c hc]
  dsimp only
  split
  all_goals
    first
    | rfl
    | rename_i htype
      rw [htype] at hi
      exact absurd hi (by decide)

/-- **A plain name declares itself alone.** -/
theorem patternNames_of_isNameLeaf (hn : t.InPreorder) {i : Nat} (hi : i < t.nodes.size)
    (hleaf : t.isNameLeaf i = true) : t.patternNames i = [i] := by
  have hstop : i < t.stop i := hn.lt_stop hi
  have hsubtree : t.subtree i = i :: List.range' (i + 1) (t.stop i - (i + 1)) := by
    change List.range' i (t.stop i - i) = _
    rw [show t.stop i - i = (t.stop i - (i + 1)) + 1 by omega, List.range'_succ]
  have hself : (t.isNameLeaf i && (t.pathUp i i).all fun m => m == i || t.isPatternPart m) =
      true := by
    rw [hleaf, pathUp_self]
    simp
  rw [patternNames, hsubtree, List.filter_cons, if_pos hself, List.filter_eq_nil_iff.mpr]
  intro n hmem
  rw [List.mem_range'_1, Nat.add_sub_cancel' hstop] at hmem
  -- The way up from any other node goes through a child, which is no part of a pattern.
  have hlt : n < t.nodes.size := Nat.lt_of_lt_of_le hmem.2 (hn.stop_le i hi)
  obtain ⟨c, hc, hcn, hnc⟩ := (hn.tiles i hi).exists_mem hmem.1 hmem.2
  have hic : i < c := (hn.child_bounds hc).1
  have hpath : c ∈ t.pathUp n i :=
    List.mem_filter.mpr ⟨(hn.mem_chain_iff hlt).mpr ⟨hcn, hnc⟩, by simpa using Nat.le_of_lt hic⟩
  intro hall
  rw [Bool.and_eq_true, List.all_eq_true] at hall
  have hpart := hall.2 c hpath
  rw [isPatternPart_eq_false hn hc hleaf, Bool.or_false, beq_iff_eq] at hpart
  exact absurd hpart (Nat.ne_of_gt hic)

end Tree

namespace BindingTable

variable {t : Tree} {i j : Nat} {d : NodeId}

/-- The table of the declared names holds them in their order. -/
theorem toList_ofDeclared (t : Tree) : (ofDeclared t).bindings.toList = t.declared := by
  refine ofDeclared_induction (P := fun earlier b => b.bindings.toList = earlier) t rfl
    fun earlier b new _ h => ?_
  rw [declare, Array.toList_push, h]

/-- **A binding that was declared by a statement** is the declared name of its number, apart from
its usages. -/
theorem exists_declared (h : ((ofTree t).binding i).declaration = some d) :
    ∃ new, t.declared[i]? = some new ∧ ∃ usages, (ofTree t).binding i = { new with usages } := by
  have hi : i < (ofDeclared t).bindings.size := by
    by_contra hge
    rw [((recorded_ofTree t).undeclared i (Nat.le_of_not_lt hge)).2] at h
    cases h
  obtain ⟨more, hmore⟩ := (before_extends t (Nat.zero_le t.nodes.size)).binding_eq i hi
  rw [before_zero, before_size] at hmore
  refine ⟨(ofDeclared t).binding i, ?_, _, hmore⟩
  rw [← toList_ofDeclared, Array.getElem?_toList, Array.getElem?_eq_getElem hi, binding,
    Array.getD_eq_getD_getElem?, Array.getElem?_eq_getElem hi]
  rfl

/-- A statement with one plain declarator declares one name. -/
theorem length_declaredVariables (hn : t.InPreorder) {new : Binding}
    (hcount : t.declaratorCount d = 1) (hnew : new ∈ t.declaredVariables d)
    (hinit : new.initializer.isSome) : (t.declaredVariables d).length = 1 := by
  unfold Tree.declaratorCount at hcount
  rw [List.countP_eq_length_filter] at hcount
  obtain ⟨declarator, hone⟩ := List.length_eq_one_iff.mp hcount
  unfold Tree.declaredVariables at hnew ⊢
  dsimp only at hnew ⊢
  rw [hone, List.flatMap_singleton] at hnew ⊢
  have hmem : declarator ∈ t.children d := by
    have : declarator ∈ (t.children d).filter (t.kind · == .declarator) := by
      rw [hone]
      exact .head _
    exact (List.mem_filter.mp this).1
  split at hnew
  · cases hnew
  · rename_i name hname
    obtain ⟨n, hpattern, rfl⟩ := List.mem_map.mp hnew
    -- Only a name that is no pattern has an initial value.
    have hplain : n = name := by
      dsimp only at hinit
      by_contra hne
      rw [if_neg (by simpa using hne)] at hinit
      cases hinit
    subst hplain
    have hlt : n < t.nodes.size := hn.lt_size_of_mem (Tree.mem_of_child? hname).1
    have hleaf : t.isNameLeaf n = true := by
      have := (List.mem_filter.mp hpattern).2
      rw [Bool.and_eq_true] at this
      exact this.1
    rw [List.length_map, Tree.patternNames_of_isNameLeaf hn hlt hleaf]
    rfl

/-- No two declared names have the same statement, if that is a declaration of one name. -/
theorem pairwise_declared (hkind : t.kind d = .variableDeclaration)
    (hlength : (t.declaredVariables d).length = 1) :
    t.declared.Pairwise fun x y => ¬ (x.declaration = some d ∧ y.declaration = some d) := by
  -- What has this statement is declared by it, for it is no export.
  have hstatement : ∀ s, ∀ x ∈ t.declaredAt s, x.declaration = some d → s = d := by
    intro s x hx hd
    obtain ⟨-, -, ⟨-, rfl⟩ | ⟨-, -, hexport⟩⟩ := Tree.statement_of_mem_declaredAt hx hd
    · rfl
    · rw [hkind] at hexport
      cases hexport
  refine List.pairwise_flatMap.mpr ⟨fun s _ => ?_, ?_⟩
  · by_cases hs : s = d
    · subst hs
      obtain ⟨only, honly⟩ := List.length_eq_one_iff.mp hlength
      rw [Tree.declaredAt, hkind]
      dsimp only
      rw [honly]
      exact List.pairwise_singleton _ _
    · refine List.pairwise_of_forall_mem_list fun x hx y _ h => ?_
      exact hs (hstatement s x hx h.1)
  · refine List.nodup_range.imp fun {s s'} hne x hx y hy h => hne ?_
    rw [hstatement s x hx h.1, hstatement s' y hy h.2]

/-- **A statement with one plain declarator declares one binding**, which is not exported. -/
theorem eq_of_sole_declarator (hn : t.InPreorder) (hkind : t.kind d = .variableDeclaration)
    (hcount : t.declaratorCount d = 1) (hi : ((ofTree t).binding i).declaration = some d)
    (hinit : ((ofTree t).binding i).initializer.isSome) :
    ((ofTree t).binding i).exported = false ∧
      ∀ j, ((ofTree t).binding j).declaration = some d → j = i := by
  obtain ⟨new, hnew, usages, hbinding⟩ := exists_declared hi
  rw [hbinding] at hi hinit ⊢
  obtain ⟨s, -, hs⟩ := List.mem_flatMap.mp (List.mem_of_getElem? hnew)
  obtain ⟨-, hvariable, ⟨hexported, rfl⟩ | ⟨-, -, hexport⟩⟩ := Tree.statement_of_mem_declaredAt hs hi
  · refine ⟨hexported, fun j hj => ?_⟩
    have hpairwise := pairwise_declared hkind
      (length_declaredVariables hn hcount hvariable hinit)
    obtain ⟨other, hother, _, hbinding'⟩ := exists_declared hj
    rw [hbinding'] at hj
    obtain ⟨hlt, hget⟩ := List.getElem?_eq_some_iff.mp hnew
    obtain ⟨hlt', hget'⟩ := List.getElem?_eq_some_iff.mp hother
    rw [List.pairwise_iff_getElem] at hpairwise
    rcases Nat.lt_trichotomy j i with hji | hji | hij
    · exact absurd ⟨hget' ▸ hj, hget ▸ hi⟩ (hpairwise j i hlt' hlt hji)
    · exact hji
    · exact absurd ⟨hget ▸ hi, hget' ▸ hj⟩ (hpairwise i j hlt hlt' hij)
  · rw [hkind] at hexport
    cases hexport

end BindingTable

/-! ### Declarators -/

namespace Tree

/-- Whether a statement has a declarator: it is a declaration of variables with it, or an export of
such a declaration. -/
structure HasDeclarator (t : Tree) (d declarator : NodeId) : Prop where
  kind_eq : t.kind declarator = .declarator
  stands : ∃ s, declarator ∈ t.children s ∧ t.kind s = .variableDeclaration ∧
    (s = d ∨ t.parent? s = some d ∧ t.kind d = .exportStatement)

namespace HasDeclarator

variable {t : Tree} {d declarator part : NodeId} (hd : t.HasDeclarator d declarator)
include hd

/-- Such a statement is a declaration or an export. -/
theorem kind_statement : t.kind d = .variableDeclaration ∨ t.kind d = .exportStatement := by
  obtain ⟨s, -, hkind, rfl | ⟨-, hexport⟩⟩ := hd.stands
  · exact .inl hkind
  · exact .inr hexport

/-- The parts of a declarator stand within the statement. -/
theorem isWithin_part (hn : t.InPreorder) (hpart : part ∈ t.children declarator) :
    t.isWithin part d = true := by
  obtain ⟨s, hchild, -, hstatement⟩ := hd.stands
  have hsize := hn.lt_size_of_mem hpart
  have hwithin : t.isWithin part s = true := hn.isWithin_trans hsize
    (hn.isWithin_of_mem_children hpart) (hn.isWithin_of_mem_children hchild)
  rcases hstatement with rfl | ⟨hparent, -⟩
  · exact hwithin
  · -- The statement of an exported name is the export.
    exact hn.isWithin_trans hsize hwithin
      (hn.isWithin_of_mem_children (hn.mem_children_iff.mpr hparent))

/-- The parts of a declarator lie in the scope of the statement. -/
theorem scopeOf_part (h : t.Nested) (hn : t.InPreorder) (hpart : part ∈ t.children declarator) :
    t.scopeOf part = t.scopeOf d := by
  obtain ⟨s, hchild, hkind, hstatement⟩ := hd.stands
  have hinner : t.scopeOf part = t.scopeOf s := by
    rw [h.scopeOf_child_eq hpart (by rw [hd.kind_eq]; rfl),
      h.scopeOf_child_eq hchild (by rw [hkind]; rfl)]
  rcases hstatement with rfl | ⟨hparent, hexport⟩
  · exact hinner
  · rw [hinner, h.scopeOf_child_eq (hn.mem_children_iff.mpr hparent) (by rw [hexport]; rfl)]

end HasDeclarator

end Tree

namespace BindingTable

variable {t : Tree} {i : Nat} {d v : NodeId}

/-- An initial value and its name are parts of a declarator, and the keyword of the statement tells
the scope of the name. -/
theorem exists_declarator_of_initializer (hd : ((ofTree t).binding i).declaration = some d)
    (hv : ((ofTree t).binding i).initializer = some v) :
    ∃ declarator, t.HasDeclarator d declarator ∧ t.child? declarator "value" = some v ∧
      t.child? declarator "name" = some ((ofTree t).binding i).nameNode ∧
      ((ofTree t).binding i).scope =
        t.declarationScope ((ofTree t).binding i).kind ((ofTree t).binding i).nameNode := by
  obtain ⟨new, hnew, usages, hbinding⟩ := exists_declared hd
  rw [hbinding] at hd hv ⊢
  obtain ⟨s, -, hs⟩ := List.mem_flatMap.mp (List.mem_of_getElem? hnew)
  obtain ⟨hkind, hvariable, hstatement⟩ := Tree.statement_of_mem_declaredAt hs hd
  unfold Tree.declaredVariables at hvariable
  obtain ⟨declarator, hdeclarator, hvariable⟩ := List.mem_flatMap.mp hvariable
  split at hvariable
  · cases hvariable
  rename_i name hname
  obtain ⟨n, -, rfl⟩ := List.mem_map.mp hvariable
  dsimp only at hv
  split at hv
  · rename_i hplain
    obtain rfl : n = name := beq_iff_eq.mp hplain
    obtain ⟨hchild, hdeclaratorKind⟩ := List.mem_filter.mp hdeclarator
    refine ⟨declarator, ⟨beq_iff_eq.mp hdeclaratorKind, s, hchild, hkind, ?_⟩, hv, hname, rfl⟩
    rcases hstatement with ⟨-, rfl⟩ | ⟨-, hexport⟩
    · exact .inl rfl
    · exact .inr hexport
  · cases hv

/-- **An initial value stands within its declaration.** -/
theorem isWithin_initializer (hn : t.InPreorder)
    (hd : ((ofTree t).binding i).declaration = some d)
    (hv : ((ofTree t).binding i).initializer = some v) : t.isWithin v d = true := by
  obtain ⟨declarator, hdeclarator, hvalue, -⟩ := exists_declarator_of_initializer hd hv
  exact hdeclarator.isWithin_part hn (Tree.mem_of_child? hvalue).1

/-- **The scope of a name** that is declared with an initial value, but not by `var`, is that of the
name and of the statement, within which the name stands. -/
theorem scope_of_declaration (h : t.Nested) (hn : t.InPreorder)
    (hd : ((ofTree t).binding i).declaration = some d)
    (hv : ((ofTree t).binding i).initializer = some v)
    (hkind : ((ofTree t).binding i).kind ≠ .var) :
    ((ofTree t).binding i).scope = t.scopeOf ((ofTree t).binding i).nameNode ∧
      ((ofTree t).binding i).scope = t.scopeOf d ∧
      t.isWithin ((ofTree t).binding i).nameNode d = true := by
  obtain ⟨declarator, hdeclarator, -, hname, hscope⟩ := exists_declarator_of_initializer hd hv
  have hpart := (Tree.mem_of_child? hname).1
  rw [Tree.declarationScope, if_neg (by simpa using hkind)] at hscope
  exact ⟨hscope, hscope.trans (hdeclarator.scopeOf_part h hn hpart),
    hdeclarator.isWithin_part hn hpart⟩

end BindingTable

end Declutter
