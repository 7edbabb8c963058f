import Declutter.Proofs.Binding.Hoisting
import Declutter.Proofs.Binding.Declaration
import Mathlib.Data.List.Nodup

/-!
# Exact accounts

A construct declares no identifier twice.  If moreover no identifier is declared by two constructs,
the accounts of a table are exact: a binding owns its name and its usages and nothing else, no node
is accounted for twice, and the usages of a binding stand in the order of the source.

## Main definitions

* `Tree.namesAt`, `Tree.DeclaresApart` — the names of a construct, and whether constructs share any.
* `BindingTable.Exact` — what each visit keeps.
* `BindingTable.Account`, `BindingTable.Accounts` — the ways in which a node can be accounted for.

## Main results

* `Tree.nodup_namesAt`, `Tree.nodup_declared` — no name is declared twice.
* `BindingTable.exact_ofTree` — the accounts of a program are exact.
* `BindingTable.exists_account` — every node is accounted for.
* `BindingTable.accounts_exact` — what this says of the owners, the names and the usages.
-/

namespace Declutter

namespace Tree

variable {t : Tree} {c d i : NodeId} {a b : String}

/-- The identifiers that a construct declares. -/
def namesAt (t : Tree) (i : NodeId) : List NodeId := (t.declaredAt i).map (·.nameNode)

/-- Whether no identifier is declared by two constructs.  Nothing is asked of the heads of loops,
which declare only what no other construct has declared. -/
def DeclaresApart (t : Tree) : Prop :=
  ∀ i < t.nodes.size, ∀ j < t.nodes.size, ∀ n ∈ t.namesAt i, n ∈ t.namesAt j → i = j

instance (t : Tree) : Decidable t.DeclaresApart :=
  inferInstanceAs (Decidable (∀ i < _, ∀ j < _, ∀ n ∈ t.namesAt i, n ∈ t.namesAt j → i = j))

/-! ### Disjoint parts of a construct -/

section

variable (hn : t.InPreorder)
include hn

theorem disjoint_subtree (hc : c ∈ t.children i) (hd : d ∈ t.children i) (hne : c ≠ d) :
    List.Disjoint (t.subtree c) (t.subtree d) := by
  intro m hmc hmd
  rw [hn.mem_subtree_iff (hn.lt_size_of_mem hc)] at hmc
  rw [hn.mem_subtree_iff (hn.lt_size_of_mem hd)] at hmd
  obtain heq | hlt | hlt := hn.lt_or_lt hc hd
  · exact hne heq
  · omega
  · omega

/-- Children with different roles are different, so nothing lies in both. -/
theorem disjoint_subtree_of_fields (hc : t.child? i a = some c) (hd : t.child? i b = some d)
    (hab : a ≠ b) : List.Disjoint (t.subtree c) (t.subtree d) := by
  obtain ⟨hmc, hfc⟩ := mem_of_child? hc
  obtain ⟨hmd, hfd⟩ := mem_of_child? hd
  refine disjoint_subtree hn hmc hmd ?_
  rintro rfl
  rw [hasField, beq_iff_eq] at hfc hfd
  exact hab (Option.some.inj (hfc.symm.trans hfd))

theorem pairwise_children (i : NodeId) :
    (t.children i).Pairwise fun c d => List.Disjoint (t.subtree c) (t.subtree d) := by
  refine (hn.nodup_children i).pairwise_of_forall_ne ?_
  intro c hc d hd hne
  exact disjoint_subtree hn hc hd hne

end

/-- What is taken from disjoint parts of the tree, from each part without repetition, has none. -/
theorem nodup_flatMap_parts {parts : List NodeId} {f : NodeId → List NodeId}
    (hf : ∀ c ∈ parts, (f c).Nodup ∧ f c ⊆ t.subtree c)
    (hparts : parts.Pairwise fun c d => List.Disjoint (t.subtree c) (t.subtree d)) :
    (parts.flatMap f).Nodup := by
  refine List.nodup_flatMap.mpr ⟨fun c hc => (hf c hc).1, ?_⟩
  refine hparts.imp_of_mem fun {c d} hc hd hdisjoint => ?_
  exact fun m hmc hmd => hdisjoint ((hf c hc).2 hmc) ((hf d hd).2 hmd)

theorem nodup_subtree (i : NodeId) : (t.subtree i).Nodup := List.nodup_range'

theorem nodup_patternNames (i : NodeId) : (t.patternNames i).Nodup := (nodup_subtree i).filter _

theorem patternNames_subset (i : NodeId) : t.patternNames i ⊆ t.subtree i :=
  List.filter_subset_self _

/-! ### The names of one construct -/

section

variable (hn : t.InPreorder)
include hn

theorem nodup_declaredVariables (i : NodeId) :
    ((t.declaredVariables i).map (·.nameNode)).Nodup := by
  unfold declaredVariables
  rw [List.map_flatMap]
  refine nodup_flatMap_parts (t := t) (fun c hc => ?_) ((pairwise_children hn i).filter _)
  split
  · exact ⟨List.nodup_nil, List.nil_subset _⟩
  · rename_i name hname
    rw [List.map_map]
    change ((t.patternNames name).map id).Nodup ∧ (t.patternNames name).map id ⊆ t.subtree c
    rw [List.map_id]
    have hinner := hn.subtree_subset (mem_of_child? hname).1
    exact ⟨nodup_patternNames name, fun m hm => hinner (patternNames_subset name hm)⟩

omit hn in
theorem names_of_patterns (kind : BindingKind) (l : List NodeId) :
    (l.map (t.bindingAt kind)).map (·.nameNode) = l := by
  rw [List.map_map]
  exact List.map_id l

/-- The parameters of a function stand apart from each other. -/
theorem pairwise_parameters (i : NodeId) :
    ((t.child? i "parameter").toList ++
      match t.child? i "parameters" with
      | some list => t.children list
      | none => []).Pairwise fun c d => List.Disjoint (t.subtree c) (t.subtree d) := by
  refine List.pairwise_append.mpr ⟨?_, ?_, ?_⟩
  · cases t.child? i "parameter" with
    | none => exact .nil
    | some single => exact List.pairwise_singleton _ single
  · split
    · exact pairwise_children hn _
    · exact .nil
  · intro c hc d hd
    split at hd
    · rename_i list hlist
      have hapart := disjoint_subtree_of_fields hn (Option.mem_toList.mp hc) hlist (by decide)
      exact fun m hmc hmd => hapart hmc (hn.subtree_subset hd hmd)
    · cases hd

/-- The parameters of a function stand apart from its name. -/
theorem disjoint_name_parameters {name : NodeId} (hname : t.child? i "name" = some name) :
    List.Disjoint (t.subtree name) ((t.declaredParameters i).map (·.nameNode)) := by
  unfold declaredParameters
  rw [names_of_patterns]
  intro m hm hparameter
  obtain ⟨part, hpart, hmpart⟩ := List.mem_flatMap.mp hparameter
  have hmpart := patternNames_subset part hmpart
  rcases List.mem_append.mp hpart with hpart | hpart
  · have hsingle := Option.mem_toList.mp hpart
    exact disjoint_subtree_of_fields hn hname hsingle (by decide) hm hmpart
  · split at hpart
    · rename_i list hlist
      have hmlist := hn.subtree_subset hpart hmpart
      exact disjoint_subtree_of_fields hn hname hlist (by decide) hm hmlist
    · cases hpart

theorem nodup_declaredParameters (i : NodeId) :
    ((t.declaredParameters i).map (·.nameNode)).Nodup := by
  unfold declaredParameters
  rw [names_of_patterns]
  refine nodup_flatMap_parts (fun c _ => ?_) (pairwise_parameters hn i)
  exact ⟨nodup_patternNames c, patternNames_subset c⟩

omit hn in
/-- The name of a function or class, if it is an identifier. -/
theorem namesOf_declaredName (kind : BindingKind) (i : NodeId) :
    (t.declaredName kind i).map (·.nameNode) = [] ∨
      ∃ name, t.child? i "name" = some name ∧
        (t.declaredName kind i).map (·.nameNode) = [name] := by
  unfold declaredName
  split
  · split
    · exact .inr ⟨_, ‹_›, rfl⟩
    · exact .inl rfl
  · exact .inl rfl

/-- **A construct declares no identifier twice.** -/
theorem nodup_namesAt (i : NodeId) : (t.namesAt i).Nodup := by
  unfold namesAt declaredAt
  split
  · exact nodup_declaredVariables hn i
  · rw [List.map_append]
    obtain hnone | ⟨name, hname, hsome⟩ := t.namesOf_declaredName .function i
    · rw [hnone, List.nil_append]
      exact nodup_declaredParameters hn i
    · rw [hsome, List.singleton_append, List.nodup_cons]
      refine ⟨fun hmem => ?_, nodup_declaredParameters hn i⟩
      have hself := hn.self_mem_subtree (hn.lt_size_of_mem (mem_of_child? hname).1)
      exact disjoint_name_parameters hn hname hself hmem
  · obtain hnone | ⟨name, -, hsome⟩ := t.namesOf_declaredName .class i
    · rw [hnone]
      exact List.nodup_nil
    · rw [hsome]
      exact List.nodup_singleton name
  · rw [names_of_patterns]
    cases t.child? i "parameter" with
    | none => exact List.nodup_nil
    | some pattern =>
      show ([pattern].flatMap t.patternNames).Nodup
      rw [List.flatMap_singleton]
      exact nodup_patternNames pattern
  · have hsame : (t.declaredImports i).map (·.nameNode) =
        (t.subtree i).filter t.isImportedName := by
      rw [declaredImports, List.map_map]
      exact List.map_id _
    rw [hsame]
    exact (nodup_subtree i).filter _
  · exact List.nodup_nil

/-- **No name is declared twice**, if no two constructs declare the same. -/
theorem nodup_declared (hapart : t.DeclaresApart) : (t.declared.map (·.nameNode)).Nodup := by
  unfold declared
  rw [List.map_flatMap]
  refine List.nodup_flatMap.mpr ⟨fun i _ => nodup_namesAt hn i, ?_⟩
  refine List.nodup_range.pairwise_of_forall_ne fun i hi j hj hne => ?_
  intro n hni hnj
  exact hne (hapart i (List.mem_range.mp hi) j (List.mem_range.mp hj) n hni hnj)

end

end Tree

namespace BindingTable

variable {b : BindingTable} {t : Tree} {new : Binding} {i j k n : Nat}

/-! ### What each visit keeps -/

/-- The exact accounts of a table: the name of a binding belongs to that binding, so no other has
the same; it is no usage of it; and the usages stand in the order of the source. -/
structure Exact (b : BindingTable) : Prop where
  of?_nameNode : ∀ j < b.bindings.size, b.of? (b.binding j).nameNode = some j
  name_ne : ∀ j < b.bindings.size, ∀ u ∈ (b.binding j).usages, u.node ≠ (b.binding j).nameNode
  sorted : ∀ j, ((b.binding j).usages.map (·.node)).Pairwise (· < ·)

/-- **A new name** leaves the accounts exact, if no binding has it yet. -/
theorem Exact.declare (h : b.Exact) (hlt : new.nameNode < b.owner.size)
    (hunused : new.usages = [])
    (hfresh : ∀ j < b.bindings.size, (b.binding j).nameNode ≠ new.nameNode) :
    (b.declare new).Exact := by
  have hsize : (b.declare new).bindings.size = b.bindings.size + 1 := Array.size_push _
  refine ⟨fun j hj => ?_, fun j hj => ?_, fun j => ?_⟩
  · rw [hsize] at hj
    rw [binding_declare, of?_declare]
    by_cases hlast : j = b.bindings.size
    · rw [if_pos hlast, if_pos ⟨rfl, hlt⟩, hlast]
    · have hold : j < b.bindings.size := by omega
      rw [if_neg hlast, if_neg fun hboth => hfresh j hold hboth.1, h.of?_nameNode j hold]
  · rw [hsize] at hj
    rw [binding_declare]
    by_cases hlast : j = b.bindings.size
    · simp [hlast, hunused]
    · rw [if_neg hlast]
      exact h.name_ne j (by omega)
  · rw [binding_declare]
    by_cases hlast : j = b.bindings.size
    · simp [hlast, hunused]
    · rw [if_neg hlast]
      exact h.sorted j

/-- **A new usage** leaves the accounts exact, if it belongs to no binding yet and stands behind the
other ones. -/
theorem Exact.refer (h : b.Exact) (hi : i < b.bindings.size) {u : Usage}
    (hfree : b.of? u.node = none) (hlast : ∀ v ∈ (b.binding i).usages, v.node < u.node) :
    (b.refer i u).Exact := by
  have hsize : (b.refer i u).bindings.size = b.bindings.size := Array.size_modify
  have hne : ∀ j < b.bindings.size, (b.binding j).nameNode ≠ u.node := by
    intro j hj heq
    have howner := h.of?_nameNode j hj
    rw [heq, hfree] at howner
    cases howner
  have hname : ∀ j, ((b.refer i u).binding j).nameNode = (b.binding j).nameNode := by
    intro j
    rw [binding_refer hi]
    by_cases hji : j = i
    · rw [if_pos hji, hji]
    · rw [if_neg hji]
  refine ⟨fun j hj => ?_, fun j hj => ?_, fun j => ?_⟩
  · rw [hsize] at hj
    rw [hname, of?_refer, if_neg fun hboth => hne j hj hboth.1, h.of?_nameNode j hj]
  · rw [hsize] at hj
    rw [hname, binding_refer hi]
    by_cases hji : j = i
    · rw [if_pos hji]
      intro v hv
      rcases List.mem_append.mp hv with hv | hv
      · exact hji ▸ h.name_ne i hi v hv
      · rw [List.mem_singleton.mp hv]
        exact (hne j hj).symm
    · rw [if_neg hji]
      exact h.name_ne j hj
  · rw [binding_refer hi]
    by_cases hji : j = i
    · rw [if_pos hji, List.map_append, List.pairwise_append]
      refine ⟨h.sorted i, List.pairwise_singleton _ _, fun m hm m' hm' => ?_⟩
      obtain ⟨v, hv, rfl⟩ := List.mem_map.mp hm
      rw [List.mem_singleton.mp hm']
      exact hlast v hv
    · rw [if_neg hji]
      exact h.sorted j

section

variable (h : t.Nested) (hn : t.InPreorder) (hapart : t.DeclaresApart)
include h hn hapart

theorem exact_ofDeclared : (ofDeclared t).Exact := by
  have hall : (t.declared.map (·.nameNode)).Nodup → (ofDeclared t).owner.size = t.nodes.size ∧
      (ofDeclared t).bindings.toList = t.declared ∧ (ofDeclared t).Exact := by
    refine ofDeclared_induction (P := fun earlier b => (earlier.map (·.nameNode)).Nodup →
        b.owner.size = t.nodes.size ∧ b.bindings.toList = earlier ∧ b.Exact) t
      (fun _ => ⟨Array.size_replicate, rfl, ?_⟩) fun earlier b new hnew ih hnodup => ?_
    · exact ⟨fun j hj => absurd hj (Nat.not_lt_zero j), fun j hj => absurd hj (Nat.not_lt_zero j),
        fun _ => .nil⟩
    rw [List.map_append, List.nodup_append] at hnodup
    obtain ⟨hearlier, -, hnew'⟩ := hnodup
    obtain ⟨hsize, hlist, hexact⟩ := ih hearlier
    refine ⟨(Array.size_setIfInBounds ..).trans hsize, ?_, ?_⟩
    · rw [BindingTable.declare, Array.toList_push, hlist]
    · have hplaced := Tree.placed_of_mem_declared h hn hnew
      refine hexact.declare (hsize ▸ hplaced.lt_size) (Tree.declared_of_mem hnew).usages ?_
      intro j hj
      have hmem : b.binding j ∈ earlier := by
        rw [← hlist, binding, Array.getD_eq_getD_getElem?, Array.getElem?_eq_getElem hj]
        exact Array.getElem_mem_toList hj
      exact hnew' _ (List.mem_map_of_mem hmem) _ (.head _)
  exact (hall (Tree.nodup_declared hn hapart)).2.2

theorem exact_before (hk : k ≤ t.nodes.size) : (before t k).Exact := by
  induction k with
  | zero => exact exact_ofDeclared h hn hapart
  | succ k ih =>
    have hexact := ih (Nat.le_of_succ_le hk)
    rw [before_succ]
    obtain heq | ⟨hfree, -, ⟨keyword, -, heq⟩ | ⟨-, i, hi, -, heq⟩⟩ :=
      (before t k).visit_cases t t.allLoopHeadNames k
    · rw [heq]
      exact hexact
    · rw [heq]
      have hsize := (accounted_before t (Nat.le_of_succ_le hk)).size_eq
      refine hexact.declare (hsize ▸ hk) rfl fun j hj hname => ?_
      -- A node that belongs to no binding is the name of none.
      have howner := hexact.of?_nameNode j hj
      rw [hname] at howner
      exact absurd (howner.symm.trans hfree) (by simp)
    · rw [heq]
      exact hexact.refer hi hfree (recorded_before t k).node_lt

/-- **The accounts of a program are exact**, if no two of its constructs declare the same name. -/
theorem exact_ofTree : (ofTree t).Exact := exact_before h hn hapart (Nat.le_refl _)

end

/-! ### The account of a node -/

/-- What the name of a node means when its turn comes.  The names in the heads of loops behind it
are not declared yet. -/
def meaning? (t : Tree) (n : NodeId) : Option BindingId :=
  (before t n).resolve? t (t.text n) (t.scopeOf n)

/-- The ways to account for a node. -/
inductive Account where
  /-- It declares a binding. -/
  | name (i : BindingId)
  /-- It is one of the usages of a binding. -/
  | usage (i : BindingId) (position : Nat)
  /-- It is looked up in vain. -/
  | unresolved
  /-- It declares nothing and is not looked up. -/
  | aside
  deriving DecidableEq, Repr

/-- The binding to which a node belongs that is accounted for in some way. -/
def Account.owner? : Account → Option BindingId
  | .name i => some i
  | .usage i _ => some i
  | .unresolved => none
  | .aside => none

/-- Whether no binding of a program is declared by a node. -/
def DeclaresNothing (t : Tree) (n : NodeId) : Prop :=
  ∀ j < (ofTree t).bindings.size, ((ofTree t).binding j).nameNode ≠ n

instance (t : Tree) (n : NodeId) : Decidable (DeclaresNothing t n) :=
  inferInstanceAs (Decidable (∀ j < _, _))

/-- Whether a node of a program is accounted for in some way.  A node that is looked up and declares
nothing is a usage of the binding that the lookup finds, and unresolved if it finds none. -/
def Accounts (t : Tree) (n : NodeId) : Account → Prop
  | .name i => i < (ofTree t).bindings.size ∧ ((ofTree t).binding i).nameNode = n
  | .usage i position => (((ofTree t).binding i).usages.map (·.node))[position]? = some n ∧
      t.isLookedUp n = true ∧ meaning? t n = some i
  | .unresolved => DeclaresNothing t n ∧ t.isLookedUp n = true ∧ meaning? t n = none
  | .aside => DeclaresNothing t n ∧ t.isLookedUp n = false

theorem usage_of_accounts {i : BindingId} {position : Nat}
    (h : Accounts t n (.usage i position)) : ∃ u ∈ ((ofTree t).binding i).usages, u.node = n :=
  List.mem_map.mp (List.mem_of_getElem? h.1)

/-- What is looked up and declares nothing belongs to what the lookup finds. -/
theorem of?_eq_meaning? (hfree : DeclaresNothing t n) (hlooked : t.isLookedUp n = true) :
    (ofTree t).of? n = meaning? t n := by
  have href := Tree.isReferenceNode_of_isLookedUp hlooked
  exact of?_eq_resolve (Tree.lt_size_of_isReferenceNode href) hlooked hfree

/-- What declares nothing and is not looked up belongs to no binding. -/
theorem of?_eq_none_of_aside (hfree : DeclaresNothing t n) (haside : t.isLookedUp n = false) :
    (ofTree t).of? n = none := by
  cases hof : (ofTree t).of? n with
  | none => rfl
  | some i =>
    obtain ⟨u, hu, rfl⟩ := (accounted_ofTree t).exists_usage hof hfree
    rw [(recorded_ofTree t).lookedUp u hu] at haside
    cases haside

theorem Exact.of?_eq (h : (ofTree t).Exact) {account : Account}
    (haccount : Accounts t n account) : (ofTree t).of? n = account.owner? := by
  cases account with
  | name i =>
    obtain ⟨hi, rfl⟩ := haccount
    exact h.of?_nameNode i hi
  | usage i position =>
    obtain ⟨u, hu, rfl⟩ := usage_of_accounts haccount
    exact (accounted_ofTree t).of_usage u hu
  | unresolved =>
    obtain ⟨hfree, hlooked, hvain⟩ := haccount
    exact (of?_eq_meaning? hfree hlooked).trans hvain
  | aside => exact of?_eq_none_of_aside haccount.1 haccount.2

/-- **Every node is accounted for**: none that is looked up and found is left out. -/
theorem exists_account (t : Tree) (n : NodeId) : ∃ account, Accounts t n account := by
  by_cases hname : ∃ j, j < (ofTree t).bindings.size ∧ ((ofTree t).binding j).nameNode = n
  · obtain ⟨j, hj⟩ := hname
    exact ⟨.name j, hj⟩
  have hfree : DeclaresNothing t n := fun j hj heq => hname ⟨j, hj, heq⟩
  cases hlooked : t.isLookedUp n with
  | false => exact ⟨.aside, hfree, hlooked⟩
  | true =>
    have hmeaning := of?_eq_meaning? hfree hlooked
    cases hof : (ofTree t).of? n with
    | none => exact ⟨.unresolved, hfree, hlooked, hmeaning.symm.trans hof⟩
    | some i =>
      have hmem : n ∈ ((ofTree t).binding i).usages.map (·.node) :=
        List.mem_map.mpr ((accounted_ofTree t).exists_usage hof hfree)
      obtain ⟨position, hposition⟩ := List.getElem?_of_mem hmem
      exact ⟨.usage i position, hposition, hlooked, hmeaning.symm.trans hof⟩

/-- No node is accounted for in two ways: an account determines the binding, if there is one; the
name of a binding is no usage of it; and no node stands at two positions among the usages. -/
theorem Exact.account_unique (h : (ofTree t).Exact) {account other : Account}
    (haccount : Accounts t n account) (hother : Accounts t n other) : other = account := by
  have howner : other.owner? = account.owner? := by
    rw [← h.of?_eq hother, h.of?_eq haccount]
  have happart : ∀ {i position}, Accounts t n (.name i) → ¬ Accounts t n (.usage i position) := by
    intro i position hname husage
    obtain ⟨hi, rfl⟩ := hname
    obtain ⟨u, hu, heq⟩ := usage_of_accounts husage
    exact h.name_ne i hi u hu heq
  cases account with
  | name i =>
    cases other with
    | name j => rw [Option.some.inj howner]
    | usage j position =>
      obtain rfl : j = i := Option.some.inj howner
      exact absurd hother (happart haccount)
    | unresolved | aside => cases howner
  | usage i position =>
    cases other with
    | name j =>
      obtain rfl : j = i := Option.some.inj howner
      exact absurd haccount (happart hother)
    | usage j position' =>
      obtain rfl : j = i := Option.some.inj howner
      have hnodup : (((ofTree t).binding j).usages.map (·.node)).Nodup :=
        (h.sorted j).imp Nat.ne_of_lt
      obtain ⟨hlt, -⟩ := List.getElem?_eq_some_iff.mp haccount.1
      rw [(List.getElem?_inj hlt hnodup).mp (haccount.1.trans hother.1.symm)]
    | unresolved | aside => cases howner
  | unresolved =>
    cases other with
    | name j | usage j position => cases howner
    | unresolved => rfl
    | aside => exact absurd (haccount.2.1.symm.trans hother.2) (by decide)
  | aside =>
    cases other with
    | name j | usage j position => cases howner
    | unresolved => exact absurd (hother.2.1.symm.trans haccount.2) (by decide)
    | aside => rfl

/-! ### The accounts of a program -/

/-- **The accounts of a program**, in which no identifier is declared by two constructs.  The name
of the binding at a position belongs to the binding of this number; a node belongs to a binding
exactly if it is its name or the place of one of its usages; every node is accounted for in exactly
one way, so one that is looked up is the name of one binding, or one usage of the binding that the
lookup finds, or the lookup finds none; no two usages, of one binding or of two, are at the same
place, and none is both a write and a plain read; and the usages of a binding are in preorder. -/
theorem accounts_exact (l : Language) (source : Bytes) (root : Concrete) :
    let t := Tree.ofConcrete l source root
    let b := ofTree t
    t.DeclaresApart →
      (∀ i < b.bindings.size, b.of? (b.binding i).nameNode = some i) ∧
      (∀ n i, b.of? n = some i ↔ i < b.bindings.size ∧
        (n = (b.binding i).nameNode ∨ ∃ u ∈ (b.binding i).usages, u.node = n)) ∧
      (∀ n, ∃! account, Accounts t n account) ∧
      (b.ids.flatMap fun i => (b.binding i).usages.map (·.node)).Nodup ∧
      (∀ i, ∀ u ∈ (b.binding i).usages,
        t.isLookedUp u.node = true ∧ ¬ (u.isWrite = true ∧ u.plainRead = true)) ∧
      ∀ i, ((b.binding i).usages.map (·.node)).Pairwise (· < ·) := by
  intro t b hapart
  have h : b.Exact := exact_ofTree (Tree.nested_ofConcrete l source root)
    (Tree.inPreorder_ofConcrete l source root) hapart
  have ha : b.Accounted t := accounted_ofTree t
  refine ⟨h.of?_nameNode, fun n i => ⟨fun hi => ⟨ha.lt_size hi, ha.owned hi⟩, ?_⟩,
    fun n => ?_, ?_, fun i u hu => ⟨?_, ?_⟩, h.sorted⟩
  · rintro ⟨hi, rfl | ⟨u, hu, rfl⟩⟩
    · exact h.of?_nameNode i hi
    · exact ha.of_usage u hu
  · obtain ⟨account, haccount⟩ := exists_account t n
    exact ⟨account, haccount, fun other hother => h.account_unique haccount hother⟩
  · refine List.nodup_flatMap.mpr ⟨fun i _ => (h.sorted i).imp Nat.ne_of_lt, ?_⟩
    refine List.nodup_range.pairwise_of_forall_ne fun i _ j _ hne => ?_
    intro n hni hnj
    obtain ⟨u, hu, rfl⟩ := List.mem_map.mp hni
    obtain ⟨v, hv, heq⟩ := List.mem_map.mp hnj
    -- One node belongs to one binding.
    have howner := ha.of_usage v hv
    rw [heq, ha.of_usage u hu] at howner
    exact hne (Option.some.inj howner)
  · exact (recorded_ofTree t).lookedUp u hu
  · rintro ⟨hwrite, hread⟩
    obtain ⟨husage, -, -⟩ := ha.usage u hu
    rw [husage] at hwrite hread
    have hwrite : t.isWrite u.node = true := hwrite
    have hread : (!t.isWrite u.node && t.isPlainRead u.node) = true := hread
    simp [hwrite] at hread

/-- The usage of the variable that is declared behind it is the first usage of the binding with the
number 4, the function that is called is declared nowhere, and neither is accounted for in another
way. -/
theorem sample_accounts_exact :
    let t := Tree.ofConcrete .javascript Sample.hoisting Sample.hoistingTree
    t.DeclaresApart ∧ Accounts t 18 (.usage 4 0) ∧ t.text 15 = "f" ∧ Accounts t 15 .unresolved ∧
      (∀ account, Accounts t 18 account → account = .usage 4 0) ∧
      ∀ account, Accounts t 15 account → account = .unresolved := by
  intro t
  have hapart : t.DeclaresApart := by decide +kernel
  have husage : Accounts t 18 (.usage 4 0) := by
    show (((ofTree t).binding 4).usages.map (·.node))[0]? = some 18 ∧ t.isLookedUp 18 = true ∧
      meaning? t 18 = some 4
    decide +kernel
  have hvain : Accounts t 15 .unresolved := by
    show DeclaresNothing t 15 ∧ t.isLookedUp 15 = true ∧ meaning? t 15 = none
    decide +kernel
  obtain ⟨-, -, hunique, -⟩ := accounts_exact .javascript Sample.hoisting Sample.hoistingTree hapart
  exact ⟨hapart, husage, by decide +kernel, hvain,
    fun account haccount => (hunique 18).unique haccount husage,
    fun account haccount => (hunique 15).unique haccount hvain⟩

end BindingTable

end Declutter
