import Declutter.Proofs.Analysis.Passes
import Declutter.Proofs.Binding.Declaration
import Declutter.Proofs.Merge.Parts
import Declutter.Proofs.Rewrite.Removal

/-!
# A merge deletes only what it replaces

A merge replaces or removes the statements that declare the members, and with a statement goes all
that it declares.  Of a view it is checked that its statement is a declaration with one declarator,
so nothing else is declared there and nothing is exported.  Of a collection that a loop fills this
is not checked; where it holds all the same, the merge deletes no other name.

## Main definitions

* `MergePlan.DeclaresOnlyRemoved` — whether a statement declares removed members alone.
* `MergePlan.DeclaredAlone` — whether a member has a declaration of its own.
* `MergePlan.Replaceable` — what a merge may replace or remove.

## Main results

* `MergePlan.declaresOnlyRemoved` — statements of members that are declared alone.
* `MergePlan.merge_deletes_only_members` — every edit of a merge replaces what it may.
* `MergePlan.merge_deletes_shared_declaration` — the exception.
-/

namespace Declutter

open Attempt

/-- Whether a node may name a collection or one of its elements: a name, an access by index, or
a name in parentheses or with a type assertion. -/
def Tree.IsOperand (t : Tree) (n : NodeId) : Prop :=
  t.isReferenceNode n = true ∨ t.kind n = .subscript ∨ t.kind n = .parenthesized ∨
    t.kind n = .typeExpression

theorem Tree.isReferenceNode_of_identifier {t : Tree} {n : NodeId} (h : t.kind n = .identifier) :
    t.isReferenceNode n = true := by
  rw [isReferenceNode, h]
  rfl

namespace MergePlan

/-- Whether a statement declares members that the merge removes, and nothing else, and exports
none of them. -/
def DeclaresOnlyRemoved (p : MergePlan) (d : NodeId) : Prop :=
  ∀ j, (p.table.binding j).declaration = some d →
    p.removes j = true ∧ (p.table.binding j).exported = false

/-- Whether the statement that declares a member is a declaration with one declarator. -/
def DeclaredAlone (p : MergePlan) (m : CollectionId) : Prop :=
  ∀ d, (p.binding m).declaration = some d →
    p.tree.kind d = .variableDeclaration ∧ p.tree.declaratorCount d = 1

/-- What a merge may replace or remove. -/
inductive Replaceable (p : MergePlan) : NodeId → Prop
  /-- A statement that declares removed members alone. -/
  | declaration {m : CollectionId} {d : NodeId} (hm : m ∈ p.removed)
      (hd : (p.binding m).declaration = some d) (honly : p.DeclaresOnlyRemoved d) :
      Replaceable p d
  /-- A statement that fills a removed member. -/
  | filling {m : CollectionId} {s : NodeId} (hm : m ∈ p.removed)
      (hs : (p.collection m).populate = some s)
      (hkind : p.tree.kind s = .expressionStatement) : Replaceable p s
  /-- An expression that names a collection or an element. -/
  | operand {n : NodeId} (hn : p.tree.IsOperand n) : Replaceable p n
  /-- The first parameter of a function. -/
  | parameter {function n : NodeId}
      (hn : (p.tree.functionParameters function).head? = some n) : Replaceable p n
  /-- What a loop over elements assigns them to. -/
  | target {loop n : NodeId} (hloop : p.tree.kind loop = .forInStatement)
      (hn : p.tree.child? loop "left" = some n) : Replaceable p n

variable {p : MergePlan} {m : CollectionId} {r : Rewrite}

/-! ### The statements of the members -/

/-- A view is declared alone. -/
theorem declaredAlone_of_checkView (h : p.checkView m = .ok ()) : p.DeclaredAlone m := by
  intro d hd
  unfold checkView at h
  dsimp only at h
  obtain ⟨_, -, h⟩ := bind_eq_ok.mp h
  obtain ⟨_, -, h⟩ := bind_eq_ok.mp h
  obtain ⟨_, hplain, h⟩ := bind_eq_ok.mp h
  have hplain := require_eq_ok.mp hplain
  have hcount := require_eq_ok.mp h
  rw [hd, Bool.and_eq_true] at hplain
  rw [Binding.declarationNode, hd] at hcount
  exact ⟨by simpa using hplain.2, by simpa using hcount⟩

/-- A removed member was made of another collection. -/
theorem OfProgram.ne_root_of_removed (hp : p.OfProgram) (h : p.rewrite = .ok r)
    (hm : m ∈ p.removed) : (p.collection m).derivation ≠ .root := by
  cases hpattern : p.group.pattern with
  | coBuilt =>
    obtain ⟨-, loop, hloop⟩ := exists_loop hp.mem_groups hpattern
    rw [collection, (Arena.of_fillingLoop (hloop m hm)).1]
    decide
  | derivedViews =>
    obtain ⟨-, hviews⟩ := checked_of_rewrite h
    rw [hpattern] at hviews
    exact ne_root_of_view ((checkView_yields m).of_ok (hviews m hm)).1

/-- A removed member has an initial value. -/
theorem OfProgram.initializer_isSome_of_removed (hp : p.OfProgram) (h : p.rewrite = .ok r)
    (hm : m ∈ p.removed) : (p.binding m).initializer.isSome :=
  initializer_isSome hp.arena_eq (hp.ne_root_of_removed h hm)

/-- A view that is removed is declared alone. -/
theorem declaredAlone_of_views (h : p.rewrite = .ok r) (hpattern : p.group.pattern = .derivedViews)
    (hm : m ∈ p.removed) : p.DeclaredAlone m := by
  obtain ⟨-, hviews⟩ := checked_of_rewrite h
  rw [hpattern] at hviews
  exact declaredAlone_of_checkView (hviews m hm)

/-- **The statement of a member that is declared alone** declares that member only. -/
theorem OfProgram.declaresOnlyRemoved (hp : p.OfProgram) (hm : m ∈ p.removed)
    (halone : p.DeclaredAlone m) (hinit : (p.binding m).initializer.isSome) {d : NodeId}
    (hd : (p.binding m).declaration = some d) : p.DeclaresOnlyRemoved d := by
  obtain ⟨hkind, hcount⟩ := halone d hd
  unfold DeclaresOnlyRemoved
  rw [binding, hp.table_eq] at hd hinit
  rw [hp.table_eq]
  obtain ⟨hexported, hsole⟩ :=
    BindingTable.eq_of_sole_declarator hp.numbered hkind hcount hd hinit
  intro j hj
  obtain rfl := hsole j hj
  refine ⟨?_, hexported⟩
  rw [removes, List.contains_eq_mem, decide_eq_true_eq]
  exact List.mem_map_of_mem hm

/-! ### All edits -/

/-- **Each part of a merge replaces what it may**, if the statements of the members declare nothing
else. -/
theorem OfProgram.replaceable_of_part (hp : p.OfProgram)
    (honly : ∀ m ∈ p.removed, ∀ d, (p.binding m).declaration = some d → p.DeclaresOnlyRemoved d)
    {e : Edit} {copied : List NodeId} (h : p.Part e copied) :
    ∃ n, p.Replaceable n ∧ (e.span = p.tree.span n ∨ e = p.tree.removal p.marker n) := by
  have hhead {context : ZipContext} (hcontext : context ∈ p.arena.contexts) :=
    head_of_context (mem_zipContexts hp.arena_eq hcontext)
  cases h with
  | views hm hd _ _ => exact ⟨_, .declaration hm hd (honly _ hm _ hd), .inl rfl⟩
  | empty hm hd _ => exact ⟨_, .declaration hm hd (honly _ hm _ hd), .inl rfl⟩
  | undeclare hm hd => exact ⟨_, .declaration hm hd (honly _ hm _ hd), .inr rfl⟩
  | push hm hs hkind _ => exact ⟨_, .filling hm hs hkind, .inl rfl⟩
  | unpush hm hs hkind => exact ⟨_, .filling hm hs hkind, .inr rfl⟩
  | receiver hcontext _ hindexing =>
    have hreceiver := hhead hcontext
    rw [hindexing] at hreceiver
    exact ⟨_, .operand (.inl (Tree.isReferenceNode_of_identifier hreceiver.1)), .inl rfl⟩
  | element _ _ _ hfirst => exact ⟨_, .parameter hfirst, .inl rfl⟩
  | length hcontext _ hindexing hobject =>
    have hlength := hhead hcontext
    rw [hindexing] at hlength
    obtain ⟨object, hobject', hsource⟩ := hlength
    obtain rfl := Option.some.inj (hobject'.symm.trans hobject)
    refine ⟨object, .operand ?_, .inl rfl⟩
    rcases BindingTable.kind_of_sourceOf hsource with hkind | hkind | hkind
    · exact .inl (Tree.isReferenceNode_of_identifier hkind)
    · exact .inr (.inr (.inl hkind))
    · exact .inr (.inr (.inr hkind))
  | access _ _ haccess _ =>
    have haccessed := exists_object_of_accessedAt (of_mem_memberAccesses haccess).2
    exact ⟨_, .operand (.inr (.inl haccessed.1)), .inl rfl⟩
  | usage _ hu =>
    rw [binding, hp.table_eq] at hu
    exact ⟨_, .operand (.inl ((BindingTable.accounted_ofTree p.tree).usage _ hu).2.2), .inl rfl⟩
  | parameter _ hfirst => exact ⟨_, .parameter hfirst, .inl rfl⟩
  | target _ hloop htarget => exact ⟨_, .target hloop htarget, .inl rfl⟩

/-- **A merge deletes only what it replaces.**  Every edit of a merge replaces or removes one
construct, and takes nothing but blanks, semicolons and comments around it.  If the construct
declares anything, it declares removed members alone, none of which is exported; members that a loop
fills must have been declared alone for that. -/
theorem merge_deletes_only_members (l : Language) (source : Bytes) (root : Concrete)
    (pure : List String) (marker : String) (g : Group) :
    let t := Tree.ofConcrete l source root
    let b := BindingTable.ofTree t
    let a := Arena.ofTree b t
    let p := ofGroup t b a pure marker t.spelledNames g
    g ∈ a.groups b t → (g.pattern = .coBuilt → ∀ m ∈ p.removed, p.DeclaredAlone m) →
      ∀ r, p.rewrite = .ok r → ∀ e ∈ r.edits, ∃ n, p.Replaceable n ∧
        (e.span = t.span n ∨ e = t.removal marker n) ∧ t.Confined e n := by
  intro t b a p hg halone r hr e he
  have hp : p.OfProgram := .of_mem l source root pure marker t.spelledNames hg
  have honly : ∀ m ∈ p.removed, ∀ d, (p.binding m).declaration = some d →
      p.DeclaresOnlyRemoved d := by
    intro m hm d hd
    refine hp.declaresOnlyRemoved hm ?_ (hp.initializer_isSome_of_removed hr hm) hd
    cases hpattern : g.pattern with
    | coBuilt => exact halone hpattern m hm
    | derivedViews => exact declaredAlone_of_views hr hpattern hm
  obtain ⟨copied, hpart⟩ := exists_part hr he
  obtain ⟨n, hn, hspan⟩ := hp.replaceable_of_part honly hpart
  refine ⟨n, hn, hspan, ?_⟩
  rcases hspan with hspan | rfl
  · rw [Tree.Confined, hspan]
    exact Tree.confined_span n e.replacement
  · exact Tree.removal_confined marker n

end MergePlan

/-! ### Two programs -/

namespace Sample

/-- The declaration `const src = get();` at the start of a program. -/
def sourceDeclaration : Concrete :=
  construct "lexical_declaration" 0 18 [
    token "const" 0 (some "kind"),
    construct "variable_declarator" 6 17 [
      construct "identifier" 6 9 [] (some "name"), token "=" 10,
      construct "call_expression" 12 17 [
        construct "identifier" 12 15 [] (some "function"),
        construct "arguments" 15 17 [token "(" 15, token ")" 16] (some "arguments")]
        (some "value")],
    token ";" 17]

/-- The declarator `a = []` at an offset. -/
def emptyDeclarator (k : Nat) : Concrete :=
  construct "variable_declarator" k (k + 6) [
    construct "identifier" k (k + 1) [] (some "name"), token "=" (k + 2),
    construct "array" (k + 4) (k + 6) [token "[" (k + 4), token "]" (k + 5)] (some "value")]

/-- The statement `a.push(s.x);` at an offset. -/
def pushStatement (k : Nat) : Concrete :=
  construct "expression_statement" k (k + 12) [
    construct "call_expression" k (k + 11) [
      construct "member_expression" k (k + 6) [
        construct "identifier" k (k + 1) [] (some "object"), token "." (k + 1),
        construct "property_identifier" (k + 2) (k + 6) [] (some "property")] (some "function"),
      construct "arguments" (k + 6) (k + 11) [
        token "(" (k + 6),
        construct "member_expression" (k + 7) (k + 10) [
          construct "identifier" (k + 7) (k + 8) [] (some "object"), token "." (k + 8),
          construct "property_identifier" (k + 9) (k + 10) [] (some "property")],
        token ")" (k + 10)] (some "arguments")],
    token ";" (k + 11)]

/-- A loop `for (const s of src)` over two such statements, each on its line, at an offset. -/
def fillingLoop (k : Nat) : Concrete :=
  construct "for_in_statement" k (k + 54) [
    token "for" k, token "(" (k + 4), token "const" (k + 5) (some "kind"),
    construct "identifier" (k + 11) (k + 12) [] (some "left"), token "of" (k + 13) (some "operator"),
    construct "identifier" (k + 16) (k + 19) [] (some "right"), token ")" (k + 19),
    construct "statement_block" (k + 21) (k + 54)
      [token "\x7b" (k + 21), pushStatement (k + 25), pushStatement (k + 40), token "\x7d" (k + 53)]
      (some "body")]

/-- Two sequences are filled in one loop. -/
def filling : Bytes := Utf8.encode ("const src = get();\nconst a = [];\nconst b = [];\n" ++
  "for (const s of src) \x7b\n  a.push(s.x);\n  b.push(s.y);\n\x7d\n")

/-- The tree of `filling`. -/
def fillingTree : Concrete :=
  construct "program" 0 102 [
    sourceDeclaration,
    construct "lexical_declaration" 19 32
      [token "const" 19 (some "kind"), emptyDeclarator 25, token ";" 31],
    construct "lexical_declaration" 33 46
      [token "const" 33 (some "kind"), emptyDeclarator 39, token ";" 45],
    fillingLoop 47]

/-- Two sequences are filled in one loop, but one of them shares its declaration. -/
def sharing : Bytes := Utf8.encode ("const src = get();\nconst a = [], z = 5;\nconst b = [];\n" ++
  "for (const s of src) \x7b\n  a.push(s.x);\n  b.push(s.y);\n\x7d\nuse(z);\n")

/-- The tree of `sharing`. -/
def sharingTree : Concrete :=
  construct "program" 0 117 [
    sourceDeclaration,
    construct "lexical_declaration" 19 39 [
      token "const" 19 (some "kind"), emptyDeclarator 25, token "," 31,
      construct "variable_declarator" 33 38 [
        construct "identifier" 33 34 [] (some "name"), token "=" 35,
        construct "number" 37 38 [] (some "value")],
      token ";" 38],
    construct "lexical_declaration" 40 53
      [token "const" 40 (some "kind"), emptyDeclarator 46, token ";" 52],
    fillingLoop 54,
    construct "expression_statement" 109 116 [
      construct "call_expression" 109 115 [
        construct "identifier" 109 112 [] (some "function"),
        construct "arguments" 112 115
          [token "(" 112, construct "identifier" 113 114 [], token ")" 114] (some "arguments")],
      token ";" 115]]

end Sample

/-- Both sequences are declared alone, so no other name is lost. -/
theorem MergePlan.sample_deletes_only_members :
    let t := Tree.ofConcrete .javascript Sample.filling Sample.fillingTree
    let b := BindingTable.ofTree t
    let a := Arena.ofTree b t
    let g : Group := ⟨[1, 2], 0, .coBuilt, some 15, false⟩
    let p := ofGroup t b a [] "" t.spelledNames g
    g ∈ a.groups b t ∧ (∀ m ∈ p.removed, p.DeclaredAlone m) ∧
      ∃ r, p.rewrite = .ok r ∧
        (Edit.applyAll t.source r.edits).1 =
          Utf8.encode ("const src = get();\nconst srcRecords = [];\n" ++ "for (const s of src) " ++
            "\x7b\n  srcRecords.push(\x7b aItem: s.x, bItem: s.y \x7d);\n\x7d\n") ∧
        ∀ e ∈ r.edits, ∃ n, p.Replaceable n ∧
          (e.span = t.span n ∨ e = t.removal "" n) ∧ t.Confined e n := by
  intro t b a g p
  have hfacts : a.groups b t = [g] ∧
      ((p.binding 1).declaration = some 7 ∧ t.kind 7 = .variableDeclaration ∧
        t.declaratorCount 7 = 1) ∧
      ((p.binding 2).declaration = some 11 ∧ t.kind 11 = .variableDeclaration ∧
        t.declaratorCount 11 = 1) ∧
      p.rewrite.toOption.map (fun r => (Edit.applyAll t.source r.edits).1) =
        some (Utf8.encode ("const src = get();\nconst srcRecords = [];\n" ++
          "for (const s of src) " ++
            "\x7b\n  srcRecords.push(\x7b aItem: s.x, bItem: s.y \x7d);\n\x7d\n")) := by
    decide +kernel
  obtain ⟨hgroups, ⟨hfirst, hfirstAlone⟩, ⟨hsecond, hsecondAlone⟩, happlied⟩ := hfacts
  have hg : g ∈ a.groups b t := by
    rw [hgroups]
    exact .head _
  have halone : ∀ m ∈ p.removed, p.DeclaredAlone m := by
    intro m hm d hd
    rcases List.mem_cons.mp hm with rfl | hm
    · obtain rfl := Option.some.inj (hfirst.symm.trans hd)
      exact hfirstAlone
    · obtain rfl := List.mem_singleton.mp hm
      obtain rfl := Option.some.inj (hsecond.symm.trans hd)
      exact hsecondAlone
  refine ⟨hg, halone, ?_⟩
  cases hr : p.rewrite with
  | error e =>
    rw [hr] at happlied
    cases happlied
  | ok r =>
    rw [hr] at happlied
    exact ⟨r, rfl, Option.some.inj happlied,
      merge_deletes_only_members .javascript Sample.filling Sample.fillingTree [] "" g hg
        (fun _ => halone) r hr⟩

/-- **The exception.**  A sequence that a loop fills may share its declaration: the merge removes
all of the statement, and with it a name that is no member and is used later on. -/
theorem MergePlan.merge_deletes_shared_declaration :
    let t := Tree.ofConcrete .javascript Sample.sharing Sample.sharingTree
    let b := BindingTable.ofTree t
    let a := Arena.ofTree b t
    let g : Group := ⟨[1, 2], 0, .coBuilt, some 18, false⟩
    let p := ofGroup t b a [] "" t.spelledNames g
    g ∈ a.groups b t ∧ (b.binding 2).name = "z" ∧ (b.binding 2).declaration = some 7 ∧
      p.removes 2 = false ∧ (b.binding 2).usages.map (·.node) = [44] ∧
      ∃ r, p.rewrite = .ok r ∧ (∃ e ∈ r.edits, e.span = t.span 7) ∧
        (Edit.applyAll t.source r.edits).1 =
          Utf8.encode ("const src = get();\nconst srcRecords = [];\nfor (const s of src) " ++
            "\x7b\n  srcRecords.push(\x7b aItem: s.x, bItem: s.y \x7d);\n\x7d\nuse(z);\n") := by
  intro t b a g p
  have hfacts : a.groups b t = [g] ∧ (b.binding 2).name = "z" ∧
      (b.binding 2).declaration = some 7 ∧ p.removes 2 = false ∧
      (b.binding 2).usages.map (·.node) = [44] ∧
      p.rewrite.toOption.map (fun r => (r.edits.any (·.span == t.span 7),
        (Edit.applyAll t.source r.edits).1)) =
        some (true, Utf8.encode ("const src = get();\nconst srcRecords = [];\n" ++
          "for (const s of src) " ++
            "\x7b\n  srcRecords.push(\x7b aItem: s.x, bItem: s.y \x7d);\n\x7d\nuse(z);\n")) := by
    decide +kernel
  obtain ⟨hgroups, hname, hdeclaration, hremoves, husages, happlied⟩ := hfacts
  refine ⟨by rw [hgroups]; exact .head _, hname, hdeclaration, hremoves, husages, ?_⟩
  cases hr : p.rewrite with
  | error e =>
    rw [hr] at happlied
    cases happlied
  | ok r =>
    rw [hr] at happlied
    obtain ⟨hany, happlied⟩ := Prod.mk.inj (Option.some.inj happlied)
    obtain ⟨e, he, hspan⟩ := List.any_eq_true.mp hany
    exact ⟨r, rfl, ⟨e, he, by simpa using hspan⟩, happlied⟩

end Declutter
