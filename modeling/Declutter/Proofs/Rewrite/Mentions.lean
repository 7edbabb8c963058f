import Declutter.Proofs.Analysis.Passes
import Declutter.Proofs.Attempt
import Declutter.Proofs.Binding.Resolution
import Declutter.Proofs.Binding.SingleUse
import Declutter.Rewrite.Inline

/-!
# Inlining leaves no mention behind

Inlining removes the declaration of a name, so nothing that is left may mention it.  A single-use
binding has one usage, which the rewrite replaces; what has to be shown is that every mention is a
usage.  Identifiers in types are not looked up: a value that is mentioned there, as the operand of a
type query or as the value of a member of an enumeration, is the one mention that escapes.

## Main definitions

* `BindingTable.Mentions` — whether an identifier stands for the value of a binding.

## Main results

* `BindingTable.usage_of_mention` — a mention outside of types is a usage.
* `BindingTable.inline_replaces_sole_mention` — the rewrite replaces the only mention.
* `BindingTable.inline_below_enumeration` — the exception.
-/

namespace Declutter

namespace BindingTable

/-- Whether an identifier stands for the value of a binding: it has the name of the binding, means
it from where it stands, and neither declares a name nor belongs to an import. -/
structure Mentions (b : BindingTable) (t : Tree) (i : BindingId) (n : NodeId) : Prop where
  isReference : t.isReferenceNode n = true
  outsideImports : t.isBelow n (· == .importStatement) = false
  declaresNothing : ∀ j < b.bindings.size, (b.binding j).nameNode ≠ n
  text_eq : t.text n = (b.binding i).name
  resolve_eq : b.resolve? t (t.text n) (t.scopeOf n) = some i

variable {t : Tree} {policy : InlinePolicy} {i n : Nat}

/-- What stands below neither of two sorts of constructs. -/
theorem isLookedUp_of_outside (href : t.isReferenceNode n = true)
    (himport : t.isBelow n (· == .importStatement) = false)
    (htype : t.isBelow n (· == .type) = false) : t.isLookedUp n = true := by
  rw [Tree.isLookedUp, href, Bool.true_and, Bool.not_eq_true']
  rw [Tree.isBelow, List.any_eq_false] at himport htype ⊢
  intro a ha
  simp [himport a ha, htype a ha]

/-- **A mention outside of types is a usage.** -/
theorem usage_of_mention {d : NodeId} (hd : ((ofTree t).binding i).declarator = some d)
    (h : (ofTree t).Mentions t i n) (htype : t.isBelow n (· == .type) = false) :
    t.usageAt n ∈ ((ofTree t).binding i).usages := by
  have hn : n < t.nodes.size := Tree.lt_size_of_isReferenceNode h.isReference
  have hlooked : t.isLookedUp n = true :=
    isLookedUp_of_outside h.isReference h.outsideImports htype
  exact mem_usages_of_resolve hn hlooked h.declaresNothing (lt_size_of_declarator hd) h.resolve_eq

/-- What the rewrite is made of: the value in the place of the usage, and the removal of the
declaration. -/
theorem ofEdits_of_inline {b : BindingTable} {marker : String} {r : Rewrite}
    (h : b.inline t marker i = .ok r) :
    ∃ u declaration value, b.soleRead? i = some u ∧
      (b.binding i).declaration = some declaration ∧ (b.binding i).initializer = some value ∧
      Rewrite.ofEdits [⟨t.span u, b.inlineText t i declaration value u⟩,
        t.removal marker declaration] = .ok r := by
  unfold inline at h
  split at h
  · rename_i declaration value hdeclaration hvalue
    obtain ⟨u, hu, h⟩ := Attempt.bind_eq_ok.mp h
    refine ⟨u, declaration, value, Attempt.fetch_eq_ok.mp hu, hdeclaration, hvalue, ?_⟩
    dsimp only at h
    split at h
    · rename_i s hs
      obtain rfl := Attempt.pure_eq_ok.mp h
      exact hs
    · cases h
  · cases h

/-- The edits of the rewrite. -/
theorem mem_edits_of_inline {b : BindingTable} {marker : String} {u : NodeId} {r : Rewrite}
    (hu : b.soleRead? i = some u) (h : b.inline t marker i = .ok r) :
    ∃ declaration value, (b.binding i).declaration = some declaration ∧
      (b.binding i).initializer = some value ∧
      ∀ e, e ∈ r.edits ↔ e = ⟨t.span u, b.inlineText t i declaration value u⟩ ∨
        e = t.removal marker declaration := by
  obtain ⟨u', declaration, value, hu', hdeclaration, hvalue, hr⟩ := ofEdits_of_inline h
  obtain rfl := Option.some.inj (hu.symm.trans hu')
  refine ⟨declaration, value, hdeclaration, hvalue, fun e => ?_⟩
  rw [Rewrite.mem_of_ofEdits hr]
  simp

/-- **Inlining replaces the only mention.**  A single-use binding is mentioned, outside of types, by
no identifier but its one usage, and that is what the rewrite replaces; besides, it removes the
declaration and does nothing else. -/
theorem inline_replaces_sole_mention (l : Language) (source : Bytes) (root : Concrete)
    (policy : InlinePolicy) (marker : String) (i : BindingId) :
    let t := Tree.ofConcrete l source root
    let b := ofTree t
    b.isSingleUse t policy i = true →
      ∃ u declaration value, b.soleRead? i = some u ∧ b.of? u = some i ∧
        t.isReferenceNode u = true ∧ t.text u = (b.binding i).name ∧
        (b.binding i).declaration = some declaration ∧
        (b.binding i).initializer = some value ∧
        (∀ n, b.Mentions t i n → t.isBelow n (· == .type) = false → n = u) ∧
        ∀ r, b.inline t marker i = .ok r →
          ∀ e, e ∈ r.edits ↔ e = ⟨t.span u, b.inlineText t i declaration value u⟩ ∨
            e = t.removal marker declaration := by
  intro t b h
  obtain ⟨declaration, declarator, value, u, _, _, hs⟩ := singleUse_of_isSingleUse h
  have hb : b.Accounted t := accounted_ofTree t
  have husage : u ∈ (b.binding i).usages := by
    rw [hs.usages_eq]
    exact .head _
  have hsole : b.soleRead? i = some u.node := by
    rw [soleRead?, Binding.reads, hs.usages_eq, List.filter_cons_of_pos (by simp [hs.isWrite_eq])]
    rfl
  refine ⟨u.node, declaration, value, hsole, hb.of_usage u husage, (hb.usage u husage).2.2,
    (recorded_ofTree t).text_eq u husage, hs.declaration_eq, hs.initializer_eq,
    fun n hmention htype => ?_, fun r hr => ?_⟩
  · -- The mention is a usage, and there is only one.
    have hmem : t.usageAt n ∈ (b.binding i).usages :=
      usage_of_mention hs.declarator_eq hmention htype
    rw [hs.usages_eq, List.mem_singleton] at hmem
    exact congrArg Usage.node hmem
  · obtain ⟨declaration', value', hdeclaration, hvalue, hedits⟩ := mem_edits_of_inline hsole hr
    obtain rfl := Option.some.inj (hs.declaration_eq.symm.trans hdeclaration)
    obtain rfl := Option.some.inj (hs.initializer_eq.symm.trans hvalue)
    exact hedits

end BindingTable

/-! ### Two programs -/

namespace Sample

/-- A constant is used in a call and shadowed in a function behind it. -/
def shadowing : Bytes := Utf8.encode "const x = 1;\nf(x);\ng(x => x);\n"

/-- The tree of `shadowing`. -/
def shadowingTree : Concrete :=
  construct "program" 0 31 [
    construct "lexical_declaration" 0 12 [
      token "const" 0 (some "kind"),
      construct "variable_declarator" 6 11 [
        construct "identifier" 6 7 [] (some "name"),
        token "=" 8,
        construct "number" 10 11 [] (some "value")],
      token ";" 11],
    construct "expression_statement" 13 18 [
      construct "call_expression" 13 17 [
        construct "identifier" 13 14 [] (some "function"),
        construct "arguments" 14 17
          [token "(" 14, construct "identifier" 15 16 [], token ")" 16] (some "arguments")],
      token ";" 17],
    construct "expression_statement" 19 30 [
      construct "call_expression" 19 29 [
        construct "identifier" 19 20 [] (some "function"),
        construct "arguments" 20 29 [
          token "(" 20,
          construct "arrow_function" 21 27 [
            construct "identifier" 21 22 [] (some "parameter"),
            token "=>" 23,
            construct "identifier" 26 27 [] (some "body")],
          token ")" 28] (some "arguments")],
      token ";" 29]]

/-- A constant is used in a call and mentioned in an enumeration behind it. -/
def enumerating : Bytes := Utf8.encode "const v = 1;\nuse(v);\nenum E \x7b A = v \x7d\n"

/-- The tree of `enumerating`. -/
def enumeratingTree : Concrete :=
  construct "program" 0 38 [
    construct "lexical_declaration" 0 12 [
      token "const" 0 (some "kind"),
      construct "variable_declarator" 6 11 [
        construct "identifier" 6 7 [] (some "name"),
        token "=" 8,
        construct "number" 10 11 [] (some "value")],
      token ";" 11],
    construct "expression_statement" 13 20 [
      construct "call_expression" 13 19 [
        construct "identifier" 13 16 [] (some "function"),
        construct "arguments" 16 19
          [token "(" 16, construct "identifier" 17 18 [], token ")" 18] (some "arguments")],
      token ";" 19],
    construct "enum_declaration" 21 37 [
      token "enum" 21,
      construct "identifier" 26 27 [] (some "name"),
      construct "enum_body" 28 37 [
        token "\x7b" 28,
        construct "enum_assignment" 30 35 [
          construct "property_identifier" 30 31 [] (some "name"),
          token "=" 32,
          construct "identifier" 34 35 [] (some "value")],
        token "\x7d" 36] (some "body")]]

/-- What the choice of bindings depends on besides the program. -/
def shallow : InlinePolicy := ⟨[], 2, ""⟩

end Sample

/-- The constant is mentioned in the call alone, which the rewrite changes. -/
theorem BindingTable.sample_sole_mention :
    let t := Tree.ofConcrete .javascript Sample.shadowing Sample.shadowingTree
    let b := ofTree t
    b.isSingleUse t Sample.shallow 0 = true ∧ b.Mentions t 0 9 ∧
      (∀ n, b.Mentions t 0 n → t.isBelow n (· == .type) = false → n = 9) ∧
      ∃ r, b.inline t "" 0 = .ok r ∧ ⟨t.span 9, "1"⟩ ∈ r.edits := by
  intro t b
  have hfacts : b.isSingleUse t Sample.shallow 0 = true ∧
      (t.isReferenceNode 9 = true ∧ t.isBelow 9 (· == .importStatement) = false ∧
        (∀ j < b.bindings.size, (b.binding j).nameNode ≠ 9) ∧ t.text 9 = (b.binding 0).name ∧
        b.resolve? t (t.text 9) (t.scopeOf 9) = some 0) ∧
      b.soleRead? 0 = some 9 ∧ (b.binding 0).declaration = some 1 ∧
      (b.binding 0).initializer = some 4 ∧ b.inlineText t 0 1 4 9 = "1" ∧
      (b.inline t "" 0).toOption.isSome := by
    decide +kernel
  obtain ⟨hsingle, ⟨href, himport, hnothing, htext, hmeans⟩, hread, hdeclaration, hvalue, hone,
    hsome⟩ := hfacts
  obtain ⟨u, declaration, value, hu, -, -, -, hdeclaration', hvalue', hsole, hedits⟩ :=
    inline_replaces_sole_mention .javascript Sample.shadowing Sample.shadowingTree Sample.shallow ""
      0 hsingle
  obtain rfl := Option.some.inj (hu.symm.trans hread)
  obtain rfl := Option.some.inj (hdeclaration'.symm.trans hdeclaration)
  obtain rfl := Option.some.inj (hvalue'.symm.trans hvalue)
  refine ⟨hsingle, ⟨href, himport, hnothing, htext, hmeans⟩, hsole, ?_⟩
  cases hr : b.inline t "" 0 with
  | error e =>
    rw [hr] at hsome
    cases hsome
  | ok r =>
    refine ⟨r, rfl, (hedits r hr _).mpr (.inl ?_)⟩
    rw [hone]

/-- **The exception.**  A value that is mentioned in an enumeration is not looked up: the constant
is single-use, and the rewrite removes its declaration but leaves the mention. -/
theorem BindingTable.inline_below_enumeration :
    let t := Tree.ofConcrete .typescript Sample.enumerating Sample.enumeratingTree
    let b := ofTree t
    b.isSingleUse t Sample.shallow 0 = true ∧ b.soleRead? 0 = some 9 ∧ b.Mentions t 0 15 ∧
      t.isBelow 15 (· == .type) = true ∧
      ∃ r, b.inline t "" 0 = .ok r ∧
        (Edit.applyAll t.source r.edits).1 = Utf8.encode "use(1);\nenum E \x7b A = v \x7d\n" := by
  intro t b
  have hfacts : b.isSingleUse t Sample.shallow 0 = true ∧ b.soleRead? 0 = some 9 ∧
      (t.isReferenceNode 15 = true ∧ t.isBelow 15 (· == .importStatement) = false ∧
        (∀ j < b.bindings.size, (b.binding j).nameNode ≠ 15) ∧ t.text 15 = (b.binding 0).name ∧
        b.resolve? t (t.text 15) (t.scopeOf 15) = some 0) ∧
      t.isBelow 15 (· == .type) = true ∧
      (b.inline t "" 0).toOption.map (fun r => (Edit.applyAll t.source r.edits).1) =
        some (Utf8.encode "use(1);\nenum E \x7b A = v \x7d\n") := by
    decide +kernel
  obtain ⟨hsingle, hread, ⟨href, himport, hnothing, htext, hmeans⟩, hbelow, happlied⟩ := hfacts
  refine ⟨hsingle, hread, ⟨href, himport, hnothing, htext, hmeans⟩, hbelow, ?_⟩
  cases hr : b.inline t "" 0 with
  | error e =>
    rw [hr] at happlied
    cases happlied
  | ok r =>
    rw [hr] at happlied
    exact ⟨r, rfl, Option.some.inj happlied⟩

end Declutter
