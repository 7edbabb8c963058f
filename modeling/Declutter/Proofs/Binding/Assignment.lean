import Declutter.Proofs.Analysis.Passes
import Declutter.Proofs.Binding.Accounting
import Declutter.Proofs.Syntax.Spacing

/-!
# What is assigned to

A value is assigned to the left side of an assignment, to the left side in the head of a loop that
declares nothing, and to what is counted up or down.  From there it goes on to what stands inside:
parentheses and type assertions hand it on as it is, and a pattern hands it on to its parts, but
neither to a key nor to a default value.

Whether a name is written to is asked on the way up from it.  That way leads through the patterns
around the name, but parentheses and type assertions end it, so a name that stands in them counts as
read whatever is assigned to them.

## Main definitions

* `Tree.isPart` — to which of its children a pattern hands a value on.
* `Tree.Target` — what is assigned to.
* `Tree.Sheltered` — what stands in parentheses or a type assertion, perhaps within a pattern.

## Main results

* `BindingTable.isWrite_iff_target` — the usages that count as writes.
* `BindingTable.assigned_in_parentheses` — a name that is assigned to and counts as read.
-/

namespace Declutter

namespace Tree

/-! ### Targets -/

/-- Whether a pattern hands the value that it is given on to a part: it does, but the key of a pair
and a default value are no targets.  Literals of arrays and objects are patterns where something is
assigned to them. -/
def isPart (t : Tree) (i p : NodeId) : Bool :=
  match t.kind p with
  | .array | .object | .spread => true
  | .pair => !t.hasField i "key"
  | .pattern =>
    !t.hasField i "key" &&
      !((t.type p == "assignment_pattern" || t.type p == "object_assignment_pattern") &&
        t.hasField i "right")
  | _ => false

/-- What is assigned to.  `counted` tells what is counted up or down, which is one value that no
pattern takes apart. -/
inductive Target (t : Tree) : (counted : Bool) → NodeId → Prop
  | assignment {i p : NodeId} (hp : t.parent? i = some p)
      (hkind : (t.kind p).isAssignment = true) (hleft : t.hasField i "left" = true) :
      Target t false i
  | head {i p : NodeId} (hp : t.parent? i = some p) (hkind : t.kind p = .forInStatement)
      (hkeyword : t.keyword p = none) (hleft : t.hasField i "left" = true) : Target t false i
  | operand {i p : NodeId} (hp : t.parent? i = some p) (hkind : t.kind p = .update) :
      Target t true i
  | inside {counted : Bool} {i p : NodeId} (hp : t.wrapped? p = some i)
      (houter : Target t counted p) : Target t counted i
  | part {i p : NodeId} (hp : t.parent? i = some p) (hpart : t.isPart i p = true)
      (houter : Target t false p) : Target t false i

/-- What stands in parentheses or in a type assertion, or is part of a pattern that does. -/
inductive Sheltered (t : Tree) : NodeId → Prop
  | inside {i p : NodeId} (hp : t.wrapped? p = some i) : Sheltered t i
  | part {i p : NodeId} (hp : t.parent? i = some p) (hpart : t.isPart i p = true)
      (houter : Sheltered t p) : Sheltered t i

variable {t : Tree} {i p : NodeId}

/-! ### The way up -/

/-- Only a pattern has a default. -/
theorem InPreorder.kind_of_default (hn : t.InPreorder) (hp : t.parent? i = some p)
    (h : (t.type p == "assignment_pattern" || t.type p == "object_assignment_pattern") = true) :
    t.kind p = .pattern := by
  have hsize : p < t.nodes.size := lt_size_of_mem_children (hn.mem_children_iff.mpr hp)
  rw [hn.kind_eq p hsize]
  rw [Bool.or_eq_true, beq_iff_eq, beq_iff_eq] at h
  rcases h with h | h
  · rw [h]; rfl
  · rw [h]; rfl

/-- The parts of a pattern are what the way up passes by. -/
theorem InPreorder.isPart_eq (hn : t.InPreorder) (hp : t.parent? i = some p) :
    t.isPart i p = ((t.kind p).isDestructuring && !t.isBesideTarget i p) := by
  have hdefault := hn.kind_of_default hp
  unfold isPart isBesideTarget
  cases hkind : t.kind p <;> simp_all [Kind.isDestructuring, Bool.and_comm]

/-- From a part the way leads on to the pattern. -/
theorem InPreorder.isTargetWithin_of_part (hn : t.InPreorder) (hp : t.parent? i = some p)
    (hpart : t.isPart i p = true) (direct : Bool) :
    t.isTargetWithin i direct (t.ancestors i) = t.isTargetWithin p false (t.ancestors p) := by
  rw [hn.isPart_eq hp, Bool.and_eq_true, Bool.not_eq_true'] at hpart
  rw [hn.ancestors_of_parent hp, isTargetWithin, if_pos hpart.1, hpart.2]
  rfl

/-- **The way up ends at parentheses and type assertions**, whatever stands around them. -/
theorem Sheltered.isTargetWithin_eq_false (hn : t.InPreorder) (h : t.Sheltered i) :
    ∀ direct : Bool, t.isTargetWithin i direct (t.ancestors i) = false := by
  induction h with
  | @inside i p hp =>
    intro direct
    have hparent := hn.parent_of_mem p i (mem_children_of_wrapped? p i hp)
    have hkind : t.kind p = .parenthesized ∨ t.kind p = .typeExpression := by
      by_contra hkind
      simp_all [wrapped?]
    rw [hn.ancestors_of_parent hparent, isTargetWithin]
    rcases hkind with hkind | hkind
    · simp [hkind, Kind.isDestructuring, Kind.isAssignment]
    · simp [hkind, Kind.isDestructuring, Kind.isAssignment]
  | part hp hpart _ ih =>
    intro direct
    rw [hn.isTargetWithin_of_part hp hpart]
    exact ih false

/-- **The way up from a target** finds that it is one, if it is not sheltered. -/
theorem Target.isTargetWithin (hn : t.InPreorder) {counted : Bool} (h : t.Target counted i) :
    ¬ t.Sheltered i → ∀ direct : Bool, (counted = true → direct = true) →
      t.isTargetWithin i direct (t.ancestors i) = true := by
  induction h with
  | @assignment i p hp hkind hleft =>
    intro _ direct _
    have hpattern : (t.kind p).isDestructuring = false := by
      revert hkind
      cases t.kind p <;> simp [Kind.isAssignment, Kind.isDestructuring]
    rw [hn.ancestors_of_parent hp, Tree.isTargetWithin, hpattern, if_neg (by simp), if_pos hkind]
    exact hleft
  | head hp hkind hkeyword hleft =>
    intro _ direct _
    rw [hn.ancestors_of_parent hp, Tree.isTargetWithin]
    simp [hkind, hkeyword, hleft, Kind.isDestructuring, Kind.isAssignment]
  | operand hp hkind =>
    intro _ direct hdirect
    rw [hn.ancestors_of_parent hp, Tree.isTargetWithin]
    simp [hkind, hdirect rfl, Kind.isDestructuring, Kind.isAssignment]
  | inside hp _ _ =>
    intro hopen _ _
    exact absurd (.inside hp) hopen
  | part hp hpart _ ih =>
    intro hopen direct _
    rw [hn.isTargetWithin_of_part hp hpart]
    refine ih ?_ false (by simp)
    intro houter
    exact hopen (.part hp hpart houter)

/-- **What the way up finds to be assigned to** is a target.  What is counted is found only at the
first step. -/
theorem InPreorder.exists_target (hn : t.InPreorder) :
    ∀ (i : NodeId) (direct : Bool), t.isTargetWithin i direct (t.ancestors i) = true →
      ∃ counted, t.Target counted i ∧ (counted = true → direct = true) := by
  intro i
  induction i using Nat.strongRecOn with
  | ind i ih =>
    intro direct h
    cases hp : t.parent? i with
    | none =>
      rw [ancestors, hp] at h
      cases h
    | some p =>
      by_cases hpart : t.isPart i p = true
      · rw [hn.isTargetWithin_of_part hp hpart] at h
        obtain ⟨counted, htarget, hdirect⟩ := ih p (hn.parent_lt hp) false h
        have hwhole : counted = false := by
          cases counted
          · rfl
          · exact absurd (hdirect rfl) (by simp)
        subst hwhole
        exact ⟨false, .part hp hpart htarget, by simp⟩
      · rw [hn.isPart_eq hp] at hpart
        rw [hn.ancestors_of_parent hp, isTargetWithin] at h
        split at h
        · next hkind => simp_all
        split at h
        · next hkind => exact ⟨false, .assignment hp hkind h, by simp⟩
        split at h
        · next hkind => exact ⟨true, .operand hp (by simpa using hkind), fun _ => h⟩
        split at h
        · next hkind =>
          rw [Bool.and_eq_true, beq_iff_eq, Option.isNone_iff_eq_none] at hkind
          exact ⟨false, .head hp hkind.1 hkind.2 h, by simp⟩
        · cases h

/-- A node counts as written to if something is assigned to it and it is not sheltered. -/
theorem InPreorder.isWrite_iff (hn : t.InPreorder) (i : NodeId) :
    t.isWrite i = true ↔ (∃ counted, t.Target counted i) ∧ ¬ t.Sheltered i := by
  constructor
  · intro h
    obtain ⟨counted, htarget, -⟩ := hn.exists_target i true h
    refine ⟨⟨counted, htarget⟩, ?_⟩
    intro hsheltered
    have hfalse := hsheltered.isTargetWithin_eq_false hn true
    rw [isWrite, hfalse] at h
    cases h
  · rintro ⟨⟨counted, htarget⟩, hopen⟩
    exact htarget.isTargetWithin hn hopen true (by simp)

end Tree

/-- **The usages that count as writes** are those to which something is assigned, directly or in
patterns, but for those that stand in parentheses or in a type assertion on the way. -/
theorem BindingTable.isWrite_iff_target (l : Language) (source : Bytes) (root : Concrete)
    {i : BindingId} {u : Usage} :
    let t := Tree.ofConcrete l source root
    u ∈ ((ofTree t).binding i).usages →
      (u.isWrite = true ↔ (∃ counted, t.Target counted u.node) ∧ ¬ t.Sheltered u.node) := by
  intro t hu
  have hn : t.InPreorder := Tree.inPreorder_ofConcrete l source root
  obtain ⟨husage, -, -⟩ := (accounted_ofTree t).usage u hu
  have hwrite : u.isWrite = t.isWrite u.node := by
    rw [husage]
    rfl
  rw [hwrite]
  exact hn.isWrite_iff u.node

/-! ### Two programs -/

namespace Sample

/-- A name is given a value in a pattern, where another one stands for it by default. -/
def unpacking : Bytes := Utf8.encode "let n, m;\n[\x7ba: n = m\x7d] = p;\n"

/-- The tree of `unpacking`. -/
def unpackingTree : Concrete :=
  construct "program" 0 28 [
    construct "lexical_declaration" 0 9 [
      token "let" 0 (some "kind"),
      construct "variable_declarator" 4 5 [nameTree 4 (some "name")], token "," 5,
      construct "variable_declarator" 7 8 [nameTree 7 (some "name")], token ";" 8],
    statementTree (construct "assignment_expression" 10 26 [
      construct "array_pattern" 10 22 [
        token "[" 10,
        construct "object_pattern" 11 21 [
          token "\x7b" 11,
          construct "pair_pattern" 12 20 [
            construct "property_identifier" 12 13 [] (some "key"), token ":" 13,
            construct "assignment_pattern" 15 20
              [nameTree 15 (some "left"), token "=" 17, nameTree 19 (some "right")]
              (some "value")],
          token "\x7d" 20],
        token "]" 21]
        (some "left"),
      token "=" 23, nameTree 25 (some "right")])]

/-- A variable is given another value in parentheses. -/
def overwriting : Bytes := Utf8.encode "let x = 1;\n(x) = 2;\n"

/-- The tree of `overwriting`. -/
def overwritingTree : Concrete :=
  construct "program" 0 20 [
    construct "lexical_declaration" 0 10 [
      token "let" 0 (some "kind"),
      construct "variable_declarator" 4 9 [
        nameTree 4 (some "name"), token "=" 6, construct "number" 8 9 [] (some "value")],
      token ";" 9],
    statementTree (construct "assignment_expression" 11 18 [
      construct "parenthesized_expression" 11 14 [token "(" 11, nameTree 12, token ")" 13]
        (some "left"),
      token "=" 15, construct "number" 17 18 [] (some "right")])]

end Sample

/-- The name in the pattern is written to, the one in its default value is not. -/
theorem BindingTable.sample_pattern_target :
    let t := Tree.ofConcrete .javascript Sample.unpacking Sample.unpackingTree
    let b := ofTree t
    (⟨13, true, false⟩ ∈ (b.binding 0).usages ∧
      (∃ counted, t.Target counted 13) ∧ ¬ t.Sheltered 13) ∧
    (⟨14, false, true⟩ ∈ (b.binding 1).usages ∧
      ¬ ((∃ counted, t.Target counted 14) ∧ ¬ t.Sheltered 14)) := by
  intro t b
  have hn : ⟨13, true, false⟩ ∈ (b.binding 0).usages := by decide +kernel
  have hm : ⟨14, false, true⟩ ∈ (b.binding 1).usages := by decide +kernel
  have hwrite := isWrite_iff_target .javascript Sample.unpacking Sample.unpackingTree hn
  have hread := isWrite_iff_target .javascript Sample.unpacking Sample.unpackingTree hm
  refine ⟨⟨hn, hwrite.mp rfl⟩, hm, ?_⟩
  intro htarget
  exact absurd (hread.mpr htarget) (by simp)

/-- **The exception.**  A variable to which a value is assigned in parentheses counts as read, and
as that is its only usage, it gives way to its initial value: a number comes to be assigned to. -/
theorem BindingTable.assigned_in_parentheses :
    let t := Tree.ofConcrete .javascript Sample.overwriting Sample.overwritingTree
    let b := ofTree t
    (b.binding 0).usages = [⟨8, false, true⟩] ∧ t.Target false 8 ∧ t.Sheltered 8 ∧
      b.isSingleUse t ⟨[], 2, ""⟩ 0 = true ∧
      (b.inline t "" 0).toOption.map (fun r => (Edit.applyAll t.source r.edits).1) =
        some (Utf8.encode "(1) = 2;\n") := by
  intro t b
  have hfacts : (b.binding 0).usages = [⟨8, false, true⟩] ∧ t.wrapped? 7 = some 8 ∧
      t.parent? 7 = some 6 ∧ (t.kind 6).isAssignment = true ∧ t.hasField 7 "left" = true ∧
      b.isSingleUse t ⟨[], 2, ""⟩ 0 = true ∧
      (b.inline t "" 0).toOption.map (fun r => (Edit.applyAll t.source r.edits).1) =
        some (Utf8.encode "(1) = 2;\n") := by
    decide +kernel
  obtain ⟨husages, hinside, hparent, hkind, hleft, hrewritten⟩ := hfacts
  exact ⟨husages, .inside hinside (.assignment hparent hkind hleft), .inside hinside, hrewritten⟩

end Declutter
