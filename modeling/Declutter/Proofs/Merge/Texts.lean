import Declutter.Proofs.Merge.Parts

/-!
# What a merge writes

The patterns by which a merge takes records apart stand in braces, and all else that it writes does
not: other texts start with a name or a keyword, or are what is left of removed lines.  So the two
sorts of edits are never mistaken for each other.

## Main definitions

* `isEnclosed` — whether a text stands in braces or parentheses.
* `MergePlan.Named` — whether the names of a plan start like names.

## Main results

* `startsAsName_groupName`, `startsAsName_fieldName` — the names of a merge.
* `MergePlan.named_ofGroup` — the plan of a group has such names.
* `MergePlan.isEnclosed_accessText` — an access is no pattern.
-/

namespace Declutter

/-- Whether a text stands in braces or parentheses. -/
def isEnclosed (text : String) : Bool :=
  (text.toList.head?.any fun c => c == '\x7b' || c == '(') &&
    text.toList.getLast?.any fun c => c == '\x7d' || c == ')'

theorem isEnclosed_recordText (entries : List String) : isEnclosed (recordText entries) = true := by
  rw [isEnclosed, recordText, String.toList_append, List.getLast?_append, String.toList_append]
  simp

theorem isEnclosed_parenthesize {text : String} (wrap : Bool) (h : isEnclosed text = true) :
    isEnclosed (parenthesize wrap text) = true := by
  cases wrap with
  | false => exact h
  | true =>
    rw [isEnclosed, parenthesize, if_pos rfl, String.toList_append, List.getLast?_append,
      String.toList_append]
    simp

/-! ### Names -/

/-- Whether a text starts with a character of an identifier. -/
def StartsAsName (text : String) : Prop :=
  ∃ c rest, text.toList = c :: rest ∧ isIdentifierChar c = true

namespace StartsAsName

variable {text : String}

theorem append (h : StartsAsName text) (more : String) : StartsAsName (text ++ more) := by
  obtain ⟨c, rest, htext, hc⟩ := h
  exact ⟨c, rest ++ more.toList, by rw [String.toList_append, htext, List.cons_append], hc⟩

theorem isEnclosed_eq_false (h : StartsAsName text) : isEnclosed text = false := by
  obtain ⟨c, rest, htext, hc⟩ := h
  have hne : (c == '\x7b' || c == '(') = false := by
    rw [Bool.or_eq_false_iff, beq_eq_false_iff_ne, beq_eq_false_iff_ne]
    refine ⟨?_, ?_⟩ <;> rintro rfl <;> exact absurd hc (by decide)
  rw [isEnclosed, htext, List.head?_cons, Option.any_some, hne, Bool.false_and]

end StartsAsName

theorem startsAsName_toIdentifier (name : String) {fallback : String}
    (h : StartsAsName fallback) : StartsAsName (toIdentifier name fallback) := by
  unfold toIdentifier
  split
  · exact h
  · rename_i c rest hfilter
    split
    · exact h.append _
    · refine ⟨c, rest, String.toList_ofList, ?_⟩
      have hmem : c ∈ name.toList.filter isIdentifierChar := by
        rw [hfilter]
        exact .head _
      exact (List.mem_filter.mp hmem).2

theorem startsAsName_fresh {base : String} (h : StartsAsName base) (taken : List String) :
    StartsAsName (fresh base taken) := by
  have hfrom : ∀ tries n, StartsAsName (freshFrom base taken tries n) := by
    intro tries
    induction tries with
    | zero => exact fun n => h.append _
    | succ tries ih =>
      intro n
      rw [freshFrom]
      split
      · exact ih (n + 1)
      · exact h.append _
  rw [fresh]
  split
  · exact hfrom _ _
  · exact h

/-- The name of a merged collection starts like a name. -/
theorem startsAsName_groupName (anchor : String) (taken : List String) :
    StartsAsName (groupName anchor taken) :=
  startsAsName_fresh (startsAsName_toIdentifier _ ⟨'m', _, rfl, rfl⟩) taken

/-- So does the field of a record. -/
theorem startsAsName_fieldName (collection : String) (taken : List String) :
    StartsAsName (fieldName collection taken) := by
  have hbase : StartsAsName (toIdentifier (singularize collection) "value") :=
    startsAsName_toIdentifier _ ⟨'v', _, rfl, rfl⟩
  refine startsAsName_fresh ?_ taken
  split
  · exact hbase.append _
  · exact hbase

namespace MergePlan

theorem mem_of_lookup {pairs : List (BindingId × String)} {i : BindingId} {field : String}
    (h : pairs.lookup i = some field) : (i, field) ∈ pairs := by
  obtain ⟨before, after, hpairs, -⟩ := List.lookup_eq_some_iff.mp h
  rw [hpairs]
  exact List.mem_append_right _ (.head _)

/-- Whether the names of a plan start like names. -/
structure Named (p : MergePlan) : Prop where
  recordName : StartsAsName p.recordName
  field : ∀ i field, (i, field) ∈ p.fields → StartsAsName field

theorem startsAsName_of_chooseFields {nameOf : BindingId → String} {members : List BindingId}
    {taken : List String} {i : BindingId} {field : String}
    (h : (i, field) ∈ chooseFields nameOf taken members) : StartsAsName field := by
  induction members generalizing taken with
  | nil => cases h
  | cons j rest ih =>
    rw [chooseFields] at h
    rcases List.mem_cons.mp h with heq | h
    · rw [(Prod.mk.inj heq).2]
      exact startsAsName_fieldName _ _
    · exact ih h

/-- The plan of a group has names that start like names. -/
theorem named_ofGroup (t : Tree) (b : BindingTable) (a : Arena) (pure : List String)
    (marker : String) (names : List String) (g : Group) :
    (ofGroup t b a pure marker names g).Named :=
  ⟨startsAsName_groupName _ _, fun _ _ h => startsAsName_of_chooseFields h⟩

namespace Named

variable {p : MergePlan} (h : p.Named)
include h

/-! ### Texts -/

theorem isEnclosed_recordName : isEnclosed p.recordName = false := h.recordName.isEnclosed_eq_false

theorem isEnclosed_fieldOf (i : BindingId) : isEnclosed (p.fieldOf i) = false := by
  rw [fieldOf]
  cases hfield : p.fields.lookup i with
  | none => rfl
  | some field => exact (h.field i field (mem_of_lookup hfield)).isEnclosed_eq_false

theorem isEnclosed_pushText (entries : List String) (s : NodeId) :
    isEnclosed (p.pushText entries s) = false := by
  refine StartsAsName.isEnclosed_eq_false ?_
  exact (((h.recordName.append _).append _).append _).append _

/-- An access is no pattern. -/
theorem isEnclosed_accessText (context : ZipContext) {locals : List (BindingId × String)}
    (hlocals : ∀ l ∈ locals, l.2 = p.fieldOf l.1) (target : BindingId) :
    isEnclosed (p.accessText context locals target) = false := by
  unfold accessText
  split
  · rename_i field hfield
    have heq : field = p.fieldOf target := hlocals (target, field) (mem_of_lookup hfield)
    rw [heq]
    exact h.isEnclosed_fieldOf target
  · refine StartsAsName.isEnclosed_eq_false ?_
    exact ((((h.recordName.append _).append _).append _).append _)

end Named

theorem isEnclosed_declarationText (p : MergePlan) (value : String) (d : NodeId) :
    isEnclosed (p.declarationText value d) = false := by
  refine StartsAsName.isEnclosed_eq_false ?_
  have hconst : StartsAsName "const " := ⟨'c', _, rfl, rfl⟩
  exact (((hconst.append _).append _).append _).append _

end MergePlan

/-- What is left of removed lines is a line. -/
theorem Tree.isEnclosed_removal (t : Tree) (marker : String) (i : NodeId) :
    isEnclosed (t.removal marker i).replacement = false := by
  have hline : ∀ text : String, isEnclosed (text ++ "\n") = false := by
    intro text
    rw [isEnclosed, String.toList_append]
    simp
  rw [removal]
  split
  · simp only [lineRemoval]
    split
    · rfl
    · exact hline _
  · rfl

end Declutter
