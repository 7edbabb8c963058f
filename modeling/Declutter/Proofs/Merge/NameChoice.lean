import Mathlib.Order.Bounds.Defs
import Declutter.Proofs.Merge.LegalNames

/-!
# How names are chosen

A new name is made from the name of a collection.  If it is taken, numbers are tried one after the
other until one makes it fresh.  Nothing limits the search but that the taken names are finitely
many and the numbered ones all differ, and so it always ends.  The fields of a record are chosen in
this way one by one, each with those before it taken; so they differ, however alike the names of the
collections are.

## Main definitions

* `Seeks` — the search for a name that is not taken.
* `ChoosesFields` — the choice of the fields of a record, one after the other.

## Main results

* `seeks_iff` — the search ends, with the fresh name.
* `fresh_least_cases` — the number that the search ends with is the least one.
* `choosesFields_iff` — the choice of fields ends, with the fields of the plan.
* `chosen_names_distinct` — the fields of a record differ, and the name of the records is fresh.
-/

namespace Declutter

/-! ### The search for a name -/

/-- The search for a name that is not taken, with a name at hand and the number to try next: it ends
with the name if that is not taken, and else goes on with the numbered name. -/
inductive Seeks (base : String) (taken : List String) : String → Nat → String → Prop
  | found {name : String} {n : Nat} (hfree : name ∉ taken) : Seeks base taken name n name
  | next {name result : String} {n : Nat} (htaken : name ∈ taken)
      (hrest : Seeks base taken (numbered base n) (n + 1) result) : Seeks base taken name n result

section

variable {base name result result' : String} {taken : List String} {n k : Nat}

/-- The search ends in one way only. -/
theorem Seeks.unique (h : Seeks base taken name n result) (h' : Seeks base taken name n result') :
    result = result' := by
  induction h with
  | found hfree =>
    cases h' with
    | found => rfl
    | next htaken => exact absurd htaken hfree
  | next htaken _ ih =>
    cases h' with
    | found hfree => exact absurd htaken hfree
    | next _ hrest => exact ih hrest

/-- The search passes by the numbers that are in use. -/
theorem Seeks.of_taken (hname : name ∈ taken) (hle : n ≤ k) (hfree : numbered base k ∉ taken)
    (hbefore : ∀ j, n ≤ j → j < k → numbered base j ∈ taken) :
    Seeks base taken name n (numbered base k) := by
  induction hd : k - n generalizing name n with
  | zero =>
    obtain rfl : n = k := by omega
    exact .next hname (.found hfree)
  | succ d ih =>
    have hlt : n < k := by omega
    refine .next hname (ih (hbefore n (Nat.le_refl n) hlt) hlt ?_ (by omega))
    exact fun j hj => hbefore j (Nat.le_of_succ_le hj)

/-- **The search for a name ends**, with the fresh name. -/
theorem seeks_iff : Seeks base taken base 2 result ↔ result = fresh base taken := by
  have hends : Seeks base taken base 2 (fresh base taken) := by
    obtain ⟨hfree, heq⟩ | ⟨htaken, k, hle, heq, hfree, hbefore⟩ := fresh_cases base taken
    · rw [heq]
      exact .found hfree
    · rw [heq]
      exact .of_taken htaken hle hfree hbefore
  exact ⟨fun h => h.unique hends, fun h => h ▸ hends⟩

/-- **The name that is chosen** is the name itself, if that is not taken, and else has the least
number from two on that makes it fresh. -/
theorem fresh_least_cases (base : String) (taken : List String) :
    base ∉ taken ∧ fresh base taken = base ∨ base ∈ taken ∧ ∃ n,
      IsLeast {k | 2 ≤ k ∧ numbered base k ∉ taken} n ∧ fresh base taken = numbered base n := by
  refine (fresh_cases base taken).imp_right ?_
  rintro ⟨htaken, n, hle, heq, hfree, hbefore⟩
  refine ⟨htaken, n, ⟨⟨hle, hfree⟩, ?_⟩, heq⟩
  rintro k ⟨hk, hkfree⟩
  exact Nat.le_of_not_lt fun hlt => hkfree (hbefore k hk hlt)

end

/-! ### The fields of a record -/

/-- The choice of the fields for the elements of some collections, one after the other, each with
those before it taken. -/
inductive ChoosesFields : (taken collections fields : List String) → Prop
  | nil {taken : List String} : ChoosesFields taken [] []
  | cons {taken collections fields : List String} {collection field : String}
      (hfield : Seeks (fieldBase collection) taken (fieldBase collection) 2 field)
      (hrest : ChoosesFields (taken ++ [field]) collections fields) :
      ChoosesFields taken (collection :: collections) (field :: fields)

open MergePlan (chooseFields)

variable {nameOf : BindingId → String} {members : List BindingId} {taken fields : List String}

/-- **The choice of fields ends**, with the fields of the plan. -/
theorem choosesFields_iff : ChoosesFields taken (members.map nameOf) fields ↔
    fields = (chooseFields nameOf taken members).map (·.2) := by
  induction members generalizing taken fields with
  | nil =>
    constructor
    · intro h
      cases h
      rfl
    · rintro rfl
      exact .nil
  | cons i rest ih =>
    rw [List.map_cons, chooseFields, List.map_cons]
    constructor
    · intro h
      cases h with
      | cons hfield hrest =>
        obtain rfl := seeks_iff.mp hfield
        rw [ih.mp hrest, fieldName_eq]
    · rintro rfl
      exact .cons (seeks_iff.mpr (fieldName_eq _ _)) (ih.mpr rfl)

/-- Any names are the names of some bindings. -/
theorem exists_map_eq (names : List String) :
    ∃ (nameOf : BindingId → String) (members : List BindingId), members.map nameOf = names := by
  refine ⟨fun i => names.getD i "", List.range names.length, List.ext_getElem (by simp) ?_⟩
  intro i hi hi'
  simp [hi']

/-- Every collection gets a field. -/
theorem length_chooseFields : (chooseFields nameOf taken members).length = members.length := by
  have hkeys : (chooseFields nameOf taken members).map (·.1) = members :=
    MergePlan.map_fst_chooseFields
  rw [← congrArg List.length hkeys, List.length_map]

/-- A field that is chosen is plain. -/
theorem isPlain_of_mem_chooseFields {entry : BindingId × String}
    (h : entry ∈ chooseFields nameOf taken members) : IsPlain entry.2 := by
  obtain ⟨taken', heq⟩ := MergePlan.exists_fieldName_of_chooseFields h
  rw [heq, fieldName_eq]
  exact isPlain_fresh (isPlain_fieldBase _) taken'

/-- **The names that are chosen differ.**  Whatever some collections are called, the choice of their
fields ends in exactly one way: with as many plain names, no two of which are the same; the fields
of a plan are chosen so.  And whatever a collection is called and whichever names are in use, the
search for the name of the records ends in exactly one way: with a plain name that is not in use, and
which is numbered only if it has to be, with the least number that will do. -/
theorem chosen_names_distinct :
    (∀ collections : List String, ∃ fields : List String,
      (∀ result, ChoosesFields [] collections result ↔ result = fields) ∧
        fields.length = collections.length ∧ fields.Nodup ∧ ∀ field ∈ fields, IsPlain field) ∧
      (∀ (nameOf : BindingId → String) (members : List BindingId),
        ChoosesFields [] (members.map nameOf) ((chooseFields nameOf [] members).map (·.2))) ∧
      ∀ (anchor : String) (existing : List String),
        let base := groupBase anchor
        let name := groupName anchor existing
        (∀ result, Seeks base existing base 2 result ↔ result = name) ∧
          IsPlain name ∧ name ∉ existing ∧
          (base ∉ existing ∧ name = base ∨ base ∈ existing ∧ ∃ n,
            IsLeast {k | 2 ≤ k ∧ numbered base k ∉ existing} n ∧ name = numbered base n) := by
  refine ⟨fun collections => ?_, fun _ _ => choosesFields_iff.mpr rfl, fun anchor existing => ?_⟩
  · obtain ⟨nameOf, members, rfl⟩ := exists_map_eq collections
    refine ⟨_, fun result => choosesFields_iff, ?_, MergePlan.nodup_chooseFields, ?_⟩
    · rw [List.length_map, List.length_map, length_chooseFields]
    · intro field hfield
      obtain ⟨entry, hentry, rfl⟩ := List.mem_map.mp hfield
      exact isPlain_of_mem_chooseFields hentry
  · exact ⟨fun result => seeks_iff, isPlain_groupName anchor existing, fresh_notMem _ _,
      fresh_least_cases _ _⟩

/-- Names that differ in what is no part of a plain name get the same field but for the number. -/
example : (chooseFields (fun i => ["éas", "as", "és"].getD i "") [] [0, 1, 2]).map (·.2) =
    ["a", "a2", "value"] := by
  decide +kernel

end Declutter
