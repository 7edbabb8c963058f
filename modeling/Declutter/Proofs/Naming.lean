import Mathlib.Data.List.DropRight
import Mathlib.Data.List.Nodup
import Mathlib.Data.List.Perm.Subperm
import Declutter.Naming

/-!
# Names that are fresh

A name that is taken is numbered, with the least number from two on that makes it fresh.  As the
names of merged collections end in a letter before they are numbered, the number can be told from
the rest, and names made from different words differ however they are numbered.

## Main definitions

* `unnumbered` — a name without the digits at its end.
* `groupBase` — the name of a merged collection before it is numbered.

## Main results

* `fresh_cases`, `fresh_induction`, `fresh_notMem` — the name that is chosen, what holds of it, and
  that it is not taken.
* `fresh_eq_fresh_iff` — names that end in no digit, numbered or not, are the same only if they
  are the same without numbers.
* `groupName_eq_groupName_iff` — when two merged collections get the same name.
-/

namespace Declutter

/-! ### Numbers as text -/

/-- A number can be told from its digits. -/
theorem toString_injective : Function.Injective (toString : Nat → String) := by
  intro m n h
  rw [Nat.toString_eq_repr, Nat.toString_eq_repr, ← String.toList_inj, Nat.toList_repr,
    Nat.toList_repr] at h
  calc
    m = Nat.ofDigitChars 10 (Nat.toDigits 10 m) 0 := Nat.ofDigitChars_ten_toDigits.symm
    _ = Nat.ofDigitChars 10 (Nat.toDigits 10 n) 0 := by rw [h]
    _ = n := Nat.ofDigitChars_ten_toDigits

theorem isDigit_of_mem_toString {n : Nat} {c : Char} (h : c ∈ (toString n).toList) :
    c.isDigit = true := by
  rw [Nat.toString_eq_repr, Nat.toList_repr] at h
  exact Nat.isDigit_of_mem_toDigits (by decide) (by decide) h

theorem numbered_injective (base : String) : Function.Injective (numbered base) := by
  intro m n h
  have hlists := congrArg String.toList h
  simp only [numbered, String.toList_append] at hlists
  exact toString_injective (String.toList_inj.mp (List.append_cancel_left hlists))

/-! ### The choice of a number -/

section

variable {base : String} {taken : List String}

/-- Numbers that are all in use are no more than the names that are taken. -/
theorem le_length_of_taken {n count : Nat}
    (h : ∀ k, n ≤ k → k < n + count → numbered base k ∈ taken) : count ≤ taken.length := by
  have hnodup : ((List.range' n count).map (numbered base)).Nodup :=
    List.Nodup.map (numbered_injective base) List.nodup_range'
  have hsubset : (List.range' n count).map (numbered base) ⊆ taken := by
    intro name hname
    obtain ⟨k, hk, rfl⟩ := List.mem_map.mp hname
    obtain ⟨hle, hlt⟩ := List.mem_range'_1.mp hk
    exact h k hle hlt
  simpa using (List.subperm_of_subset hnodup hsubset).length_le

/-- The numbers are tried one after the other. -/
theorem exists_of_freshFrom (base : String) (taken : List String) (tries n : Nat) :
    ∃ k, n ≤ k ∧ freshFrom base taken tries n = numbered base k ∧
      (∀ j, n ≤ j → j < k → numbered base j ∈ taken) ∧
      (numbered base k ∈ taken → k = n + tries) := by
  induction tries generalizing n with
  | zero => exact ⟨n, Nat.le_refl n, rfl, by omega, fun _ => rfl⟩
  | succ tries ih =>
    rw [freshFrom]
    by_cases htaken : taken.contains (numbered base n) = true
    · rw [if_pos htaken]
      obtain ⟨k, hle, heq, hbefore, hlast⟩ := ih (n + 1)
      refine ⟨k, by omega, heq, ?_, fun hk => by have := hlast hk; omega⟩
      intro j hj hlt
      rcases Nat.eq_or_lt_of_le hj with rfl | hj
      · simpa using htaken
      · exact hbefore j hj hlt
    · rw [if_neg htaken]
      refine ⟨n, Nat.le_refl n, rfl, by omega, fun h => ?_⟩
      exact absurd (List.contains_iff_mem.mpr h) htaken

/-- **The name that is chosen** is the name itself if it is not taken, and else the one with the
least number from two on that is not. -/
theorem fresh_cases (base : String) (taken : List String) :
    base ∉ taken ∧ fresh base taken = base ∨
      base ∈ taken ∧ ∃ n, 2 ≤ n ∧ fresh base taken = numbered base n ∧
        numbered base n ∉ taken ∧ ∀ k, 2 ≤ k → k < n → numbered base k ∈ taken := by
  by_cases htaken : base ∈ taken
  · obtain ⟨n, hle, heq, hbefore, hlast⟩ := exists_of_freshFrom base taken taken.length 2
    refine .inr ⟨htaken, n, hle, ?_, fun hn => ?_, hbefore⟩
    · rw [fresh, if_pos (List.contains_iff_mem.mpr htaken), heq]
    · -- Otherwise more numbers would be in use than names are taken.
      have hall : ∀ k, 2 ≤ k → k < 2 + (taken.length + 1) → numbered base k ∈ taken := by
        intro k hk hlt
        rcases Nat.lt_or_ge k n with hlt' | hge
        · exact hbefore k hk hlt'
        · obtain rfl : k = n := by have := hlast hn; omega
          exact hn
      have := le_length_of_taken hall
      omega
  · refine .inl ⟨htaken, ?_⟩
    rw [fresh, if_neg (by simpa using htaken)]

/-- What holds of a name, with any number and without one, holds of the fresh name. -/
theorem fresh_induction {P : String → Prop} {base : String} (hbase : P base)
    (hnumbered : ∀ n, P (numbered base n)) (taken : List String) : P (fresh base taken) := by
  obtain ⟨-, heq⟩ | ⟨-, n, -, heq, -⟩ := fresh_cases base taken
  · rw [heq]
    exact hbase
  · rw [heq]
    exact hnumbered n

theorem fresh_eq_of_ne {base : String} {taken : List String}
    (h : ∀ n, fresh base taken ≠ numbered base n) : fresh base taken = base := by
  obtain ⟨-, heq⟩ | ⟨-, n, -, heq, -⟩ := fresh_cases base taken
  · exact heq
  · exact absurd heq (h n)

theorem fresh_notMem (base : String) (taken : List String) : fresh base taken ∉ taken := by
  obtain ⟨hbase, heq⟩ | ⟨-, n, -, heq, hn, -⟩ := fresh_cases base taken
  · rw [heq]
    exact hbase
  · rw [heq]
    exact hn

end

/-! ### Telling the number from the rest -/

/-- A name without the digits at its end. -/
def unnumbered (name : String) : String := String.ofList (name.toList.rdropWhile Char.isDigit)

theorem unnumbered_numbered (base : String) (n : Nat) :
    unnumbered (numbered base n) = unnumbered base := by
  have hdrop (digits : List Char) (h : ∀ d ∈ digits, d.isDigit = true) (front : List Char) :
      (front ++ digits).rdropWhile Char.isDigit = front.rdropWhile Char.isDigit := by
    induction digits using List.reverseRecOn with
    | nil => simp
    | append_singleton digits d ih =>
      rw [← List.append_assoc, List.rdropWhile_concat_pos _ _ _ (h d (by simp))]
      exact ih fun e he => h e (by simp [he])
  unfold unnumbered numbered
  rw [String.toList_append, hdrop _ fun d hd => isDigit_of_mem_toString hd]

theorem unnumbered_fresh (base : String) (taken : List String) :
    unnumbered (fresh base taken) = unnumbered base :=
  fresh_induction (P := fun name => unnumbered name = unnumbered base) rfl
    (unnumbered_numbered base) taken

/-- A name that ends in no digit has no number. -/
theorem unnumbered_append (name : String) {word : String}
    (hword : ∃ front c, word.toList = front ++ [c] ∧ c.isDigit = false) :
    unnumbered (name ++ word) = name ++ word := by
  obtain ⟨front, c, hword, hc⟩ := hword
  unfold unnumbered
  rw [String.toList_append, hword, ← List.append_assoc,
    List.rdropWhile_concat_neg _ _ _ (by simp [hc]), List.append_assoc, ← hword,
    ← String.toList_append, String.ofList_toList]

/-- **Numbers do not make different names the same**, provided that these end in no digit. -/
theorem fresh_eq_fresh_iff {a b : String} (ha : unnumbered a = a) (hb : unnumbered b = b)
    (taken : List String) : fresh a taken = fresh b taken ↔ a = b := by
  constructor
  · intro h
    rw [← ha, ← hb, ← unnumbered_fresh a taken, h, unnumbered_fresh]
  · rintro rfl
    rfl

/-- The name of a collection of records before it is numbered. -/
def groupBase (anchor : String) : String := toIdentifier (singularize anchor ++ "Records") "merged"

theorem groupName_eq (anchor : String) (taken : List String) :
    groupName anchor taken = fresh (groupBase anchor) taken := rfl

/-- The name of a collection of records says that it is one. -/
theorem exists_groupBase_eq (anchor : String) : ∃ front, groupBase anchor = front ++ "Records" := by
  have hfilter : (singularize anchor ++ "Records").toList.filter isIdentifierChar =
      (singularize anchor).toList.filter isIdentifierChar ++ "Records".toList := by
    rw [String.toList_append, List.filter_append]
    rfl
  unfold groupBase toIdentifier
  rw [hfilter]
  split
  · rename_i hnil
    simp at hnil
  · rename_i c rest hcons
    rw [← hcons, String.ofList_append, String.ofList_toList]
    split
    · exact ⟨_, (String.append_assoc ..).symm⟩
    · exact ⟨_, rfl⟩

theorem unnumbered_groupBase (anchor : String) :
    unnumbered (groupBase anchor) = groupBase anchor := by
  obtain ⟨front, heq⟩ := exists_groupBase_eq anchor
  rw [heq]
  exact unnumbered_append front ⟨"Record".toList, 's', rfl, rfl⟩

/-- **Two merged collections get the same name** exactly when the names of their anchors give the
same word. -/
theorem groupName_eq_groupName_iff (a b : String) (taken : List String) :
    groupName a taken = groupName b taken ↔ groupBase a = groupBase b := by
  rw [groupName_eq, groupName_eq]
  exact fresh_eq_fresh_iff (unnumbered_groupBase a) (unnumbered_groupBase b) taken

end Declutter
