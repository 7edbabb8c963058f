import Mathlib.Data.List.TakeWhile
import Declutter.Text.Bytes

/-!
# Lines

Where the line of an offset begins and what precedes the offset on it, from one byte to the next: a
line break begins a line, any other byte goes on with it, and past the end of the text nothing
changes.

## Main results

* `Bytes.lineStart_succ_of_newline`, `Bytes.lineStart_succ_of_ne` — where the next byte has its line.
* `Bytes.getElem?_before_lineStart`, `Bytes.eq_newline_of_lineEnd` — a line lies between line breaks.
* `Bytes.linePrefix_eq_slice` — what precedes an offset on its line, as a range of the text.
-/

namespace Declutter.Bytes

variable {s : Bytes} {b : UInt8} {i k start stop : Nat}

/-! ### Ranges -/

theorem mem_slice (hget : s[k]? = some b) (hstart : start ≤ k) (hstop : k < stop) :
    b ∈ slice s start stop := by
  refine List.mem_of_getElem? (i := k - start) ?_
  rw [slice, List.getElem?_take_of_lt (by omega), List.getElem?_drop, Nat.add_sub_cancel' hstart]
  exact hget

/-- What ends the longest run of bytes of a sort is not of that sort. -/
theorem eq_false_of_takeWhile {p : UInt8 → Bool} (hget : s[(s.takeWhile p).length]? = some b) :
    p b = false := by
  induction s with
  | nil => cases hget
  | cons c rest ih =>
    cases hc : p c with
    | true =>
      rw [List.takeWhile_cons_of_pos hc, List.length_cons, List.getElem?_cons_succ] at hget
      exact ih hget
    | false =>
      rw [List.takeWhile_cons_of_neg (by simp [hc]), List.length_nil, List.getElem?_cons_zero]
        at hget
      exact Option.some.inj hget ▸ hc

/-- A byte of the run that starts at an offset is of the sort of the run. -/
theorem of_takeWhile_drop {p : UInt8 → Bool} (hget : s[k]? = some b) (hstart : i ≤ k)
    (hk : k < i + ((s.drop i).takeWhile p).length) : p b = true := by
  have hlt : k - i < ((s.drop i).takeWhile p).length := by omega
  have hsame := List.prefix_iff_getElem?.mp (List.takeWhile_prefix p) (k - i) hlt
  rw [List.getElem?_drop, Nat.add_sub_cancel' hstart, hget, Option.some.injEq] at hsame
  rw [hsame]
  exact List.mem_takeWhile_imp (List.getElem_mem hlt)

/-! ### From one byte to the next -/

/-- Behind a line break nothing precedes on the line. -/
theorem linePrefix_succ_of_newline (hget : s[i]? = some newline) : linePrefix s (i + 1) = [] := by
  simp [linePrefix, List.take_add_one, hget]

/-- Any other byte precedes what follows it on its line. -/
theorem linePrefix_succ_of_ne (hget : s[i]? ≠ some newline) :
    linePrefix s (i + 1) = linePrefix s i ++ s[i]?.toList := by
  cases hb : s[i]? with
  | none => simp [linePrefix, List.take_add_one, hb]
  | some b =>
    have hne : b ≠ newline := fun h => hget (by rw [hb, h])
    simp [linePrefix, List.take_add_one, hb, hne]

/-- Behind a line break a line begins. -/
theorem lineStart_succ_of_newline (hget : s[i]? = some newline) : lineStart s (i + 1) = i + 1 := by
  obtain ⟨hi, -⟩ := List.getElem?_eq_some_iff.mp hget
  rw [lineStart, linePrefix_succ_of_newline hget, List.length_take]
  exact Nat.min_eq_left hi

/-- Behind any other byte the line goes on. -/
theorem lineStart_succ_of_ne (hget : s[i]? ≠ some newline) :
    lineStart s (i + 1) = lineStart s i := by
  rw [lineStart, linePrefix_succ_of_ne hget, List.take_add_one, List.length_append,
    List.length_append, Nat.add_sub_add_right, lineStart]

/-! ### Where lines begin and end -/

theorem lineStart_le (s : Bytes) (i : Nat) : lineStart s i ≤ i := by
  rw [lineStart, List.length_take]
  omega

theorem le_lineEnd (s : Bytes) (i : Nat) : i ≤ lineEnd s i := Nat.le_add_right _ _

/-- Before a line that is not the first one stands a line break. -/
theorem getElem?_before_lineStart (hpos : 0 < lineStart s i) :
    s[lineStart s i - 1]? = some newline := by
  induction i with
  | zero => exact absurd hpos (Nat.not_lt.mpr (lineStart_le s 0))
  | succ i ih =>
    by_cases hbreak : s[i]? = some newline
    · rw [lineStart_succ_of_newline hbreak, Nat.add_sub_cancel]
      exact hbreak
    · rw [lineStart_succ_of_ne hbreak] at hpos ⊢
      exact ih hpos

/-- Behind the line of an offset stands a line break. -/
theorem eq_newline_of_lineEnd (hget : s[lineEnd s i]? = some b) : b = newline := by
  rw [lineEnd, ← List.getElem?_drop] at hget
  simpa using eq_false_of_takeWhile hget

/-- The bytes before an offset are those before its line and those before it on its line. -/
theorem take_eq_append_linePrefix (s : Bytes) (i : Nat) :
    s.take i = s.take (lineStart s i) ++ linePrefix s i := by
  induction i with
  | zero => rfl
  | succ i ih =>
    by_cases hbreak : s[i]? = some newline
    · rw [lineStart_succ_of_newline hbreak, linePrefix_succ_of_newline hbreak, List.append_nil]
    · rw [lineStart_succ_of_ne hbreak, linePrefix_succ_of_ne hbreak, ← List.append_assoc, ← ih,
        List.take_add_one]

/-- The bytes before an offset on its line, as a range of the text. -/
theorem linePrefix_eq_slice (s : Bytes) (i : Nat) : linePrefix s i = slice s (lineStart s i) i := by
  have hdrop := congrArg (List.drop (s.take (lineStart s i)).length) (take_eq_append_linePrefix s i)
  rw [List.drop_left] at hdrop
  rw [← hdrop, slice, List.drop_take]
  by_cases hs : lineStart s i ≤ s.length
  · rw [List.length_take, Nat.min_eq_left hs]
  · have hle := lineStart_le s i
    rw [List.length_take, Nat.min_eq_right (by omega), List.drop_length, List.take_nil,
      List.drop_of_length_le (by omega), List.take_nil]

/-- The bytes from the start of a line on precede the offset on its line. -/
theorem mem_linePrefix (hget : s[k]? = some b) (hstart : lineStart s i ≤ k) (hk : k < i) :
    b ∈ linePrefix s i := by
  rw [linePrefix_eq_slice]
  exact mem_slice hget hstart hk

/-! ### Indentations -/

theorem length_indentation_le (s : Bytes) (i : Nat) :
    (indentation s i).length ≤ i - lineStart s i := by
  have hle := (List.takeWhile_prefix isIndent (l := linePrefix s i)).length_le
  rw [linePrefix_eq_slice, slice, List.length_take] at hle
  rw [indentation, linePrefix_eq_slice, slice]
  omega

/-- The indentation of a line, as a range of the text. -/
theorem indentation_eq_slice (s : Bytes) (i : Nat) :
    indentation s i = slice s (lineStart s i) (lineStart s i + (indentation s i).length) := by
  have htake := List.prefix_iff_eq_take.mp (List.takeWhile_prefix isIndent (l := linePrefix s i))
  have hle := length_indentation_le s i
  calc indentation s i = (linePrefix s i).take (indentation s i).length := htake
    _ = slice s (lineStart s i) (lineStart s i + (indentation s i).length) := by
      rw [linePrefix_eq_slice, slice, slice, List.take_take, Nat.min_eq_left hle,
        Nat.add_sub_cancel_left]

end Declutter.Bytes
