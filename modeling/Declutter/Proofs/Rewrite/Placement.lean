import Declutter.Proofs.Splice
import Declutter.Proofs.Syntax.Numbering
import Declutter.Proofs.Text.Line
import Declutter.Proofs.Text.Utf8
import Declutter.Rewrite.Removal

/-!
# Where edits are placed

An edit of a text must replace whole characters.  The edits of a rewrite replace constructs, or
remove statements with what surrounds them on their lines; line breaks and blanks are single
bytes, so the ends of lines and of indentations lie between characters whenever the constructs
do.

## Main definitions

* `Span.IsPlaced` — whether a span covers whole characters.
* `Tree.GrammarShaped` — what the grammars promise of their trees.
* `Tree.Places` — whether an edit replaces whole characters of a program.

## Main results

* `Tree.GrammarShaped.places_removal` — the removal of a statement does.
* `Edit.exists_encodeAll_splice` — edits that replace whole characters lead from text to text.
-/

namespace Declutter

open Utf8

/-! ### Lines -/

namespace Bytes

variable {cs : List Char} {i : Nat}

/-- A line begins between two characters. -/
theorem isBoundary_lineStart (cs : List Char) (i : Nat) :
    IsBoundary (encodeAll cs) (lineStart (encodeAll cs) i) := by
  rcases Nat.eq_zero_or_pos (lineStart (encodeAll cs) i) with hzero | hpos
  · rw [hzero]
    exact isBoundary_zero cs
  · have hbefore := isBoundary_of_ascii (getElem?_before_lineStart hpos) (by decide)
    rw [Nat.sub_add_cancel hpos] at hbefore
    exact hbefore.2

/-- A line with its line break ends between two characters. -/
theorem isBoundary_lineEnd (cs : List Char) (i : Nat) :
    IsBoundary (encodeAll cs) (min (lineEnd (encodeAll cs) i + 1) (encodeAll cs).length) := by
  rcases Nat.lt_or_ge (lineEnd (encodeAll cs) i) (encodeAll cs).length with hlt | hge
  · rw [Nat.min_eq_left hlt]
    have hget := List.getElem?_eq_getElem hlt
    rw [eq_newline_of_lineEnd hget] at hget
    exact (isBoundary_of_ascii hget (by decide)).2
  · rw [Nat.min_eq_right (by omega)]
    exact isBoundary_length cs

/-- The blanks behind a boundary end at a boundary. -/
theorem isBoundary_indent (hi : IsBoundary (encodeAll cs) i) :
    IsBoundary (encodeAll cs) (i + (((encodeAll cs).drop i).takeWhile isIndent).length) := by
  cases hlen : (((encodeAll cs).drop i).takeWhile isIndent).length with
  | zero => exact hi
  | succ n =>
    -- The last of them is a single byte.
    have hlt : i + n < (encodeAll cs).length := by
      have hle := (List.takeWhile_prefix isIndent (l := (encodeAll cs).drop i)).length_le
      rw [hlen, List.length_drop] at hle
      omega
    have hget := List.getElem?_eq_getElem hlt
    have hindent := of_takeWhile_drop (p := isIndent) hget (Nat.le_add_right i n) (by omega)
    simp only [isIndent, Bool.or_eq_true, beq_iff_eq] at hindent
    refine (isBoundary_of_ascii hget ?_).2
    rcases hindent with h | h <;> rw [h] <;> decide

end Bytes

/-! ### What the grammars promise -/

/-- Whether a span covers whole characters of a source. -/
def Span.IsPlaced (source : Bytes) (s : Span) : Prop :=
  s.start ≤ s.stop ∧ IsBoundary source s.start ∧ IsBoundary source s.stop

/-- What the grammars promise of the trees they make: a program is the root; constructs and
comments cover whole characters of a text; an expression statement consists of one expression; a
function and a loop have one body; and a call has one list of arguments. -/
structure Tree.GrammarShaped (t : Tree) : Prop where
  root : t.kind 0 = .program
  node_placed : (decode? t.source).isSome → ∀ i < t.nodes.size, (t.span i).IsPlaced t.source
  comment_placed : (decode? t.source).isSome → ∀ c ∈ t.comments, c.span.IsPlaced t.source
  statement : ∀ i, t.kind i = .expressionStatement → ∃ c, t.children i = [c]
  body : ∀ i, t.kind i = .function ∨ t.kind i = .forStatement ∨ t.kind i = .forInStatement →
    ∀ c ∈ t.children i, ∀ d ∈ t.children i,
      t.hasField c "body" = true → t.hasField d "body" = true → c = d
  arguments : ∀ i, t.kind i = .call → ∀ c ∈ t.children i, ∀ d ∈ t.children i,
    t.kind c = .arguments → t.kind d = .arguments → c = d

/-- Whether an edit replaces whole characters of a program, if that is text. -/
def Tree.Places (t : Tree) (e : Edit) : Prop :=
  (decode? t.source).isSome → e.span.IsPlaced t.source

theorem exists_encodeAll_of_isSome {s : Bytes} (h : (decode? s).isSome) :
    ∃ cs, s = encodeAll cs := by
  obtain ⟨text, htext⟩ := Option.isSome_iff_exists.mp h
  exact ⟨text.toList, (encode_of_decode? htext).symm⟩

namespace Tree.GrammarShaped

variable {t : Tree} (h : t.GrammarShaped)
include h

/-- The span of a construct is placed; so is that of a number without construct. -/
theorem span_placed (htext : (decode? t.source).isSome) (i : NodeId) :
    (t.span i).IsPlaced t.source := by
  rcases Nat.lt_or_ge i t.nodes.size with hi | hi
  · exact h.node_placed htext i hi
  · obtain ⟨cs, hcs⟩ := exists_encodeAll_of_isSome htext
    rw [span, node_of_size_le hi, hcs]
    exact ⟨Nat.le_refl 0, isBoundary_zero cs, isBoundary_zero cs⟩

theorem places_node (i : NodeId) (text : String) : t.Places ⟨t.span i, text⟩ :=
  fun htext => h.span_placed htext i

/-- A trailing comment lies behind its statement. -/
theorem tailStop_placed (htext : (decode? t.source).isSome) (i : NodeId) :
    (t.span i).stop ≤ t.tailStop i ∧ IsBoundary t.source (t.tailStop i) := by
  rw [tailStop]
  cases hc : t.trailingComment? i with
  | none => exact ⟨Nat.le_refl _, (h.span_placed htext i).2.2⟩
  | some c =>
    have hmem := List.mem_of_find?_eq_some hc
    have hbehind := List.find?_some hc
    simp only [Bool.and_eq_true, decide_eq_true_eq] at hbehind
    obtain ⟨hle, -, hstop⟩ := h.comment_placed htext c hmem
    exact ⟨Nat.le_trans hbehind.1.2 hle, hstop⟩

/-- **The removal of a statement replaces whole characters.** -/
theorem places_removal (marker : String) (i : NodeId) : t.Places (t.removal marker i) := by
  intro htext
  obtain ⟨cs, hcs⟩ := exists_encodeAll_of_isSome htext
  obtain ⟨hle, hstart, hstop⟩ := h.span_placed htext i
  obtain ⟨hbehind, htail⟩ := h.tailStop_placed htext i
  rw [removal]
  split
  · change (Span.ofOffsets t.source _ _).IsPlaced t.source
    rw [hcs] at hstart hstop htail ⊢
    have hline := Bytes.isBoundary_lineStart cs (t.span i).start
    have hlineLe := Bytes.lineStart_le (encodeAll cs) (t.span i).start
    have hend := Bytes.isBoundary_lineEnd cs (t.tailStop i)
    have hendLe := Bytes.le_lineEnd (encodeAll cs) (t.tailStop i)
    refine ⟨?_, hline, hend⟩
    have := htail.le
    simp only [Span.ofOffsets]
    omega
  · change (Span.ofOffsets t.source _ _).IsPlaced t.source
    rw [hcs] at hstart hstop htail ⊢
    have hblanks := Bytes.isBoundary_indent hstop
    simp only [Span.IsPlaced, Span.ofOffsets]
    split
    · refine ⟨by omega, hstart, ?_⟩
      rcases Nat.le_total (t.tailStop i)
        ((t.span i).stop + (((encodeAll cs).drop (t.span i).stop).takeWhile
          Bytes.isIndent).length) with hle | hle
      · rwa [Nat.max_eq_left hle]
      · rwa [Nat.max_eq_right hle]
    · exact ⟨by omega, hstart, hblanks⟩

end Tree.GrammarShaped

/-! ### From text to text -/

/-- **Edits that replace whole characters lead from text to text.** -/
theorem Edit.exists_encodeAll_splice {source : Bytes} {offset stop : Nat} {es : List Edit}
    (hes : ∀ e ∈ es, e.span.IsPlaced source) (hoffset : IsBoundary source offset)
    (hstop : IsBoundary source stop) (hfits : Fits offset stop es) :
    ∃ cs, splice source offset stop es = encodeAll cs := by
  induction es generalizing offset with
  | nil => exact hoffset.exists_slice hstop hfits
  | cons e es ih =>
    obtain ⟨hle, -, hrest⟩ := hfits
    obtain ⟨-, hstart, hend⟩ := hes e (.head _)
    obtain ⟨before, hbefore⟩ := hoffset.exists_slice hstart hle
    obtain ⟨after, hafter⟩ := ih (fun d hd => hes d (.tail _ hd)) hend hrest
    refine ⟨before ++ e.replacement.toList ++ after, ?_⟩
    rw [splice, hbefore, hafter, encode_eq, encodeAll_append, encodeAll_append]

end Declutter
