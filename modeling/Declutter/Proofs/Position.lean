import Mathlib.Data.List.MinMax
import Mathlib.Data.Prod.Lex
import Mathlib.Order.Bounds.Defs
import Mathlib.Order.Monotone.Basic
import Declutter.Proofs.Naming
import Declutter.Proofs.Syntax.Numbering
import Declutter.Proofs.Text.Line

/-!
# Lines and columns

A position advances with each byte: behind a line break the next line begins, behind any other byte
and past the end of the text the next column follows.  So positions ascend with the offsets, an
offset can be told from its position, and a span of a text from how it is written.  The union of
spans takes its start from one and its end from another; as each of the two says where it lies, so
does the union.

## Main definitions

* `Position.key` — the order of positions.
* `Span.LiesIn` — whether a span says where its offsets lie in a text.

## Main results

* `Position.of_zero`, `Position.of_succ` — where positions begin, and how they advance.
* `Span.format_eq_iff` — what a span says of where it lies can be told from how it is written.
* `Span.union_eq` — the union of spans has the offsets of two of them.
* `Span.positions_faithful` — lines and columns stand for offsets.
* `Tree.liesIn_span` — the spans of a program say where they lie in its source.
-/

namespace Declutter

/-! ### How positions advance -/

namespace Position

protected theorem ext {p q : Position} (hline : p.line = q.line) (hcolumn : p.column = q.column) :
    p = q := by
  cases p
  cases q
  cases hline
  cases hcolumn
  rfl

/-- The order of positions: by line, then by column. -/
def key (p : Position) : Lex (Nat × Nat) := toLex (p.line, p.column)

theorem of_zero (source : Bytes) : of source 0 = ⟨1, 1⟩ := rfl

/-- **How a position advances**: to the beginning of the next line behind a line break, and else to
the next column. -/
theorem of_succ (source : Bytes) (offset : Nat) :
    of source (offset + 1) =
      if source[offset]? = some Bytes.newline then ⟨(of source offset).line + 1, 1⟩
      else ⟨(of source offset).line, (of source offset).column + 1⟩ := by
  split
  · rename_i hbreak
    simp [of, List.take_add_one, hbreak, Bytes.lineStart_succ_of_newline hbreak]
  · rename_i hbreak
    have hcount : source[offset]?.toList.count Bytes.newline = 0 := by
      rw [List.count_eq_zero, Option.mem_toList]
      exact hbreak
    have hle := Bytes.lineStart_le source offset
    have hcolumn : offset + 1 - Bytes.lineStart source offset =
        offset - Bytes.lineStart source offset + 1 := Nat.sub_add_comm hle
    simp only [of, List.take_add_one, List.count_append, hcount, Nat.add_zero,
      Bytes.lineStart_succ_of_ne hbreak, hcolumn]

/-- **Positions ascend** with the offsets. -/
theorem strictMono_of (source : Bytes) : StrictMono fun offset => (of source offset).key := by
  refine strictMono_nat_of_lt_succ fun offset => Prod.Lex.toLex_lt_toLex.mpr ?_
  rw [of_succ]
  split
  · exact .inl (Nat.lt_succ_self _)
  · exact .inr ⟨rfl, Nat.lt_succ_self _⟩

/-- An offset can be told from its position. -/
theorem of_injective (source : Bytes) : Function.Injective (of source) :=
  fun _ _ h => (strictMono_of source).injective (congrArg key h)

end Position

/-! ### How spans are written -/

/-- Two texts around a character that neither contains can be told from the whole. -/
theorem append_eq_append_iff_of_separator {a b a' b' separator : String} {c : Char}
    (hseparator : separator.toList = [c]) (ha : c ∉ a.toList) (hb : c ∉ b.toList) :
    a ++ separator ++ b = a' ++ separator ++ b' ↔ a = a' ∧ b = b' := by
  rw [← String.toList_inj, String.toList_append, String.toList_append, String.toList_append,
    String.toList_append, hseparator, List.append_assoc, List.append_assoc, List.singleton_append,
    List.singleton_append, List.append_cons_inj_of_notMem ha hb, String.toList_inj,
    String.toList_inj]
  simp only [true_and]

/-- A character that is no digit stands in no number. -/
theorem notMem_toString {c : Char} (hc : c.isDigit = false) (n : Nat) :
    c ∉ (toString n).toList := by
  intro h
  rw [isDigit_of_mem_toString h] at hc
  cases hc

/-- A position as text. -/
def Position.format (p : Position) : String := toString p.line ++ ":" ++ toString p.column

theorem Position.format_injective : Function.Injective Position.format := by
  intro p q h
  obtain ⟨hline, hcolumn⟩ := (append_eq_append_iff_of_separator rfl
    (notMem_toString (c := ':') (by decide) _) (notMem_toString (by decide) _)).mp h
  exact Position.ext (toString_injective hline) (toString_injective hcolumn)

/-- The dash of a span stands in no position. -/
theorem Position.dash_notMem (p : Position) : '-' ∉ p.format.toList := by
  have hdigits := notMem_toString (c := '-') (by decide)
  rw [Position.format, String.toList_append, String.toList_append, List.mem_append, List.mem_append]
  rintro ((hline | hcolon) | hcolumn)
  · exact hdigits _ hline
  · exact absurd hcolon (by decide)
  · exact hdigits _ hcolumn

namespace Span

theorem format_eq (s : Span) : s.format = s.first.format ++ "-" ++ s.last.format := by
  simp only [format, Position.format, toString, String.append_assoc]

/-- **What a span says of where it lies** can be told from how it is written. -/
theorem format_eq_iff (s t : Span) : s.format = t.format ↔ s.first = t.first ∧ s.last = t.last := by
  rw [format_eq, format_eq, append_eq_append_iff_of_separator rfl s.first.dash_notMem
    s.last.dash_notMem, Position.format_injective.eq_iff, Position.format_injective.eq_iff]

/-- Whether a span says where its offsets lie in a text. -/
def LiesIn (s : Span) (source : Bytes) : Prop := ∃ start stop, s = .ofOffsets source start stop

variable {s t : Span} {source : Bytes}

theorem LiesIn.eq (h : s.LiesIn source) : s = .ofOffsets source s.start s.stop := by
  obtain ⟨start, stop, rfl⟩ := h
  rfl

theorem LiesIn.format_eq_iff (hs : s.LiesIn source) (ht : t.LiesIn source) :
    s.format = t.format ↔ s.start = t.start ∧ s.stop = t.stop := by
  obtain ⟨start, stop, rfl⟩ := hs
  obtain ⟨start', stop', rfl⟩ := ht
  rw [Span.format_eq_iff]
  exact and_congr (Position.of_injective source).eq_iff (Position.of_injective source).eq_iff

/-! ### Unions -/

/-- The span that starts first, the first of several. -/
theorem argmin_start (s : Span) (rest : List Span) :
    (s :: rest).argmin start = some (rest.foldl earlier s) := by
  refine List.foldl_hom some fun a b => ?_
  simp only [List.argAux, earlier]
  split <;> rfl

/-- The span that stops last, the first of several. -/
theorem argmax_stop (s : Span) (rest : List Span) :
    (s :: rest).argmax stop = some (rest.foldl later s) := by
  refine List.foldl_hom some fun a b => ?_
  simp only [List.argAux, later]
  split <;> rfl

/-- **The union of spans** has the start of one that starts first, and the end of one that stops
last. -/
theorem union_eq (s : Span) (rest : List Span) :
    ∃ a ∈ s :: rest, ∃ b ∈ s :: rest, (∀ x ∈ s :: rest, a.start ≤ x.start) ∧
      (∀ x ∈ s :: rest, x.stop ≤ b.stop) ∧ s.union rest = ⟨a.start, b.stop, a.first, b.last⟩ := by
  have hleft := Option.mem_def.mpr (argmin_start s rest)
  have hright := Option.mem_def.mpr (argmax_stop s rest)
  exact ⟨_, List.argmin_mem hleft, _, List.argmax_mem hright,
    fun x hx => List.le_of_mem_argmin hx hleft, fun x hx => List.le_of_mem_argmax hx hright, rfl⟩

/-- The union of spans of a text is the span from the least start to the greatest end. -/
theorem union_of_liesIn {rest : List Span} (h : ∀ x ∈ s :: rest, x.LiesIn source) :
    ∃ least greatest, IsLeast {k | ∃ x ∈ s :: rest, x.start = k} least ∧
      IsGreatest {k | ∃ x ∈ s :: rest, x.stop = k} greatest ∧
      s.union rest = .ofOffsets source least greatest := by
  obtain ⟨a, ha, b, hb, hleast, hgreatest, hunion⟩ := union_eq s rest
  refine ⟨a.start, b.stop, ⟨⟨a, ha, rfl⟩, ?_⟩, ⟨⟨b, hb, rfl⟩, ?_⟩, ?_⟩
  · rintro k ⟨x, hx, rfl⟩
    exact hleast x hx
  · rintro k ⟨x, hx, rfl⟩
    exact hgreatest x hx
  · rw [hunion, (h a ha).eq, (h b hb).eq]
    rfl

end Span

/-! ### The spans of a program -/

namespace Outline

variable {source : Bytes} {n : Node}

mutual

theorem liesIn_of_mem_nodes {parent : Option NodeId} {i : NodeId} {o : Outline}
    (h : n ∈ o.nodes source parent i) : n.span.LiesIn source := by
  cases o with
  | node l children =>
    rw [nodes] at h
    rcases List.mem_cons.mp h with rfl | h
    · exact ⟨l.start, l.stop, rfl⟩
    · exact liesIn_of_mem_nodesAll h

theorem liesIn_of_mem_nodesAll {parent i : NodeId} {os : List Outline}
    (h : n ∈ nodesAll source parent i os) : n.span.LiesIn source := by
  cases os with
  | nil => cases h
  | cons o rest =>
    rw [nodesAll] at h
    rcases List.mem_append.mp h with h | h
    · exact liesIn_of_mem_nodes h
    · exact liesIn_of_mem_nodesAll h

end

end Outline

/-- **The spans of a program** say where they lie in its source. -/
theorem Tree.liesIn_span (l : Language) (source : Bytes) (root : Concrete) {i : NodeId}
    (hi : i < (ofConcrete l source root).nodes.size) :
    ((ofConcrete l source root).span i).LiesIn source := by
  obtain ⟨hsize, hnode⟩ := node_ofConcrete l source root
  rw [hsize] at hi
  have hlies := Outline.liesIn_of_mem_nodes
    (List.get_mem (root.outline.nodes source none 0) ⟨i, by rwa [Outline.length_nodes]⟩)
  rw [span, hnode i hi]
  exact hlies

namespace Span

/-- **Lines and columns stand for offsets.**  The position of an offset ascends with the offset, past
the end of the text too; so spans of one text that are written alike have the same offsets.  The
union of spans of one text, in any order, is the span from the least start to the greatest end.  The
spans of a program are spans of its source. -/
theorem positions_faithful (source : Bytes) :
    (StrictMono fun offset => (Position.of source offset).key) ∧
      (∀ s t : Span, s.LiesIn source → t.LiesIn source →
        (s.format = t.format ↔ s.start = t.start ∧ s.stop = t.stop)) ∧
      (∀ (s : Span) (rest : List Span), (∀ x ∈ s :: rest, x.LiesIn source) →
        ∃ least greatest, IsLeast {k | ∃ x ∈ s :: rest, x.start = k} least ∧
          IsGreatest {k | ∃ x ∈ s :: rest, x.stop = k} greatest ∧
          s.union rest = .ofOffsets source least greatest) ∧
      ∀ (l : Language) (root : Concrete),
        ∀ i < (Tree.ofConcrete l source root).nodes.size,
          ((Tree.ofConcrete l source root).span i).LiesIn source :=
  ⟨Position.strictMono_of source, fun _ _ => LiesIn.format_eq_iff, fun _ _ => union_of_liesIn,
    fun l root _ => Tree.liesIn_span l source root⟩

/-- Three spans over two lines, which overlap and touch, and one of which goes on past the end. -/
theorem sample_positions :
    let source := Utf8.encode "a\nbc"
    let s := ofOffsets source 2 4
    let rest := [ofOffsets source 0 3, ofOffsets source 3 9]
    (∀ x ∈ s :: rest, x.LiesIn source) ∧ (∀ x ∈ rest, s.format ≠ x.format) ∧
      s.union rest = .ofOffsets source 0 9 := by
  intro source s rest
  have hall : ∀ x ∈ s :: rest, x.LiesIn source := by
    simp [s, rest, LiesIn]
  obtain ⟨-, hformat, hunion, -⟩ := positions_faithful source
  obtain ⟨least, greatest, hleast, hgreatest, hunion⟩ := hunion s rest hall
  have hzero : IsLeast {k | ∃ x ∈ s :: rest, x.start = k} 0 :=
    ⟨⟨ofOffsets source 0 3, by simp [rest], rfl⟩, fun k _ => Nat.zero_le k⟩
  have hnine : IsGreatest {k | ∃ x ∈ s :: rest, x.stop = k} 9 := by
    refine ⟨⟨ofOffsets source 3 9, by simp [rest], rfl⟩, ?_⟩
    rintro k ⟨x, hx, rfl⟩
    exact (by decide : ∀ x ∈ s :: rest, x.stop ≤ 9) x hx
  refine ⟨hall, fun x hx heq => ?_, ?_⟩
  · have hoffsets := (hformat s x (hall s (.head _)) (hall x (.tail _ hx))).mp heq
    exact (by decide : ∀ x ∈ rest, ¬ (s.start = x.start ∧ s.stop = x.stop)) x hx hoffsets
  · rw [hunion, hleast.unique hzero, hgreatest.unique hnine]

end Span

end Declutter
