import Declutter.Text.Bytes

/-!
# Spans

A span is a range of source text: two byte offsets, the second one exclusive, and the lines and
columns at which they lie, counted from one.  Columns count bytes.

## Main definitions

* `Position.of` — the line and column of an offset.
* `Span.ofOffsets` — the span between two offsets of a source.
* `Span.overlaps` — whether two spans cannot both be replaced.
* `Span.union` — the least span over a non-empty list of spans.
-/

namespace Declutter

/-- A line and a column, both counted from one. -/
structure Position where
  line : Nat
  column : Nat
  deriving DecidableEq, Repr, Inhabited

/-- The position of an offset: one line further than the line breaks before it, and one column
further than the bytes since the last of them.  An offset past the end counts as bytes of the last
line. -/
def Position.of (source : Bytes) (offset : Nat) : Position where
  line := (source.take offset).count Bytes.newline + 1
  column := offset - Bytes.lineStart source offset + 1

/-- A range of source text. -/
structure Span where
  /-- The offset of its first byte. -/
  start : Nat
  /-- The offset after its last byte. -/
  stop : Nat
  /-- Where `start` lies. -/
  first : Position
  /-- Where `stop` lies. -/
  last : Position
  deriving DecidableEq, Repr, Inhabited

namespace Span

/-- The span between two offsets. -/
def ofOffsets (source : Bytes) (start stop : Nat) : Span where
  start
  stop
  first := .of source start
  last := .of source stop

/-- The number of bytes covered; negative when the offsets are reversed. -/
def length (s : Span) : Int := s.stop - s.start

/-- Whether two spans share a byte, an insertion lies strictly inside the other span, or both are
insertions at one offset.  Spans that merely touch do not overlap. -/
def overlaps (a b : Span) : Bool :=
  if a.start = a.stop ∧ b.start = b.stop then a.start == b.start
  else if a.start = a.stop then b.start < a.start && a.start < b.stop
  else if b.start = b.stop then a.start < b.start && b.start < a.stop
  else a.start < b.stop && b.start < a.stop

/-- The span as text: `line:column-line:column`. -/
def format (s : Span) : String :=
  s!"{s.first.line}:{s.first.column}-{s.last.line}:{s.last.column}"

/-- The span that starts least of the two; `a` if they start together. -/
def earlier (a b : Span) : Span := if b.start < a.start then b else a

/-- The span that stops last of the two; `a` if they stop together. -/
def later (a b : Span) : Span := if a.stop < b.stop then b else a

/-- The least span that covers `s` and all of `rest`: the start of the one that starts first and
the end of the one that ends last. -/
def union (s : Span) (rest : List Span) : Span :=
  let left := rest.foldl earlier s
  let right := rest.foldl later s
  ⟨left.start, right.stop, left.first, right.last⟩

/-- Whether the bytes of `inner` lie within `outer`. -/
def covers (outer inner : Span) : Bool := outer.start ≤ inner.start && inner.stop ≤ outer.stop

end Span

end Declutter
