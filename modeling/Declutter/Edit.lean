import Declutter.Sort
import Declutter.Span
import Declutter.Text.Utf8

/-!
# Edits

An edit replaces a span of the source by a text.  A rewrite is a list of edits that belong
together, sorted and without overlaps, so they can all be carried out.

## Main definitions

* `Edit`, `Edit.before` — one replacement, and the order of replacements.
* `Rewrite`, `Rewrite.ofEdits` — edits that belong together.
* `Rewrite.overlaps` — whether two rewrites touch the same text.
* `Edit.applyAll` — a source with a list of edits carried out.
-/

namespace Declutter

/-- The replacement of a span by a text. -/
structure Edit where
  span : Span
  replacement : String
  deriving DecidableEq, Repr, Inhabited

/-- The order of edits: by start, then by end. -/
def Edit.before (a b : Edit) : Bool :=
  a.span.start < b.span.start || (a.span.start == b.span.start && a.span.stop ≤ b.span.stop)

/-- Edits that realise one finding, in ascending order and without overlaps. -/
structure Rewrite where
  edits : List Edit
  deriving DecidableEq, Repr, Inhabited

namespace Rewrite

/-- The first two neighbours in a list of edits that overlap. -/
def clash? : List Edit → Option (Edit × Edit)
  | a :: b :: rest => if a.span.overlaps b.span then some (a, b) else clash? (b :: rest)
  | _ => none

/-- What is said of two overlapping edits in one rewrite. -/
def clashMessage (a b : Edit) : String :=
  s!"Rewrite edits overlap at {a.span.format} / {b.span.format}"

/-- The rewrite made of some edits, in any order; refused with the first two neighbours that
overlap once the edits are in order. -/
def ofEdits (edits : List Edit) : Except (Edit × Edit) Rewrite :=
  let sorted := sortBy Edit.before edits
  match clash? sorted with
  | some clash => .error clash
  | none => .ok ⟨sorted⟩

/-- Whether some edit of one rewrite overlaps some edit of the other. -/
def overlaps (r t : Rewrite) : Bool :=
  r.edits.any fun a => t.edits.any fun b => a.span.overlaps b.span

end Rewrite

namespace Edit

/-- The order in which edits are carried out: from the end of the source to its start, so that
an edit never moves the text of a later one; of two with one start, the longer goes first. -/
def after (a b : Edit) : Bool :=
  b.span.start < a.span.start || (b.span.start == a.span.start && b.span.stop ≤ a.span.stop)

/-- Carries out edits that are given from the end to the start.  The source from `limit` on has
become `tail`; an edit that reaches past `limit` is skipped.  The result comes with the number of
edits that were carried out. -/
def applyBelow (source : Bytes) : List Edit → (limit : Nat) → (tail : Bytes) → Bytes × Nat
  | [], limit, tail => (source.take limit ++ tail, 0)
  | e :: rest, limit, tail =>
    if e.span.start ≤ e.span.stop && e.span.stop ≤ limit then
      let (result, applied) := applyBelow source rest e.span.start
        (Utf8.encode e.replacement ++ Bytes.slice source e.span.stop limit ++ tail)
      (result, applied + 1)
    else applyBelow source rest limit tail

/-- The source with the edits carried out, and how many were.  An edit is skipped when it leaves
the source, is reversed, or reaches into one carried out before it. -/
def applyAll (source : Bytes) (edits : List Edit) : Bytes × Nat :=
  applyBelow source (sortBy after edits) source.length []

end Edit

end Declutter
