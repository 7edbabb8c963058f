/-!
# Byte strings

Source text is kept as the bytes of its file; every position in it is an offset into these bytes.
This module holds the operations on such strings: slices, the line an offset lies on, and
stripping of blanks.  Nothing here depends on the encoding except that a line break, a blank and a
semicolon are single bytes.

## Main definitions

* `Bytes` — source text.
* `Bytes.slice` — the bytes between two offsets.
* `Bytes.linePrefix`, `Bytes.lineStart` — what precedes an offset on its line.
* `Bytes.strip` — a byte string without the blanks at its ends.
-/

namespace Declutter

/-- Source text, as the bytes of its file. -/
abbrev Bytes := List UInt8

namespace Bytes

/-- The line break. -/
def newline : UInt8 := 10

/-- The statement terminator. -/
def semicolon : UInt8 := 59

/-- The space and the five control characters from the tab to the carriage return. -/
def isBlank (b : UInt8) : Bool := b == 32 || (9 ≤ b && b ≤ 13)

/-- The space and the tab, the blanks of an indentation. -/
def isIndent (b : UInt8) : Bool := b == 32 || b == 9

/-- The bytes from `start` up to `stop`; none when the interval is empty or lies past the end. -/
def slice (s : Bytes) (start stop : Nat) : Bytes := (s.drop start).take (stop - start)

/-- The bytes that precede `offset` on its line. -/
def linePrefix (s : Bytes) (offset : Nat) : Bytes :=
  ((s.take offset).reverse.takeWhile (· != newline)).reverse

/-- The offset at which the line of `offset` begins. -/
def lineStart (s : Bytes) (offset : Nat) : Nat :=
  (s.take offset).length - (linePrefix s offset).length

/-- The offset of the first line break at or after `offset`, or the end of the text. -/
def lineEnd (s : Bytes) (offset : Nat) : Nat :=
  offset + ((s.drop offset).takeWhile (· != newline)).length

/-- The byte string without the blanks at its start. -/
def stripStart (s : Bytes) : Bytes := s.dropWhile isBlank

/-- The byte string without the blanks at either end. -/
def strip (s : Bytes) : Bytes := (stripStart (stripStart s).reverse).reverse

/-- Whether every byte is blank. -/
def allBlank (s : Bytes) : Bool := s.all isBlank

/-- Whether the bytes are blanks around at most one semicolon. -/
def isTerminator (s : Bytes) : Bool := strip s == [] || strip s == [semicolon]

/-- The blanks that open the line of `offset`, as far as they precede it. -/
def indentation (s : Bytes) (offset : Nat) : Bytes := (linePrefix s offset).takeWhile isIndent

/-- Whether only blanks precede `offset` on its line. -/
def startsLine (s : Bytes) (offset : Nat) : Bool := allBlank (linePrefix s offset)

@[simp] theorem slice_zero_length (s : Bytes) : slice s 0 s.length = s := by simp [slice]

theorem slice_eq_nil_of_le (s : Bytes) {start stop : Nat} (h : stop ≤ start) :
    slice s start stop = [] := by
  simp [slice, Nat.sub_eq_zero_of_le h]

end Bytes

end Declutter
