import Declutter.Text.Bytes

/-!
# UTF-8

Reading and writing text as UTF-8.  The reader is a machine that takes one byte at a time and
never looks back: a byte that cannot continue the character at hand ends it as malformed and is
then read afresh.  So malformed input yields one malformed character for each longest run of bytes
that begins a well-formed one, which is how the Unicode standard recommends to count them.

## Main definitions

* `Utf8.State`, `Utf8.step` — the machine.
* `Utf8.scan` — the characters of a byte string, the malformed ones as `none`.
* `Utf8.decode?` — the text, if the bytes are well formed.
* `Utf8.decode` — the text with the replacement character for each malformed one.
* `Utf8.encode` — the bytes of a text.
* `Utf8.Fault`, `Utf8.firstFault?` — the first malformed character, and what is wrong with it.
-/

namespace Declutter.Utf8

/-- Where the machine stands between two bytes. -/
inductive State where
  /-- Between characters. -/
  | boundary
  /-- Inside a character that still needs `owed` bytes, the next one between `low` and `high`;
  `value` holds the bits read so far. -/
  | inside (owed : Nat) (low high : UInt8) (value : Nat)
  deriving DecidableEq, Repr

/-- A byte read at a boundary: the character it completes, if any, and the state after it.  The
bounds on the second byte exclude overlong forms, surrogates and codes above the last character. -/
def first (b : UInt8) : List (Option Char) × State :=
  if b < 0x80 then ([some (Char.ofNat b.toNat)], .boundary)
  else if b < 0xC2 then ([none], .boundary)
  else if b < 0xE0 then ([], .inside 1 0x80 0xBF (b.toNat - 0xC0))
  else if b == 0xE0 then ([], .inside 2 0xA0 0xBF 0)
  else if b == 0xED then ([], .inside 2 0x80 0x9F 0xD)
  else if b < 0xF0 then ([], .inside 2 0x80 0xBF (b.toNat - 0xE0))
  else if b == 0xF0 then ([], .inside 3 0x90 0xBF 0)
  else if b < 0xF4 then ([], .inside 3 0x80 0xBF (b.toNat - 0xF0))
  else if b == 0xF4 then ([], .inside 3 0x80 0x8F 4)
  else ([none], .boundary)

/-- One byte: the characters it completes and the state after it. -/
def step : State → UInt8 → List (Option Char) × State
  | .boundary, b => first b
  | .inside owed low high value, b =>
    if low ≤ b && b ≤ high then
      let value := value * 64 + (b.toNat - 0x80)
      if owed ≤ 1 then ([some (Char.ofNat value)], .boundary)
      else ([], .inside (owed - 1) 0x80 0xBF value)
    else
      let (out, state) := first b
      (none :: out, state)

/-- The characters of the bytes that follow a state, `none` for a malformed one. -/
def scan : State → Bytes → List (Option Char)
  | .boundary, [] => []
  | .inside .., [] => [none]
  | state, b :: rest => (step state b).1 ++ scan (step state b).2 rest

/-- The character shown in place of a malformed one. -/
def replacement : Char := Char.ofNat 0xFFFD

/-- The text of the bytes, if they are well formed throughout. -/
def decode? (s : Bytes) : Option String := ((scan .boundary s).mapM id).map String.ofList

/-- The text of the bytes, with `replacement` for each malformed character. -/
def decode (s : Bytes) : String := String.ofList ((scan .boundary s).map (·.getD replacement))

/-- The bytes of a text. -/
def encode (s : String) : Bytes := s.toList.flatMap String.utf8EncodeChar

/-! ### Faults -/

/-- What is wrong with a malformed character. -/
inductive FaultKind where
  /-- No character starts with its byte. -/
  | badStart
  /-- The byte after it does not continue it. -/
  | badContinuation
  /-- The bytes end inside it. -/
  | cutShort
  deriving DecidableEq, Repr

/-- What is said of a malformed character. -/
def FaultKind.message : FaultKind → String
  | badStart => "invalid start byte"
  | badContinuation => "invalid continuation byte"
  | cutShort => "unexpected end of data"

/-- A malformed character: its offset and its bytes. -/
structure Fault where
  offset : Nat
  bytes : Bytes
  kind : FaultKind
  deriving DecidableEq, Repr

/-- The first malformed character of the bytes at an offset, where `begun` are the bytes so far of
the character at hand. -/
def firstFaultFrom? (offset : Nat) : (begun : Bytes) → State → Bytes → Option Fault
  | _, .boundary, [] => none
  | begun, .inside .., [] => some ⟨offset, begun, .cutShort⟩
  | _, .boundary, b :: rest =>
    match first b with
    | ([none], _) => some ⟨offset, [b], .badStart⟩
    | (_, .boundary) => firstFaultFrom? (offset + 1) [] .boundary rest
    | (_, state) => firstFaultFrom? offset [b] state rest
  | begun, .inside owed low high value, b :: rest =>
    match step (.inside owed low high value) b with
    | (none :: _, _) => some ⟨offset, begun, .badContinuation⟩
    | (_, .boundary) => firstFaultFrom? (offset + begun.length + 1) [] .boundary rest
    | (_, state) => firstFaultFrom? offset (begun ++ [b]) state rest

/-- The first malformed character. -/
def firstFault? (s : Bytes) : Option Fault := firstFaultFrom? 0 [] .boundary s

/-- The two digits of a byte in base sixteen. -/
def byteDigits (b : UInt8) : String :=
  String.ofList [Nat.digitChar (b.toNat / 16), Nat.digitChar (b.toNat % 16)]

/-- What is said of bytes whose first malformed character is the given one. -/
def Fault.message (f : Fault) : String :=
  let place :=
    match f.bytes with
    | [b] => "byte 0x" ++ byteDigits b ++ s!" in position {f.offset}"
    | bytes => s!"bytes in position {f.offset}-{f.offset + bytes.length - 1}"
  "'utf-8' codec can't decode " ++ place ++ ": " ++ f.kind.message

end Declutter.Utf8
