import Declutter.Report.Basic

/-!
# Reports as data

A report laid out for programs to read, as an object of the usual notation, indented by two blanks
a level.

## Main definitions

* `Document`, `Document.render` — structured data and its text.
* `RunReport.toDocument` — a report as structured data.
-/

namespace Declutter

/-- Structured data. -/
inductive Document where
  | null
  | bool (b : Bool)
  | number (n : Int)
  | text (s : String)
  | list (items : List Document)
  | object (fields : List (String × Document))
  deriving Repr, Inhabited

namespace Document

/-- A hexadecimal digit. -/
def hexDigit (n : Nat) : Char := Char.ofNat (if n < 10 then 48 + n else 87 + n)

/-- A character as it is written between quotes: control characters, quotes and backslashes are
escaped. -/
def escape (c : Char) : List Char :=
  if c == '\x22' then ['\\', '\x22']
  else if c == '\\' then ['\\', '\\']
  else if c == '\n' then ['\\', 'n']
  else if c == '\r' then ['\\', 'r']
  else if c == '\t' then ['\\', 't']
  else if c.toNat == 8 then ['\\', 'b']
  else if c.toNat == 12 then ['\\', 'f']
  else if c.toNat < 32 then
    ['\\', 'u', '0', '0', hexDigit (c.toNat / 16), hexDigit (c.toNat % 16)]
  else [c]

/-- A text between quotes. -/
def quote (s : String) : String := "\x22" ++ String.ofList (s.toList.flatMap escape) ++ "\x22"

/-- The break and indentation before an item at a depth. -/
def breakAt (depth : Nat) : String := String.ofList ('\n' :: List.replicate (2 * depth) ' ')

/-- Items between brackets, each on a line of its own. -/
def bracket (opening closing : String) (depth : Nat) : List String → String
  | [] => opening ++ closing
  | items =>
    opening ++ breakAt (depth + 1) ++ ("," ++ breakAt (depth + 1)).intercalate items ++
      breakAt depth ++ closing

mutual

/-- The data as text, at a depth. -/
def renderAt (depth : Nat) : Document → String
  | null => "null"
  | bool b => if b then "true" else "false"
  | number n => toString n
  | text s => quote s
  | list items => bracket "[" "]" depth (renderItems (depth + 1) items)
  | object fields => bracket "\x7b" "\x7d" depth (renderFields (depth + 1) fields)

/-- The texts of the items of a list. -/
def renderItems (depth : Nat) : List Document → List String
  | [] => []
  | d :: rest => renderAt depth d :: renderItems depth rest

/-- The texts of the fields of an object. -/
def renderFields (depth : Nat) : List (String × Document) → List String
  | [] => []
  | (key, d) :: rest => (quote key ++ ": " ++ renderAt depth d) :: renderFields depth rest

end

/-- The data as text. -/
def render (d : Document) : String := renderAt 0 d

/-- Text that may be absent. -/
def optional : Option String → Document
  | some s => text s
  | none => null

/-- A list of texts. -/
def texts (l : List String) : Document := list (l.map text)

end Document

/-- An edit as structured data. -/
def EditReport.toDocument (e : EditReport) : Document :=
  .object [("span", .text e.span), ("start_byte", .number e.start), ("end_byte", .number e.stop),
    ("replacement", .text e.replacement)]

/-- A finding as structured data. -/
def FindingReport.toDocument (f : FindingReport) : Document :=
  .object [("kind", .text f.rule), ("span", .text f.span), ("line", .number f.line),
    ("column", .number f.column), ("symbol", .text f.symbol), ("rationale", .text f.rationale),
    ("status", .text f.status), ("unavailable_reason", .optional f.unavailable),
    ("referenced", .texts f.referenced), ("edits", .list (f.edits.map (·.toDocument)))]

/-- The fields of a file as structured data. -/
def FileReport.toFields (r : FileReport) : List (String × Document) :=
  [("path", .text r.path), ("language", .text r.language), ("outcome", .text r.outcome.name),
    ("diagnostics", .texts r.diagnostics),
    ("findings", .list (r.findings.map (·.toDocument))), ("suppressed", .number r.suppressed),
    ("truncated", .number r.truncated), ("rewritten_source", .optional r.rewritten),
    ("written", .bool r.written), ("write_error", .optional r.writeError),
    ("fix_passes", .number r.fixPasses), ("remaining", .number r.remaining)]

/-- A report as structured data. -/
def RunReport.toDocument (r : RunReport) : Document :=
  .object [("files", .list (r.files.map fun f => .object f.toFields))]

end Declutter
