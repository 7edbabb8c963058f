import Declutter.Binding.SingleUse
import Declutter.Decimal.Shortest
import Declutter.Finding.Rule

/-!
# Configuration

What a run can be told: which rules to apply, how much to report, and which calls to trust.

## Main definitions

* `Timeout` — a limit on time.
* `Config` — the settings of a run, with their default values.
-/

namespace Declutter

/-- A limit on time in seconds.  A limit that is no number is never reached. -/
inductive Timeout where
  | finite (seconds : Binary)
  | infinite
  | undefined
  deriving DecidableEq, Repr, Inhabited

/-- The limit as text. -/
def Timeout.render : Timeout → String
  | finite seconds => Shortest.render (Shortest.digits seconds)
  | infinite => "inf"
  | undefined => "nan"

/-- The calls that are taken to be without side effects.  A name with dots is compared with the
callee as it is written; a name after a dot is that of any method. -/
def defaultPureFunctions : List String :=
  ["String", "Number", "Boolean", "BigInt", "Symbol.for", "parseInt", "parseFloat", "isNaN",
    "isFinite", "encodeURIComponent", "decodeURIComponent", "encodeURI", "decodeURI",
    "Math.abs", "Math.ceil", "Math.floor", "Math.round", "Math.trunc", "Math.max", "Math.min",
    "Math.pow", "Math.sqrt", "Math.sign", "Math.hypot", "Array.isArray", "Array.of",
    "Number.isInteger", "Number.isFinite", "Number.isNaN", "Object.keys", "Object.values",
    "Object.entries", "Object.freeze", "JSON.stringify", "JSON.parse", ".querySelector",
    ".querySelectorAll", ".getAttribute", ".closest", ".trim", ".trimStart", ".trimEnd",
    ".toUpperCase", ".toLowerCase", ".toString", ".toFixed", ".padStart", ".padEnd", ".split",
    ".charAt", ".startsWith", ".endsWith", ".includes", ".indexOf", ".lastIndexOf", ".slice",
    ".concat", ".join", ".at", ".map", ".filter", ".some", ".every", ".find", ".findIndex",
    ".get", ".has"]

/-- The settings of a run. -/
structure Config where
  rules : List Rule := Rule.all
  /-- The greatest number of findings reported for a file. -/
  maxFindings : Nat := 200
  /-- The word by which a comment exempts the next line. -/
  marker : String := "simplify-ignore"
  /-- Whether to carry out the rewrites. -/
  applyFixes : Bool := false
  /-- The greatest depth of an initial value that is inlined. -/
  maxInlineDepth : Nat := 5
  /-- The calls that are taken to be without side effects. -/
  pureFunctions : List String := defaultPureFunctions
  /-- The time after which the analysis of a file is given up. -/
  timeout : Timeout := .finite ⟨30, 0⟩
  /-- How many files may be analysed at a time. -/
  maxWorkers : Nat := 4
  deriving DecidableEq, Repr

instance : Inhabited Config := ⟨{}⟩

/-- Whether a rule is applied. -/
def Config.enables (c : Config) (r : Rule) : Bool := c.rules.contains r

/-- What the choice of single-use bindings depends on. -/
def Config.inlinePolicy (c : Config) : InlinePolicy where
  pure := c.pureFunctions
  maxDepth := c.maxInlineDepth
  marker := c.marker

end Declutter
