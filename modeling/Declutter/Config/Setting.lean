import Declutter.Config.Basic
import Declutter.Decimal.Numeral
import Declutter.Sort

/-!
# Reading settings

Settings come as values of various types and are read generously: a number may be written as text,
a truth value as a number or a word.  What cannot be read, or lies outside its bounds, is reported,
and all such problems together.

## Main definitions

* `Setting` — a value as it was given.
* `Setting.toInt`, `Setting.toBool`, `Setting.toTimeout`, `Setting.toText` — reading a value.
* `Settings`, `Config.ofSettings` — the configuration made of the given values.
-/

namespace Declutter

/-- A value as it was given. -/
inductive Setting where
  | bool (b : Bool)
  | integer (n : Int)
  /-- A number of the floating-point format, as a decimal nearest to it. -/
  | decimal (n : Numeral)
  | text (s : String)
  | other
  deriving DecidableEq, Repr, Inhabited

/-- What is wrong with a value. -/
inductive SettingError where
  | integerType
  | integerText
  | integerFraction
  | integerSize
  | notFinite
  | numberType
  | numberText
  | booleanType
  | booleanValue
  | stringType
  | noRules
  | unknownRules (ids : List String)
  | negative
  | notPositive
  | noWorkers
  | blankMarker
  deriving DecidableEq, Repr, Inhabited

/-- What is said of a value that is refused. -/
def SettingError.message : SettingError → String
  | integerType => "Input should be a valid integer"
  | integerText => "Input should be a valid integer, unable to parse string as an integer"
  | integerFraction => "Input should be a valid integer, got a number with a fractional part"
  | integerSize => "Unable to parse input string as an integer, exceeded maximum size"
  | notFinite => "Input should be a finite number"
  | numberType => "Input should be a valid number"
  | numberText => "Input should be a valid number, unable to parse string as a number"
  | booleanType => "Input should be a valid boolean"
  | booleanValue => "Input should be a valid boolean, unable to interpret input"
  | stringType => "Input should be a valid string"
  | noRules => "Value error, enabled_rule_ids must name at least one rule"
  | unknownRules ids => "Value error, unknown rule id(s): " ++ ", ".intercalate ids
  | negative => "Value error, must not be negative"
  | notPositive => "Value error, must be positive"
  | noWorkers => "Value error, must be at least 1"
  | blankMarker => "Value error, suppression marker must not be blank"

/-! ### Reading a value -/

namespace Setting

/-- A bound on the integers that a number of the floating-point format is turned into. -/
def integerBound : Nat := twoPow 63

/-- A number of the floating-point format as an integer. -/
def integerOf : Numeral → Except SettingError Int
  | .finite negative mantissa exponent =>
    match Numeral.magnitude mantissa exponent with
    | .zero => .ok 0
    | .infinite => .error .notFinite
    | .finite value =>
      match value.toNat? with
      | none => .error .integerFraction
      | some n => if n < integerBound then .ok (Numeral.signed negative n) else .error .integerSize
  | _ => .error .notFinite

/-- The value as an integer. -/
def toInt : Setting → Except SettingError Int
  | bool b => .ok (if b then 1 else 0)
  | integer n => .ok n
  | decimal n => integerOf n
  | text s =>
    match IntegerText.read s with
    | .ok n => .ok n
    | .error .malformed => .error .integerText
    | .error .tooLong => .error .integerSize
  | other => .error .integerType

/-- The words for a truth value. -/
def wordTable : List (String × Bool) := [
    ("0", false), ("off", false), ("f", false), ("false", false), ("n", false), ("no", false),
    ("1", true), ("on", true), ("t", true), ("true", true), ("y", true), ("yes", true)]

/-- An integer as a truth value. -/
def truthOf (n : Int) : Except SettingError Bool :=
  if n == 0 then .ok false else if n == 1 then .ok true else .error .booleanValue

/-- The value as a truth value.  A number that does not stand for an integer of 64 bits is of the
wrong type. -/
def toBool : Setting → Except SettingError Bool
  | bool b => .ok b
  | integer n =>
    if -(integerBound : Int) ≤ n && n < integerBound then truthOf n else .error .booleanType
  | decimal n =>
    match integerOf n with
    | .ok n => truthOf n
    | .error _ => .error .booleanType
  | text s =>
    match wordTable.lookup (String.ofList (s.toList.map Char.toLower)) with
    | some b => .ok b
    | none => .error .booleanValue
  | other => .error .booleanType

/-- The value as text. -/
def toText : Setting → Except SettingError String
  | text s => .ok s
  | _ => .error .stringType

/-- The value as a number.  An integer beyond the numbers of the floating-point format is none. -/
def toNumeral : Setting → Except SettingError Numeral
  | bool b => .ok (.ofInt (if b then 1 else 0))
  | integer n =>
    if Numeral.magnitude n.natAbs 0 == .infinite then .error .numberType else .ok (.ofInt n)
  | decimal n => .ok n
  | text s =>
    match Numeral.ofText? s with
    | some n => .ok n
    | none => .error .numberText
  | other => .error .numberType

/-- The value as a number of at least `least`; `why` is said of a lesser one. -/
def toCount (least : Nat) (why : SettingError) (s : Setting) : Except SettingError Nat := do
  let n ← s.toInt
  if n < least then .error why else .ok n.toNat

/-- The value as the marker of exempt places. -/
def toMarker (s : Setting) : Except SettingError String := do
  let marker ← s.toText
  if Text.strip marker == "" then .error .blankMarker else .ok marker

/-- The limit that a number of seconds sets; a number that is zero or less sets none. -/
def limit? : Numeral → Option Timeout
  | .undefined => some .undefined
  | .infinite negative => if negative then none else some .infinite
  | .finite negative mantissa exponent =>
    match Numeral.magnitude mantissa exponent with
    | .zero => none
    | .finite seconds => if negative then none else some (.finite seconds)
    | .infinite => if negative then none else some .infinite

/-- The value as a limit on time. -/
def toTimeout (s : Setting) : Except SettingError Timeout := do
  let n ← s.toNumeral
  match limit? n with
  | some limit => .ok limit
  | none => .error .notPositive

end Setting

/-! ### The configuration -/

/-- The values given for the settings; an absent one leaves the default. -/
structure Settings where
  rules : Option (List Setting) := none
  maxFindings : Option Setting := none
  marker : Option Setting := none
  applyFixes : Option Setting := none
  maxInlineDepth : Option Setting := none
  pureFunctions : Option (List Setting) := none
  timeout : Option Setting := none
  maxWorkers : Option Setting := none
  deriving Repr, Inhabited

/-- The rules of some names, each of them once. -/
def Rule.ofIds (ids : List String) : Except SettingError (List Rule) :=
  if ids.isEmpty then .error .noRules
  else
    match ids.eraseDups.filter (fun s => (Rule.ofId? s).isNone) with
    | [] => .ok (Rule.all.filter (ids.contains ·.id))
    | unknown => .error (.unknownRules (sortBy (· ≤ ·) unknown))

/-- A list of names with those of another list that it lacks. -/
def addNames (names more : List String) : List String :=
  names ++ more.eraseDups.filter (!names.contains ·)

/-- A setting with what is wrong with it. -/
abbrev Problem := String × SettingError

/-- What is made of a setting, or else the problem under the name of the setting. -/
def named (name : String) : Except SettingError α → Except (List Problem) α
  | .ok a => .ok a
  | .error e => .error [(name, e)]

/-- The problems with the elements of a set, which are all to be text. -/
def elementProblems (name : String) (l : List Setting) : List Problem :=
  l.eraseDups.zipIdx.filterMap fun (s, i) =>
    match s.toText with
    | .ok _ => none
    | .error e => some (s!"{name}.{i}", e)

/-- The elements of a set, which are all to be text. -/
def textElements (name : String) (l : List Setting) : Except (List Problem) (List String) :=
  match elementProblems name l with
  | [] => .ok (l.filterMap fun s => s.toText.toOption)
  | problems => .error problems

/-- A setting that was given, or else its default. -/
def readSetting (given : Option α) (default : β) (f : α → Except (List Problem) β) :
    Except (List Problem) β :=
  match given with
  | some a => f a
  | none => .ok default

/-- A setting of one value that was given, or else its default. -/
def readValue (name : String) (given : Option Setting) (default : β)
    (f : Setting → Except SettingError β) : Except (List Problem) β :=
  readSetting given default fun v => named name (f v)

/-- The problems with a setting. -/
def problemsOf : Except (List Problem) α → List Problem
  | .ok _ => []
  | .error problems => problems

/-- The configuration that the given values make, or the problems with them in the order in which
the settings are declared. -/
def Config.ofSettings (s : Settings) : Except (List Problem) Config :=
  let rules := readSetting s.rules Rule.all fun l => do
    let ids ← textElements "enabled_rule_ids" l
    named "enabled_rule_ids" (Rule.ofIds ids)
  let maxFindings := readValue "max_findings_per_file" s.maxFindings 200 (Setting.toCount 0 .negative)
  let marker := readValue "suppression_marker" s.marker "simplify-ignore" Setting.toMarker
  let applyFixes := readValue "apply_fixes" s.applyFixes false Setting.toBool
  let maxInlineDepth := readValue "max_inline_depth" s.maxInlineDepth 5 (Setting.toCount 0 .negative)
  let pureFunctions := readSetting s.pureFunctions defaultPureFunctions fun l => do
    return addNames defaultPureFunctions (← textElements "pure_functions" l)
  let timeout := readValue "file_timeout" s.timeout (.finite ⟨30, 0⟩) Setting.toTimeout
  let maxWorkers := readValue "max_workers" s.maxWorkers 4 (Setting.toCount 1 .noWorkers)
  match rules, maxFindings, marker, applyFixes, maxInlineDepth, pureFunctions, timeout,
    maxWorkers with
  | .ok rules, .ok maxFindings, .ok marker, .ok applyFixes, .ok maxInlineDepth, .ok pureFunctions,
      .ok timeout, .ok maxWorkers =>
    .ok { rules, maxFindings, marker, applyFixes, maxInlineDepth, pureFunctions, timeout,
          maxWorkers }
  | _, _, _, _, _, _, _, _ =>
    .error (problemsOf rules ++ problemsOf maxFindings ++ problemsOf marker ++
      problemsOf applyFixes ++ problemsOf maxInlineDepth ++ problemsOf pureFunctions ++
      problemsOf timeout ++ problemsOf maxWorkers)

/-- What is said of a configuration that is refused. -/
def configMessage (problems : List Problem) : String :=
  "Invalid configuration: " ++
    "; ".intercalate (problems.map fun p => p.1 ++ ": " ++ p.2.message)

end Declutter
