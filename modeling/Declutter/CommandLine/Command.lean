import Declutter.CommandLine.Option
import Declutter.Config.Setting
import Declutter.Finding.Catalog

/-!
# Commands

What the program can be told to do, and how it is said on the command line.

## Main definitions

* `AnalyzeRequest` — files to analyse, and how.
* `AnalyzeRequest.settings` — the settings of a request.
* `Command` — what the program can be told to do.
* `Command.ofWords` — the command that the words of a command line make.
-/

namespace Declutter

/-- How a report is written. -/
inductive ReportFormat where
  | text
  | json
  deriving DecidableEq, Repr, Inhabited

/-- The format of a name. -/
def ReportFormat.ofName? (s : String) : Option ReportFormat :=
  if s == "text" then some .text else if s == "json" then some .json else none

/-- Files to analyse, and how.  A name of a rule or of a function may have been left out, and so
may a value that is read as a setting. -/
structure AnalyzeRequest where
  paths : List String := []
  /-- Whether to write the results to the files. -/
  write : Bool := false
  rules : List (Option String) := []
  format : ReportFormat := .text
  maxFindings : Option Setting := none
  marker : Option Setting := none
  maxInlineDepth : Option Setting := none
  pureFunctions : List (Option String) := []
  maxWorkers : Option Setting := none
  timeout : Option Setting := none
  deriving DecidableEq, Repr, Inhabited

/-- A list, unless it is empty. -/
def nonempty? (l : List α) : Option (List α) := if l.isEmpty then none else some l

/-- What makes a request impossible to carry out. -/
inductive RequestError where
  | ruleLeftOut
  | functionLeftOut
  deriving DecidableEq, Repr, Inhabited

namespace RequestError

/-- The name of an error. -/
def name : RequestError → String
  | ruleLeftOut => "AttributeError"
  | functionLeftOut => "TypeError"

/-- What is said of an error. -/
def message : RequestError → String
  | ruleLeftOut => "'list' object has no attribute 'strip'"
  | functionLeftOut => "unhashable type: 'list'"

end RequestError

/-- The names of a list from which none was left out. -/
def allNames (l : List (Option String)) (e : RequestError) : Except RequestError (List String) :=
  match l.mapM id with
  | some names => .ok names
  | none => .error e

/-- The settings of a request. -/
def AnalyzeRequest.settings (r : AnalyzeRequest) : Except RequestError Settings := do
  let rules ← allNames r.rules .ruleLeftOut
  let functions ← allNames r.pureFunctions .functionLeftOut
  return {
    rules := (nonempty? rules).map (·.map (.text ∘ ruleName))
    maxFindings := r.maxFindings
    marker := r.marker
    applyFixes := some (.bool r.write)
    maxInlineDepth := r.maxInlineDepth
    pureFunctions := (nonempty? functions).map (·.map .text)
    timeout := r.timeout
    maxWorkers := r.maxWorkers }

/-! ### Numbers -/

/-- A text with plain digits and without the white space around it, if it may denote a number.  The
four information separators, though blanks, are not allowed around a number. -/
def plainNumber? (s : String) : Option String :=
  if s.toList.any fun c => 28 ≤ c.toNat && c.toNat ≤ 31 then none
  else some (Text.withPlainDigits (Text.strip s))

/-- The greatest number of digits of an integer. -/
def maxIntegerDigits : Nat := 4300

/-- The integer that a text denotes. -/
def integerOf? (s : String) : Option Int := do
  let s ← plainNumber? s
  let (negative, cs) := Numeral.splitSign s.toList
  let ds ← Numeral.withoutUnderscores? cs
  if !ds.isEmpty && ds.all Char.isDigit && ds.length ≤ maxIntegerDigits then
    some (Numeral.signed negative (Numeral.ofDigits ds))
  else none

/-- Whether every underscore stands between digits. -/
def underscoresBetweenDigits : List Char → Bool
  | a :: '_' :: b :: rest => a.isDigit && b.isDigit && underscoresBetweenDigits (b :: rest)
  | '_' :: _ => false
  | [_, '_'] => false
  | _ :: rest => underscoresBetweenDigits rest
  | [] => true

/-- The decimal that a text denotes. -/
def decimalOf? (s : String) : Option Numeral := do
  let s ← plainNumber? s
  if underscoresBetweenDigits s.toList then Numeral.ofText? s else none

/-! ### Options -/

/-- The options of the command that analyses. -/
inductive AnalyzeOption where
  | help
  | write
  | rule
  | format
  | maxFindings
  | marker
  | maxDepth
  | pure
  | jobs
  | timeout
  | verbose
  deriving DecidableEq, Repr, Inhabited

namespace AnalyzeOption

/-- The names of the options, and which of them take a value. -/
def specs : List (OptionSpec AnalyzeOption) := [
    { tag := help, names := ["-h", "--help"] },
    { tag := write, names := ["--write"] },
    { tag := rule, names := ["--rule"], takesValue := true },
    { tag := format, names := ["--format"], takesValue := true },
    { tag := maxFindings, names := ["--max-findings"], takesValue := true },
    { tag := marker, names := ["--marker"], takesValue := true },
    { tag := maxDepth, names := ["--max-depth"], takesValue := true },
    { tag := pure, names := ["--pure"], takesValue := true },
    { tag := jobs, names := ["--jobs", "-j"], takesValue := true },
    { tag := timeout, names := ["--timeout"], takesValue := true },
    { tag := verbose, names := ["-v", "--verbose"] }]

end AnalyzeOption

/-- What is read from a value, or the complaint about it; nothing is made of a value that was left
out. -/
def readGiven (read : String → Option β) (missing : β) :
    Option String → Except UsageError β
  | none => .ok missing
  | some value =>
    match read value with
    | some b => .ok b
    | none => .error (.invalidValue value)

/-- The setting that a number makes. -/
def readCount (value : Option String) : Except UsageError (Option Setting) :=
  some <$> readGiven (fun s => (integerOf? s).map .integer) .other value

/-- A request with one more option.  Rules and functions add up; of any other option the last
value counts. -/
def AnalyzeRequest.set (r : AnalyzeRequest) (option : AnalyzeOption) (value : Option String) :
    Except UsageError AnalyzeRequest :=
  match option with
  | .help | .verbose => .ok r
  | .write => .ok { r with write := true }
  | .rule => .ok { r with rules := r.rules ++ [value] }
  | .format => do return { r with format := ← readGiven ReportFormat.ofName? .text value }
  | .maxFindings => do return { r with maxFindings := ← readCount value }
  | .marker => .ok { r with marker := some ((value.map .text).getD .other) }
  | .maxDepth => do return { r with maxInlineDepth := ← readCount value }
  | .pure => .ok { r with pureFunctions := r.pureFunctions ++ [value] }
  | .jobs => do return { r with maxWorkers := ← readCount value }
  | .timeout => do
    let limit ← readGiven (fun s => (decimalOf? s).map .decimal) .other value
    return { r with timeout := some limit }

/-- A request with more options, one after the other. -/
def AnalyzeRequest.setAll (r : AnalyzeRequest) :
    List (AnalyzeOption × Option String) → Except UsageError AnalyzeRequest
  | [] => .ok r
  | (option, value) :: rest => do (← r.set option value).setAll rest

/-! ### Commands -/

/-- What the program can be told to do. -/
inductive Command where
  | analyze (r : AnalyzeRequest)
  | explain (rule : String)
  | rules
  | version
  | help
  deriving DecidableEq, Repr, Inhabited

/-- The options that stand before a command, or alone. -/
inductive ProgramOption where
  | help
  | version
  deriving DecidableEq, Repr, Inhabited

/-- The names of those options. -/
def ProgramOption.specs : List (OptionSpec ProgramOption) := [
    { tag := help, names := ["-h", "--help"] },
    { tag := version, names := ["--version"] }]

namespace Command

/-- The one option of the commands that have no other. -/
def helpOnly : List (OptionSpec Unit) := [{ tag := (), names := ["-h", "--help"] }]

/-- The command to analyse. -/
def ofAnalyze (words : List String) : Except UsageError Command := do
  let items ← Item.ofWords AnalyzeOption.specs words
  let options := items.filterMap (·.option?)
  if options.any (·.1 == .help) then return .help
  let r ← AnalyzeRequest.setAll {} options
  let paths ← operandsOf items
  if paths.isEmpty then .error .missingOperand else return .analyze { r with paths }

/-- A command with a fixed number of operands. -/
def ofOperands (words : List String) (make : List String → Except UsageError Command) :
    Except UsageError Command := do
  let items ← Item.ofWords helpOnly words
  if items.any (·.isOption) then return .help
  make (← operandsOf items)

/-- The command of a name with the words after it. -/
def ofName (name : String) (words : List String) : Except UsageError Command :=
  if name == "analyze" then ofAnalyze words
  else if name == "explain" then
    ofOperands words fun
      | [] => .error .missingOperand
      | [rule] => .ok (.explain rule)
      | _ => .error .unexpectedOperand
  else if name == "rules" then
    ofOperands words fun
      | [] => .ok .rules
      | _ => .error .unexpectedOperand
  else .error (.unknownCommand name)

/-- The command of an option before the commands. -/
def ofOption : ProgramOption → Command
  | .help => help
  | .version => version

/-- The command that some words make, after options of which `unknown` was the first that is not
known.  An option with a command of its own takes effect where it stands. -/
def afterOptions (unknown : Option String) : List String → Except UsageError Command
  | [] => .error .missingCommand
  | word :: rest =>
    if word == "--" then .error (.unknownCommand word)
    else do
      match ← Token.ofText ProgramOption.specs word with
      | .operand name =>
        let command ← ofName name rest
        match unknown with
        | some text => .error (.unknownOption text)
        | none => return command
      | .option spec name attached =>
        let _ ← optionsOf ProgramOption.specs spec name attached
        return ofOption spec.tag
      | .unknown text => afterOptions (unknown.or (some text)) rest
      | .divider => .error .missingCommand

/-- The command that the words of a command line make. -/
def ofWords (words : List String) : Except UsageError Command := do
  let _ ← Token.ofWords ProgramOption.specs words
  afterOptions none words

end Command

end Declutter
