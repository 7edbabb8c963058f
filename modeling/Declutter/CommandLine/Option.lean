import Declutter.Text.Blank
import Declutter.Text.Digit

/-!
# Options and operands

Telling options from operands on a command line.  An option may be shortened as long as it stays
unique, carries its value after an equals sign or in the next word, and single letters may be
joined.  What looks like a negative number or has a space in it is an operand, and so is everything
after two dashes.

## Main definitions

* `OptionSpec` — an option that is known.
* `UsageError` — why a command line is not understood.
* `Token.ofText` — what a word of a command line is.
* `Item.ofTokens` — the options with their values, and the operands.
* `operandsOf` — the operands, which must stand together.
-/

namespace Declutter

/-- An option that is known, with what it stands for. -/
structure OptionSpec (α : Type) where
  tag : α
  names : List String
  takesValue : Bool := false
  deriving Repr

/-- Why a command line is not understood. -/
inductive UsageError where
  | missingCommand
  | unknownCommand (name : String)
  | unknownOption (text : String)
  | ambiguousOption (text : String)
  | missingValue
  | unexpectedValue (option : String)
  | invalidValue (value : String)
  | missingOperand
  | unexpectedOperand
  deriving DecidableEq, Repr, Inhabited

/-- What is said of a command line that is not understood. -/
def UsageError.message : UsageError → String
  | missingCommand => "a command is missing"
  | unknownCommand name => "unknown command: " ++ name
  | unknownOption text => "unknown option: " ++ text
  | ambiguousOption text => "option is not unique: " ++ text
  | missingValue => "an option needs a value"
  | unexpectedValue option => "option takes no value: " ++ option
  | invalidValue value => "value is not valid: " ++ value
  | missingOperand => "an operand is missing"
  | unexpectedOperand => "too many operands"

/-! ### Words -/

/-- What a word of a command line is. -/
inductive Token (α : Type) where
  | operand (text : String)
  /-- The two dashes after which there are no options. -/
  | divider
  /-- An option, with the text that is attached to it. -/
  | option (spec : OptionSpec α) (name : String) (attached : Option String)
  | unknown (text : String)
  deriving Repr

/-- Whether a text looks like a negative number. -/
def looksNegative (s : String) : Bool :=
  match s.toList with
  | '-' :: cs =>
    let cs := if cs.getLast? == some '\n' then cs.dropLast else cs
    let places := cs.dropWhile Text.isDigit
    match places with
    | [] => !cs.isEmpty
    | '.' :: ds => !ds.isEmpty && ds.all Text.isDigit
    | _ => false
  | _ => false

/-- A text before and after its first equals sign, if it has one. -/
def splitEquals (s : String) : String × Option String :=
  let cs := s.toList
  (String.ofList (cs.takeWhile (· != '=')),
    if cs.contains '=' then some (String.ofList (cs.dropWhile (· != '=')).tail) else none)

variable {α : Type}

/-- The option that has a name. -/
def findOption? (specs : List (OptionSpec α)) (name : String) : Option (OptionSpec α) :=
  specs.find? (·.names.contains name)

/-- The options that have a name with a given beginning, each with that name. -/
def optionsFrom (specs : List (OptionSpec α)) (start : String) : List (OptionSpec α × String) :=
  specs.flatMap fun spec =>
    (spec.names.filter (Text.beginsWith · start)).map fun name => (spec, name)

/-- The options that a word with a dash in front may stand for: a long one may be shortened, and
anything may follow the letter of a short one. -/
def candidates (specs : List (OptionSpec α)) (s : String) : List (Token α) :=
  if Text.beginsWith s "--" then
    let (start, attached) := splitEquals s
    (optionsFrom specs start).map fun (spec, name) => .option spec name attached
  else
    let name := Text.clip 2 s
    match findOption? specs name with
    | some spec => [.option spec name (some (String.ofList (s.toList.drop 2)))]
    | none => []

namespace Token

/-- What a word of a command line is. -/
def ofText (specs : List (OptionSpec α)) (s : String) : Except UsageError (Token α) :=
  if !Text.beginsWith s "-" then .ok (.operand s)
  else
    match findOption? specs s with
    | some spec => .ok (.option spec s none)
    | none =>
      if s == "-" then .ok (.operand s)
      else
        let (name, attached) := splitEquals s
        match attached.bind fun value => (findOption? specs name).map ((value, ·)) with
        | some (value, spec) => .ok (.option spec name (some value))
        | none =>
          match candidates specs s with
          | [t] => .ok t
          | _ :: _ :: _ => .error (.ambiguousOption s)
          | [] =>
            if looksNegative s || s.toList.contains ' ' then .ok (.operand s)
            else .ok (.unknown s)

/-- What the words of a command line are. -/
def ofWords (specs : List (OptionSpec α)) : List String → Except UsageError (List (Token α))
  | [] => .ok []
  | word :: rest =>
    if word == "--" then .ok (.divider :: rest.map .operand)
    else do
      let t ← ofText specs word
      return t :: (← ofWords specs rest)

end Token

/-! ### Options with their values -/

/-- A part of a command line.  The value of an option that takes one may have been left out. -/
inductive Item (α : Type) where
  | operand (text : String)
  | divider
  | option (tag : α) (value : Option String)
  deriving Repr

/-- The options that an option and the letters joined to it stand for.  An option that takes a
value takes the rest of the letters. -/
def joined (specs : List (OptionSpec α)) (spec : OptionSpec α) :
    List Char → Except UsageError (List (OptionSpec α × Option String))
  | [] => .ok [(spec, none)]
  | c :: rest =>
    if spec.takesValue then .ok [(spec, some (String.ofList (c :: rest)))]
    else
      match findOption? specs (String.ofList ['-', c]) with
      | some next => do return (spec, none) :: (← joined specs next rest)
      | none => .error (.unexpectedValue (String.ofList (c :: rest)))

/-- The options that a word stands for, each with the text attached to it. -/
def optionsOf (specs : List (OptionSpec α)) (spec : OptionSpec α) (name : String)
    (attached : Option String) : Except UsageError (List (OptionSpec α × Option String)) :=
  match attached with
  | none => .ok [(spec, none)]
  | some text =>
    if spec.takesValue then .ok [(spec, some text)]
    else if Text.beginsWith name "--" || text == "" then .error (.unexpectedValue name)
    else joined specs spec text.toList

namespace Item

/-- The value that a text attached to an option gives it.  Two dashes leave the value out. -/
def attachedValue? (text : String) : Option String := if text == "--" then none else some text

/-- The options of a word but for the last one, and that one if it still needs a value. -/
def settle : List (OptionSpec α × Option String) → List (Item α) × Option α
  | [] => ([], none)
  | [(spec, none)] =>
    if spec.takesValue then ([], some spec.tag) else ([.option spec.tag none], none)
  | (spec, value) :: rest =>
    let (items, owed) := settle rest
    (.option spec.tag (value.bind attachedValue?) :: items, owed)

/-- The options with their values, and the operands.  `owed` is the option that the next word is
the value of. -/
def ofTokens (specs : List (OptionSpec α)) : Option α → List (Token α) →
    Except UsageError (List (Item α))
  | none, [] => .ok []
  | some tag, .operand text :: rest => do
    return .option tag (some text) :: (← ofTokens specs none rest)
  | some _, _ => .error .missingValue
  | none, .operand text :: rest => do return .operand text :: (← ofTokens specs none rest)
  | none, .divider :: rest => do return .divider :: (← ofTokens specs none rest)
  | none, .unknown text :: _ => .error (.unknownOption text)
  | none, .option spec name attached :: rest => do
    let (items, owed) := settle (← optionsOf specs spec name attached)
    return items ++ (← ofTokens specs owed rest)

/-- The parts of a command line. -/
def ofWords (specs : List (OptionSpec α)) (words : List String) :
    Except UsageError (List (Item α)) := do
  ofTokens specs none (← Token.ofWords specs words)

/-- The text of an operand. -/
def operand? : Item α → Option String
  | operand text => some text
  | _ => none

/-- Whether this is an option. -/
def isOption : Item α → Bool
  | option .. => true
  | _ => false

/-- The option that this is, with its value. -/
def option? : Item α → Option (α × Option String)
  | option tag value => some (tag, value)
  | _ => none

end Item

/-- The operands of a command line.  They must stand together, with no option between them. -/
def operandsOf (items : List (Item α)) : Except UsageError (List String) :=
  let run := (items.dropWhile (·.isOption)).takeWhile (!·.isOption)
  let rest := (items.dropWhile (·.isOption)).dropWhile (!·.isOption)
  let words := run.filterMap (·.operand?)
  if rest.any (!·.isOption) || (words.isEmpty && !run.isEmpty) then .error .unexpectedOperand
  else .ok words

end Declutter
