/-
The arguments of the command line.

The first argument names a command, the others are its options. An option has a long name, and some
have a letter too. Its value may be attached to it, by an equals sign or directly to the letter, or
follow as an argument of its own; an option that takes several values takes all the arguments up to
the next one that begins with a hyphen, a lone hyphen being a value. Where the command line says
nothing, the environment may, and after that the defaults.
-/
import Agenda.Table
import Agenda.Text.Numeral

set_option autoImplicit false

namespace Agenda.CommandLine

/-! ## Options -/

/-- What values an option may have. -/
inductive ValueKind where
  | anyText
  | nonEmptyText
  /-- A whole number between two bounds. -/
  | number (low high : Int)
deriving DecidableEq

/-- An option of a command. -/
structure OptionSpec where
  name : String
  letter : Option Char
  kind : ValueKind
  /-- Whether it may be given several values, and given several times. -/
  many : Bool
deriving DecidableEq

/-- Why arguments make no command. -/
inductive UsageError where
  | noCommand
  | unknownCommand (name : String)
  | unknownOption (text : String)
  | unexpectedArgument (text : String)
  | missingValue (option : String)
  | unexpectedValue (option : String)
  | invalidValue (option value : String)
  | repeated (option : String)
  | missingOption (option : String)
deriving DecidableEq

/-- The message of a usage error. -/
def UsageError.message : UsageError → String
  | noCommand => "a command is required: check, normalize, calendar, schema or help"
  | unknownCommand name => "there is no command '" ++ name ++ "'"
  | unknownOption text => "there is no option '" ++ text ++ "'"
  | unexpectedArgument text => "the argument '" ++ text ++ "' was not expected"
  | missingValue option => "the option '--" ++ option ++ "' needs a value"
  | unexpectedValue option => "the option '--" ++ option ++ "' takes no value"
  | invalidValue option value => "'" ++ value ++ "' is no value for the option '--" ++ option ++ "'"
  | repeated option => "the option '--" ++ option ++ "' may be given only once"
  | missingOption option => "the option '--" ++ option ++ "' is required"

/-- Why no command is run: the usage was asked for, or not kept to. -/
inductive Refusal where
  | help
  | usage (error : UsageError)

/-! ## Numbers -/

/-- The bounds of a 64-bit integer. -/
def integerBounds : Int × Int := (-9223372036854775808, 9223372036854775807)

/-- The value of decimal digits, of which there must be one at least. -/
def digitsValue? (digits : List Char) : Option Nat :=
  if digits.isEmpty ∨ ¬ digits.all Numeral.isDigit then none else some (Numeral.value digits)

/-- A whole number with an optional sign. -/
def integer? (text : String) : Option Int := do
  let n ← match text.toList with
    | '+' :: digits => (digitsValue? digits).map Int.ofNat
    | '-' :: digits => (digitsValue? digits).map fun n => -(n : Int)
    | digits => (digitsValue? digits).map Int.ofNat
  if integerBounds.1 ≤ n ∧ n ≤ integerBounds.2 then some n else none

/-- Whether a text is a value of a kind. -/
def ValueKind.accepts : ValueKind → String → Bool
  | anyText, _ => true
  | nonEmptyText, text => !text.isEmpty
  | number low high, text => (integer? text).any fun n => low ≤ n && n ≤ high

/-! ## Reading options -/

/-- The values that options were given, by the names of the options. -/
abbrev Given := Table (List String)

/-- Adds an occurrence of an option with its values. -/
def give (given : Given) (spec : OptionSpec) (values : List String) : Except UsageError Given :=
  if values.isEmpty then .error (.missingValue spec.name)
  else
    match values.find? fun v => !spec.kind.accepts v with
    | some v => .error (.invalidValue spec.name v)
    | none =>
      match Table.find? given spec.name with
      | none => .ok (given.insert spec.name values)
      | some before =>
        if spec.many then .ok (given.insert spec.name (before ++ values))
        else .error (.repeated spec.name)

/-- An option that still takes values, with those that it has. -/
abbrev Pending := Option (OptionSpec × List String)

/-- Ends an option that still takes values. -/
def settle (given : Given) : Pending → Except UsageError Given
  | none => .ok given
  | some (spec, values) => give given spec values

/-- What an argument is, by its looks. -/
inductive Shape where
  | endOfOptions
  | long (name : String) (value : Option String)
  | letters (letter : Char) (rest : List Char)
  | plain

/-- The looks of an argument. -/
def shape (argument : String) : Shape :=
  match argument.toList with
  | ['-', '-'] => .endOfOptions
  | '-' :: '-' :: cs =>
    match cs.dropWhile (· ≠ '=') with
    | [] => .long (String.ofList cs) none
    | _ :: value => .long (String.ofList (cs.takeWhile (· ≠ '='))) (some (String.ofList value))
  | '-' :: letter :: rest => .letters letter rest
  | _ => .plain

/-- The value that is attached to a letter: an equals sign before it does not count. -/
def attached : List Char → Option String
  | [] => none
  | '=' :: value => some (String.ofList value)
  | value => some (String.ofList value)

/-- Begins an option: with a value attached to it, it is complete. -/
def begin (given : Given) (pending : Pending) (spec : OptionSpec) (value : Option String) :
    Except UsageError (Given × Pending) := do
  let given ← settle given pending
  match value with
  | some value => .ok (← give given spec [value], none)
  | none => .ok (given, some (spec, []))

/-- Takes an argument as a value of the option that waits for one. A single value completes its
option. -/
def takeValue (given : Given) (pending : Pending) (argument : String) :
    Except UsageError (Given × Pending) :=
  match pending with
  | none => .error (.unexpectedArgument argument)
  | some (spec, values) =>
    if spec.many then .ok (given, some (spec, values ++ [argument]))
    else do .ok (← give given spec [argument], none)

/-- Asks for help, once the option before it is complete. -/
def helpAfter {α : Type} (given : Given) (pending : Pending) : Except Refusal α := do
  let _ ← (settle given pending).mapError .usage
  .error .help

/-- Reads the options of a command. -/
def readOptions (specs : List OptionSpec) :
    List String → Given → Pending → Except Refusal Given
  | [], given, pending => (settle given pending).mapError .usage
  | argument :: rest, given, pending =>
    match shape argument with
    | .endOfOptions =>
      match rest with
      | [] => (settle given pending).mapError .usage
      | next :: _ => .error (.usage (.unexpectedArgument next))
    | .long "help" none => helpAfter given pending
    | .long "help" (some _) => .error (.usage (.unexpectedValue "help"))
    | .letters 'h' _ => helpAfter given pending
    | .long name value =>
      match specs.find? fun s => s.name = name with
      | none => .error (.usage (.unknownOption argument))
      | some spec => do
        let (given, pending) ← (begin given pending spec value).mapError .usage
        readOptions specs rest given pending
    | .letters letter cs =>
      match specs.find? fun s => s.letter = some letter with
      | none => .error (.usage (.unknownOption argument))
      | some spec => do
        let (given, pending) ← (begin given pending spec (attached cs)).mapError .usage
        readOptions specs rest given pending
    | .plain => do
      let (given, pending) ← (takeValue given pending argument).mapError .usage
      readOptions specs rest given pending

/-! ## Commands -/

/-- Texts by their names, such as an environment has them. -/
abbrev Environment := Table String

/-- What the program is asked to do. -/
inductive Command where
  /-- Says of every input whether it is a valid document. -/
  | check (inputs : List String)
  /-- Writes a document again. -/
  | normalize (input : String) (out : Option String)
  /-- Makes a calendar of the homework in some documents. -/
  | calendar (inputs : List String) (out name timezone : String) (reminderHour : Nat)
      (durationMinutes : Int)
  /-- Writes the bundled schemas. -/
  | schema (root : String) (out : Option String)
deriving DecidableEq

/-- The inputs of a command that takes several. -/
def OptionSpec.inputs : OptionSpec := ⟨"input", some 'i', .anyText, true⟩

/-- The input of a command that takes one. -/
def OptionSpec.input : OptionSpec := ⟨"input", some 'i', .anyText, false⟩

/-- The file to write. -/
def OptionSpec.out : OptionSpec := ⟨"out", some 'o', .nonEmptyText, false⟩

/-- The name of the calendar. -/
def OptionSpec.calendarName : OptionSpec := ⟨"name", none, .anyText, false⟩

/-- The zone whose evenings bring reminders. -/
def OptionSpec.timezone : OptionSpec := ⟨"timezone", none, .anyText, false⟩

/-- The hour of reminders. -/
def OptionSpec.reminderHour : OptionSpec := ⟨"reminder-hour", none, .number 0 23, false⟩

/-- The length of events. -/
def OptionSpec.durationMinutes : OptionSpec :=
  ⟨"duration-minutes", none, .number integerBounds.1 integerBounds.2, false⟩

/-- The schema at the top of an export. -/
def OptionSpec.root : OptionSpec := ⟨"root", none, .anyText, false⟩

/-- All values of an option that must be given. -/
def required (given : Given) (spec : OptionSpec) : Except Refusal (List String) :=
  match Table.find? given spec.name with
  | some values => .ok values
  | none => .error (.usage (.missingOption spec.name))

/-- The value of an option that may be given once. -/
def single? (given : Given) (spec : OptionSpec) : Option String :=
  (Table.find? given spec.name).bind List.head?

/-- The value of an option that the environment may give instead. -/
def singleOr (given : Given) (environment : Environment) (variableName : String)
    (spec : OptionSpec) (default : String) : Except Refusal String :=
  match single? given spec, Table.find? environment variableName with
  | some value, _ => .ok value
  | none, some value =>
    if spec.kind.accepts value then .ok value
    else .error (.usage (.invalidValue spec.name value))
  | none, none => .ok default

/-- The number that an option was given. -/
def numberOr (given : Given) (spec : OptionSpec) (default : Int) : Int :=
  ((single? given spec).bind integer?).getD default

/-- The names of the commands. -/
def commandNames : List String := ["check", "normalize", "calendar", "schema", "help"]

/-- What the command `help` answers to its arguments: help on the command that they name, or on the
program if they name none. No command has commands of its own. -/
def helpOn : List String → Refusal
  | [] => .help
  | [name] => if name ∈ commandNames then .help else .usage (.unknownCommand name)
  | name :: next :: _ =>
    .usage (.unknownCommand (if name ∈ commandNames then next else name))

/-- Reads the arguments of one command. -/
def readCommand (environment : Environment) (command : String) (arguments : List String) :
    Except Refusal Command :=
  match command with
  | "check" => do
    let given ← readOptions [.inputs] arguments [] none
    .ok (.check (← required given .inputs))
  | "normalize" => do
    let given ← readOptions [.input, .out] arguments [] none
    .ok (.normalize ((← required given .input).headD "") (single? given .out))
  | "calendar" => do
    let given ← readOptions
      [.inputs, .out, .calendarName, .timezone, .reminderHour, .durationMinutes] arguments [] none
    let paths ← required given .inputs
    let target ← singleOr given environment "HUISWERK_ICS_OUT" .out "calendar.ics"
    let title ← singleOr given environment "HUISWERK_CALENDAR_NAME" .calendarName "Huiswerk"
    let zone ← singleOr given environment "HUISWERK_TIMEZONE" .timezone "Europe/Amsterdam"
    .ok (.calendar paths target title zone (numberOr given .reminderHour 17).toNat
      (numberOr given .durationMinutes 60))
  | "schema" => do
    let given ← readOptions [.root, .out] arguments [] none
    .ok (.schema ((single? given .root).getD "Welcome") (single? given .out))
  | "help" => .error (helpOn arguments)
  | other => .error (.usage (.unknownCommand other))

/-- Reads the arguments of the program. -/
def readArguments (environment : Environment) : List String → Except Refusal Command
  | [] => .error (.usage .noCommand)
  | command :: arguments =>
    match shape command with
    | .plain => readCommand environment command arguments
    | .long "help" none => .error .help
    | .letters 'h' _ => .error .help
    | _ => .error (.usage (.unknownOption command))

/-- How the program is used. -/
def usage : String :=
  "Validates homework documents and turns them into a calendar.\n\n" ++
  "  check      -i INPUT...              says of every input whether it is valid\n" ++
  "  normalize  -i INPUT [-o FILE]       writes one document again\n" ++
  "  calendar   -i INPUT... [-o FILE]    writes a calendar\n" ++
  "             [--name TEXT] [--timezone ZONE]\n" ++
  "             [--reminder-hour HOUR] [--duration-minutes MINUTES]\n" ++
  "  schema     [--root NAME] [-o FILE]  writes the schemas of a document\n" ++
  "  help       [COMMAND]                writes this\n\n" ++
  "An input is a path, a pattern of paths, or - for standard input.\n"

end Agenda.CommandLine
