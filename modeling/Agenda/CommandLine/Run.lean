/-
Running a command.

A run is a function: from the arguments, the environment, the files, the standard input and the
moment, to an exit code, the two outputs and the files as they are afterwards. A command is work on
the files, step by step: what it has changed stays changed, also if a later step fails. Inputs are
all loaded before any of them is read as a document, and a file is written last.

Two things are left to the platform that the program runs on: which zones there are by name, and
what the disk does with the files that are read and written. No command looks into them, it only
asks, so a run is a function of the platform as well.
-/
import Agenda.Calendar.Text
import Agenda.CommandLine.Arguments
import Agenda.Document.Text
import Agenda.File.Search
import Agenda.Schema.Export

set_option autoImplicit false

namespace Agenda.CommandLine

/-- What the program finds on the machine that it runs on. The zones are those of a database that
changes from year to year, and the disk is as it is, so neither is part of the program. -/
structure Platform where
  /-- The zone with a name, if the name is known. -/
  zone? : String → Option Zone
  disk : Disk

/-- What a run is given. -/
structure Surroundings where
  environment : Environment
  files : FileSystem
  standardInput : ByteArray
  occasion : Calendar.Occasion

/-- What a command has to say in the end. -/
structure Report where
  code : Nat
  output : String
  errors : List String

/-- What a run leaves behind. -/
structure Outcome extends Report where
  files : FileSystem

/-- Why a command came to nothing. -/
inductive Failure where
  | unreadable (path : String) (reason : FileError)
  | unreadableInput (reason : FileError)
  /-- The folder for a file cannot be made. -/
  | uncreatable (path : String) (reason : FileError)
  /-- A file cannot be opened for writing. -/
  | unwritable (path : String) (reason : FileError)
  /-- A file was opened, and the writing broke off. It is reported like one that is not opened. -/
  | unfinished (path : String) (reason : FileError)
  | badPattern (error : PatternError)
  | nothingMatches (pattern : String)
  | invalidDocument (label : String) (error : DocumentError)
  | unwritableDocument (error : DocumentError)
  | schemaNotFound (name : String)
  | unknownZone (name : String)
  /-- A number left the range in which it has a meaning: a time, or a place in a line. -/
  | overflow

/-- The message of a failure, followed by those of its causes. -/
def Failure.chain : Failure → List String
  | unreadable path reason => ["failed to read source file " ++ path, reason.message]
  | unreadableInput reason => ["failed to read stdin", reason.message]
  | uncreatable path reason => ["failed to create " ++ path, reason.message]
  | unwritable path reason => ["failed to write " ++ path, reason.message]
  | unfinished path reason => ["failed to write " ++ path, reason.message]
  | badPattern error => [error.message]
  | nothingMatches pattern => ["glob pattern matched no files: " ++ pattern]
  | invalidDocument label error => ("invalid document: " ++ label) :: error.chain
  | unwritableDocument error => error.chain
  | schemaNotFound name => [(ConversionError.schemaNotFound name).message]
  | unknownZone name =>
    ["unknown time zone " ++ Quoted.text name ++ ": failed to parse timezone"]
  | overflow => ["a time or a place is out of range"]

/-- Work on the files, which comes to a result or a failure. -/
abbrev Work := EStateM Failure FileSystem

/-- A result that the files give as they are now. -/
def look {α : Type} (f : FileSystem → Except Failure α) : Work α := fun files =>
  match f files with
  | .ok a => .ok a files
  | .error failure => .error failure files

/-- A result that has nothing to do with the files. -/
def compute {α : Type} (result : Except Failure α) : Work α := look fun _ => result

/-! ## Inputs -/

/-- An input that has been loaded. -/
structure Source where
  label : String
  text : String

/-- The paths that an input means. -/
def resolve (files : FileSystem) (input : String) : Except Failure (List String) :=
  if Search.isPattern input then
    match Search.find files input with
    | .error e => .error (.badPattern e)
    | .ok [] => .error (.nothingMatches input)
    | .ok paths => .ok paths
  else .ok [input]

/-- Loads the file at a path. -/
def loadFile (disk : Disk) (files : FileSystem) (path : String) : Except Failure Source :=
  match disk.unreadable path with
  | some e => .error (.unreadable path e)
  | none =>
    match files.read path with
    | .ok text => .ok ⟨path, text⟩
    | .error e => .error (.unreadable path e)

/-- The standard input as a source. -/
def standardSource (standardInput : ByteArray) : Except Failure Source :=
  match textOf standardInput with
  | .ok text => .ok ⟨"<stdin>", text⟩
  | .error e => .error (.unreadableInput e)

/-- Loads inputs in order. The standard input is used up by its first reading. -/
def load (disk : Disk) (files : FileSystem) :
    ByteArray → List String → Except Failure (List Source)
  | _, [] => .ok []
  | standardInput, input :: rest =>
    if input = "-" then do
      let source ← standardSource standardInput
      let more ← load disk files ByteArray.empty rest
      .ok (source :: more)
    else do
      let paths ← resolve files input
      let sources ← paths.mapM (loadFile disk files)
      let more ← load disk files standardInput rest
      .ok (sources ++ more)

/-- Reads a source as a document. -/
def readDocument (source : Source) : Except Failure Document :=
  (Document.read source.text).mapError (.invalidDocument source.label)

/-! ## Outputs -/

/-- Writes a file, making the folders that lead to it. The file is opened, which empties it, before
anything is written to it. -/
def writeFile (disk : Disk) (path text : String) : Work Unit := do
  let parent := FilePath.parent path
  (FileSystem.makeFolders disk parent).adaptExcept (.uncreatable parent)
  let trail ← (FileSystem.create disk path).adaptExcept (.unwritable path)
  (FileSystem.fill disk path text trail).adaptExcept (.unfinished path)

/-- The report of a command that went well. -/
def succeeded (output : String) : Report := ⟨0, output, []⟩

/-- Puts a text into a file, or out if there is none. -/
def emit (disk : Disk) (path : Option String) (text : String) : Work Report :=
  match path with
  | some path => do
    writeFile disk path text
    pure (succeeded "")
  | none => pure (succeeded (text ++ "\n"))

/-! ## Commands -/

/-- The line of a source that has been checked, and whether it is valid. -/
def verdict (source : Source) : Bool × String :=
  match Document.read source.text with
  | .ok _ => (true, "✅ " ++ source.label)
  | .error e => (false, "❌ " ++ source.label ++ ": " ++ e.message)

/-- What the verdicts on some sources come to. -/
def judge (sources : List Source) : Report :=
  let verdicts := sources.map verdict
  ⟨if verdicts.all Prod.fst then 0 else 1, "", verdicts.map Prod.snd⟩

/-- Checks every input. -/
def check (p : Platform) (s : Surroundings) (inputs : List String) : Work Report := do
  let sources ← look fun files => load p.disk files s.standardInput inputs
  pure (judge sources)

/-- Loads the one input of a command that takes no pattern. -/
def loadSingle (disk : Disk) (s : Surroundings) (input : String) : Except Failure Source :=
  if input = "-" then standardSource s.standardInput else loadFile disk s.files input

/-- Writes one document again. Its input is never taken for a pattern. -/
def normalize (p : Platform) (s : Surroundings) (input : String) (out : Option String) :
    Work Report := do
  let source ← look fun files => loadSingle p.disk { s with files } input
  let document ← compute (readDocument source)
  let text ← compute ((Document.write document).mapError .unwritableDocument)
  emit p.disk out text

/-- How a calendar is to be made, if there is such a zone and such a length of events. -/
def calendarOptions (p : Platform) (name timezone : String) (reminderHour : Nat)
    (durationMinutes : Int) : Except Failure Calendar.Options :=
  match p.zone? timezone with
  | none => .error (.unknownZone timezone)
  | some zone =>
    match Duration.ofMinutes? durationMinutes with
    | none => .error .overflow
    | some duration => .ok ⟨name, zone, reminderHour, duration⟩

/-- The homework of several documents, once each and in order. -/
def homeworkOf (documents : List Document) : List Homework :=
  Homework.unique (documents.flatMap Homework.ofDocument)

/-- The calendar of several documents. -/
def calendarText (options : Calendar.Options) (occasion : Calendar.Occasion)
    (documents : List Document) : Except Failure String :=
  (Calendar.text options occasion (homeworkOf documents)).mapError fun _ => .overflow

/-- Makes a calendar. -/
def calendar (p : Platform) (s : Surroundings) (inputs : List String)
    (out name timezone : String) (reminderHour : Nat) (durationMinutes : Int) : Work Report := do
  let options ← compute (calendarOptions p name timezone reminderHour durationMinutes)
  let sources ← look fun files => load p.disk files s.standardInput inputs
  let documents ← compute (sources.mapM readDocument)
  let text ← compute (calendarText options s.occasion documents)
  writeFile p.disk out text
  pure (succeeded "")

/-- Writes the bundled schemas. -/
def schema (p : Platform) (root : String) (out : Option String) : Work Report :=
  match Document.registry.jsonSchema? root with
  | some v => emit p.disk out v.pretty
  | none => throw (.schemaNotFound root)

/-- Runs a command. -/
def runCommand (p : Platform) (s : Surroundings) : Command → Work Report
  | .check inputs => check p s inputs
  | .normalize input out => normalize p s input out
  | .calendar inputs out name timezone hour minutes =>
    calendar p s inputs out name timezone hour minutes
  | .schema root out => schema p root out

/-- The exit code of a run that fails. -/
def failureCode : Nat := 1

/-- The exit code of arguments that make no command. -/
def usageCode : Nat := 2

/-- The exit code of a run in which a number leaves its range. -/
def overflowCode : Nat := 101

/-- The exit code of a failure. -/
def Failure.code : Failure → Nat
  | .overflow => overflowCode
  | _ => failureCode

/-- The report of a failed command. -/
def failed (failure : Failure) : Report :=
  ⟨failure.code, "", ["error: " ++ ": ".intercalate failure.chain]⟩

/-- The report of arguments that make no command. -/
def refused : Refusal → Report
  | .help => succeeded usage
  | .usage e => ⟨usageCode, "", ["error: " ++ e.message]⟩

/-- Runs the program on a platform. -/
def runOn (p : Platform) (s : Surroundings) (arguments : List String) : Outcome :=
  match readArguments s.environment arguments with
  | .error refusal => ⟨refused refusal, s.files⟩
  | .ok command =>
    match (runCommand p s command).run s.files with
    | .ok report files => ⟨report, files⟩
    | .error failure files => ⟨failed failure, files⟩

/-- A platform to run on where no other is at hand. It knows a few zones, those of the table, and
its disk does what it is asked for. -/
def Platform.plain : Platform := ⟨Zone.named?, .willing⟩

/-- Runs the program on that platform. -/
def run (s : Surroundings) (arguments : List String) : Outcome := runOn .plain s arguments

end Agenda.CommandLine
