/-
The program.

Running a command is a function of what the command looks at. This module gathers that beforehand
and carries out the result: it loads the files that the arguments name, together with the folders on
the way to them, asks for the time and for random bits, and afterwards prints, and writes the file
that the command has made. What the disk refuses by then ends the program.
-/
import Agenda.CommandLine.Run
import Std.Time.DateTime.Timestamp

set_option autoImplicit false

namespace Agenda.Main

open CommandLine (Command Environment readArguments)

/-! ## Loading files -/

/-- The trail of names that a path means if none of them is a link. -/
def trailOf (current : List String) (path : String) : List String :=
  (FilePath.steps path).foldl
    (fun trail step =>
      if step = "" ∨ step = "." then trail
      else if step = ".." then trail.dropLast
      else trail ++ [step])
    (if FilePath.isAbsolute path then [] else current)

/-- The paths that lead to a path, which itself comes last. -/
def pathsTo (path : String) : List String :=
  let steps := FilePath.steps path
  (List.range steps.length).map fun n => "/".intercalate (steps.take (n + 1))

/-- A file system with nothing but the folder in which the program runs. -/
def emptyFileSystem : IO FileSystem := do
  let here := trailOf [] (← IO.currentDir).toString
  return FileSystem.ofFiles here []

/-- Loads what stands at a path and on the way to it. In a file is what `bytesOf` makes of its
path. -/
def loadPath (bytesOf : String → IO ByteArray) (fs : FileSystem) (path : String) :
    IO FileSystem := do
  let here ← IO.currentDir
  (pathsTo path).foldlM
    (fun fs path => do
      let trail := trailOf fs.current path
      if ← (here / path).isDir then
        if (fs.root.find? trail).isSome then return fs
        return { fs with root := fs.root.put trail (.folder []) }
      if ← (here / path).pathExists then
        return { fs with root := fs.root.put trail (.file (← bytesOf path)) }
      return fs)
    fs

/-- The tree below a path down to some depth, its files without anything in them. -/
def bareTree : Nat → String → IO Node
  | 0, _ => return .folder []
  | depth + 1, path => do
    let place := (← IO.currentDir) / path
    if ← place.isDir then
      let entries ← try place.readDir catch _ => pure #[]
      return .folder (← entries.toList.mapM fun e => do
        return (e.fileName, ← bareTree depth (FilePath.join path e.fileName)))
    return .file ByteArray.empty

/-- More steps than a path on a disk has. -/
def deepest : Nat := 4096

/-- The path of the folder that all matches of a pattern share, and the number of steps below it
that a match can have. -/
def sharedFolder (pattern : String) : String × Nat :=
  let steps := FilePath.steps pattern
  let shared := steps.takeWhile fun s => !Search.isPattern s
  let path := "/".intercalate shared
  let depth := if "**" ∈ steps then deepest else steps.length - shared.length + 1
  if path.isEmpty then (if FilePath.isAbsolute pattern then "/" else ".", depth) else (path, depth)

/-- The paths that a pattern finds. -/
def findPaths (pattern : String) : IO (List String) := do
  let fs ← emptyFileSystem
  let (folder, depth) := sharedFolder pattern
  let tree ← bareTree depth folder
  match Search.find { fs with root := fs.root.put (trailOf fs.current folder) tree } pattern with
  | .ok paths => return paths
  | .error _ => return []

/-! ## What a command looks at -/

/-- The inputs of a command that may be patterns, and those that are paths. -/
def inputsOf : Command → List String × List String
  | .check inputs => inputs.partition Search.isPattern
  | .normalize input _ => ([], [input])
  | .calendar inputs .. => inputs.partition Search.isPattern
  | .schema .. => ([], [])

/-- The file that a command writes. -/
def targetOf : Command → Option String
  | .check _ => none
  | .normalize _ out => out
  | .calendar _ out .. => some out
  | .schema _ out => out

/-- The files that a command looks at. The file that it writes matters by its presence alone. -/
def filesFor (command : Command) : IO FileSystem := do
  let (patterns, paths) := inputsOf command
  let found ← patterns.mapM findPaths
  let fs ← emptyFileSystem
  let fs ← (targetOf command).toList.foldlM (loadPath fun _ => pure ByteArray.empty) fs
  (found.flatten ++ paths).foldlM (loadPath fun path => IO.FS.readBinFile path) fs

/-- The standard input, if a command reads it. -/
def standardInputFor (command : Command) : IO ByteArray := do
  if "-" ∈ (inputsOf command).2 then return (← (← IO.getStdin).readToEnd) else return ""

/-- The variables that the program knows. -/
def variableNames : List String :=
  ["HUISWERK_ICS_OUT", "HUISWERK_CALENDAR_NAME", "HUISWERK_TIMEZONE"]

/-- The part of the environment that the program knows. -/
def environment : IO Environment := do
  let known ← variableNames.mapM fun name => return (name, ← IO.getEnv name)
  return known.filterMap fun v => v.2.map fun value => (v.1, value)

/-- The text of 128 bits as an identifier of the random kind. -/
def identifierText (bits : Nat) : List Char :=
  let digits := Nat.toDigits 16 (bits % Nat.pow 2 128)
  let digits := List.replicate (32 - digits.length) '0' ++ digits
  let part := fun (start count : Nat) => (digits.drop start).take count
  part 0 8 ++ '-' :: part 8 4 ++ '-' :: '4' :: part 13 3 ++ '-' :: 'a' :: part 17 3 ++
    '-' :: part 20 12

/-- The present moment, with identifiers that count on from random bits. -/
def occasion : IO Calendar.Occasion := do
  let second := (← Std.Time.Timestamp.now).toSecondsSinceUnixEpoch.val
  let bytes ← IO.getRandomBytes 16
  let bits := bytes.toList.foldl (fun n b => n * 256 + b.toNat) 0
  let now := ((Instant.ofParts? second 0).map Instant.stamp).getD []
  return ⟨now, fun n => identifierText (bits + n)⟩

/-! ## Carrying out a run -/

/-- Makes the folders that a run has made, and writes the file that it has made or changed. -/
def writeTarget (before after : FileSystem) (path : String) : IO Unit := do
  for folder in pathsTo (FilePath.parent path) do
    if after.hasFolder folder && !before.hasFolder folder then IO.FS.createDirAll folder
  match before.read path, after.read path with
  | .ok old, .ok new => if old ≠ new then IO.FS.writeFile path new
  | .error _, .ok new => IO.FS.writeFile path new
  | _, .error _ => return

/-- Runs the program and answers its exit code. -/
def run (arguments : List String) : IO Nat := do
  let environment ← environment
  let command := (readArguments environment arguments).toOption
  let files ← match command with
    | some command => filesFor command
    | none => emptyFileSystem
  let standardInput ← match command with
    | some command => standardInputFor command
    | none => pure ByteArray.empty
  let outcome := CommandLine.run ⟨environment, files, standardInput, ← occasion⟩ arguments
  IO.print outcome.output
  outcome.errors.forM fun line => IO.eprintln line
  (command.bind targetOf).forM (writeTarget files outcome.files)
  return outcome.code

end Agenda.Main

/-- The entry of the program. A file that cannot be read as a text ends the run. -/
def main (arguments : List String) : IO UInt32 := do
  try
    return (← Agenda.Main.run arguments).toUInt32
  catch e =>
    IO.eprintln ("error: " ++ toString e)
    return 1
