/-
Finding files by a pattern.

A pattern is followed step by step. A step without wildcards only looks whether such an entry is
there; a step with wildcards is held against every entry of the folder, in order of their names;
two stars try the steps after them at every depth. Names are tried from the left, and a folder is
searched before the entries after it, so the paths that are found come in order.
-/
import Agenda.File.Pattern

set_option autoImplicit false

namespace Agenda

namespace Search

/-- One step of a pattern. -/
abbrev PatternStep := List Glyph

/-- Whether a step stands for any folders. -/
def isRecursive (s : PatternStep) : Bool := Glyph.anyFolders ∈ s

/-- The steps after leading ones that stand for any folders. -/
def dropRecursive (steps : List PatternStep) : List PatternStep := steps.dropWhile isRecursive

/-- Whether a path is a way of writing the folder where paths start. -/
def isHere (path : String) : Bool :=
  match FilePath.steps path with
  | "." :: rest => rest.all fun s => s = "" || s = "."
  | _ => false

/-- The path of an entry of a folder. Entries of the folder where paths start have no more than a
name. -/
def entryPath (folder name : String) : String :=
  if isHere folder then name else FilePath.join folder name

/-- The last step of a path. -/
def lastName (path : String) : List Char := ((FilePath.steps path).getLastD "").toList

/-- The names of the entries of a folder in order. -/
def entryNames (fs : FileSystem) (path : String) : List String :=
  match fs.node? path with
  | some (.folder entries) => (Table.keys entries).mergeSort fun a b => a ≤ b
  | _ => []

/-- What is found, given whether only folders are wanted. -/
def keep (fs : FileSystem) (foldersOnly : Bool) (path : String) : List String :=
  if foldersOnly && !fs.hasFolder path then [] else [path]

/-- The entries that a step matches although no folder lists them: the folder itself and the one
above. Only a step that begins with a point can mean them. -/
def unlisted (step : PatternStep) : List String :=
  if step.head? = some (.char '.') then
    ["..", "."].filter fun name => Glyph.accepts step name.toList
  else []

mutual

/-- The paths below a folder that match the steps. The first argument bounds the number of steps
that are taken. -/
def below (fs : FileSystem) (foldersOnly : Bool) : Nat → List PatternStep → String → List String
  | 0, _, _ => []
  | _, [], _ => []
  | fuel + 1, step :: rest, path =>
    let onward := fun next =>
      if rest.isEmpty then keep fs foldersOnly next else below fs foldersOnly fuel rest next
    match Glyph.literal? step with
    | some name =>
      let name := String.ofList name
      let next := entryPath path name
      if (if name = "." ∨ name = ".." then fs.hasFolder path else (fs.node? next).isSome) then
        onward next
      else []
    | none =>
      ((if fs.hasFolder path then unlisted step else []).flatMap fun name =>
        onward (FilePath.join path name)) ++
      (entryNames fs path).flatMap fun name =>
        visit fs foldersOnly fuel (step :: rest) (entryPath path name)

/-- The paths that match the steps, the first of which is held against the last name of a path. -/
def visit (fs : FileSystem) (foldersOnly : Bool) : Nat → List PatternStep → String → List String
  | 0, _, _ => []
  | _, [], _ => []
  | fuel + 1, step :: rest, path =>
    let matching := fun (steps : List PatternStep) =>
      match steps with
      | [] => []
      | step :: rest =>
        if Glyph.accepts step (lastName path) then
          if rest.isEmpty then keep fs foldersOnly path else below fs foldersOnly fuel rest path
        else []
    if isRecursive step then
      let after := dropRecursive rest
      if fs.hasFolder path then
        (if after.isEmpty then [path] else matching after) ++
          below fs foldersOnly fuel (step :: after) path
      else matching after
    else matching (step :: rest)

end

/-- More steps than any search in a file system takes. -/
def stepBound (fs : FileSystem) (steps : List PatternStep) : Nat :=
  2 * (steps.length + 1) * (fs.root.height + 2)

/-- The steps of a pattern; a slash at its end begins no further step. -/
def patternSteps (pattern : String) : List String :=
  let steps := FilePath.steps pattern
  if steps.getLast? = some "" then steps.dropLast else steps

/-- Whether a pattern ends in a slash. -/
def wantsFolders (pattern : String) : Bool := pattern.toList.getLast? = some '/'

/-- The paths that match a pattern. -/
def find (fs : FileSystem) (pattern : String) : Except PatternError (List String) := do
  let _ ← Glyph.read pattern
  let absolute := FilePath.isAbsolute pattern
  let steps ← (patternSteps (if absolute then String.ofList pattern.toList.tail else pattern)).mapM
    Glyph.read
  .ok (below fs (wantsFolders pattern) (stepBound fs steps) steps (if absolute then "/" else "."))

/-- Whether a text is taken for a pattern. -/
def isPattern (text : String) : Bool :=
  text.toList.any fun c => c = '*' || c = '?' || c = '[' || c = '{'

end Search

end Agenda
