/-
Files and folders.

A file system is a tree of folders with bytes in its files, and a folder in which paths start. A
path is followed step by step from there: an empty step and a point stay where they are, two
points go up, and a name goes down, each of them only out of a folder. Reading follows a path to a
file, whose bytes may or may not be those of a text. Writing follows all but the last step, opens
the file there, over one that is there already, and then fills it; folders on the way are made
beforehand, as far as they are missing.

What paths lead to is not all that counts. A system may keep a file from being opened or a folder
from being made, and a disk may be full before a file is. None of this can be told from the tree, so
it is given beside it, as what the disk answers when it is asked.

A change is a computation over the files. One that fails leaves the files as they were when it
failed: the folders that it had made until then stay, and so do the bytes that had been taken.
-/
import Agenda.Table

set_option autoImplicit false

namespace Agenda

/-- A file or a folder. Any bytes can be in a file, be they a text or not. -/
inductive Node where
  | file (bytes : ByteArray)
  | folder (entries : List (String × Node))

instance : Inhabited Node := ⟨.folder []⟩

/-- A text stands for its bytes where bytes are asked for. -/
instance coeBytes : Coe String ByteArray := ⟨String.toUTF8⟩

/-- Why a file cannot be read or written. -/
inductive FileError where
  | notFound
  | fileExists
  | notFolder
  | isFolder
  /-- What is read are not the bytes of a text. -/
  | notText
  /-- Any other reason that a system may have, with its wording and its customary number. -/
  | other (wording : String) (number : Nat)
deriving DecidableEq

/-- The wording of the reason, with its customary number if it has one. -/
def FileError.message : FileError → String
  | notFound => "No such file or directory (os error 2)"
  | fileExists => "File exists (os error 17)"
  | notFolder => "Not a directory (os error 20)"
  | isFolder => "Is a directory (os error 21)"
  | notText => "stream did not contain valid UTF-8"
  | other wording number => wording ++ " (os error " ++ toString number ++ ")"

/-- Bytes as a text, if they are one. -/
def textOf (bytes : ByteArray) : Except FileError String :=
  match String.fromUTF8? bytes with
  | some text => .ok text
  | none => .error .notText

namespace Node

/-- What stands at the end of a trail of names. -/
def find? : Node → List String → Option Node
  | node, [] => some node
  | file _, _ :: _ => none
  | folder entries, name :: rest => (Table.find? entries name).bind fun node => node.find? rest

/-- Puts a node at the end of a trail, with folders on the way. Files on the way give place to
folders. -/
def put : Node → List String → Node → Node
  | _, [], node => node
  | file _, name :: rest, node => folder [(name, (folder []).put rest node)]
  | folder entries, name :: rest, node =>
    folder (Table.insert entries name (((Table.find? entries name).getD (folder [])).put rest node))

/-- Whether this is a folder. -/
def isFolder : Node → Bool
  | folder _ => true
  | file _ => false

mutual

/-- The files below a node that are texts, with their paths, each path going on from `start`. -/
def files (start : String) : Node → List (String × String)
  | file bytes => ((textOf bytes).toOption.map fun text => (start, text)).toList
  | folder entries => filesOf start entries

/-- The files below the entries of a folder. -/
def filesOf (start : String) : List (String × Node) → List (String × String)
  | [] => []
  | (name, node) :: rest =>
    node.files (if start.isEmpty then name else start ++ "/" ++ name) ++ filesOf start rest

end

mutual

/-- The number of steps down to the deepest entry. -/
def height : Node → Nat
  | file _ => 0
  | folder entries => heightOf entries + 1

/-- The greatest height among the entries of a folder. -/
def heightOf : List (String × Node) → Nat
  | [] => 0
  | (_, node) :: rest => max node.height (heightOf rest)

end

end Node

/-! ## Paths -/

namespace FilePath

/-- The steps of a path. -/
def steps (path : String) : List String :=
  (path.toList.splitOn '/').map String.ofList

/-- Whether a path starts at the root. -/
def isAbsolute (path : String) : Bool := path.toList.head? = some '/'

/-- Drops what says nothing at the end of a reversed path: slashes, and points after slashes. -/
def trimEnd : List Char → List Char
  | '/' :: c :: rest => trimEnd (c :: rest)
  | '.' :: '/' :: c :: rest => trimEnd (c :: rest)
  | rest => rest

/-- The path of the folder in which a path ends; empty if the path is a single step. -/
def parent (path : String) : String :=
  String.ofList (trimEnd ((trimEnd path.toList.reverse).dropWhile (· ≠ '/'))).reverse

/-- A path that goes on by a name. -/
def join (path name : String) : String :=
  if path.toList.getLast? = some '/' then path ++ name else path ++ "/" ++ name

end FilePath

/-! ## Disks -/

/-- What a system does of its own accord with the files that it is asked for, whatever the paths
lead to. It may refuse: a folder is closed to the program, a name is too long, a disk may not be
written. And it may take only a part of what is written to a file, because the disk is full by
then. -/
structure Disk where
  /-- Why the file at a path is not opened for reading. -/
  unreadable : String → Option FileError
  /-- Why no folder is made at the end of a trail. -/
  unmakable : List String → Option FileError
  /-- Why the file at a path is not opened for writing. -/
  unwritable : String → Option FileError
  /-- Of so many bytes for the file at a path, how many are taken before the writing breaks off, and
  why it does. It does not break off when all of them are taken. -/
  breaksOff : String → (size : Nat) → Option (Fin size × FileError)

/-- A disk that does whatever it is asked for. -/
def Disk.willing : Disk := ⟨fun _ => none, fun _ => none, fun _ => none, fun _ _ => none⟩

/-! ## File systems -/

/-- A tree, and the trail of names to the folder in which relative paths start. -/
structure FileSystem where
  root : Node
  current : List String

namespace FileSystem

/-- One step from a trail, which is kept in reverse. -/
def step (fs : FileSystem) (trail : List String) (name : String) : Except FileError (List String) :=
  match fs.root.find? trail.reverse with
  | none => .error .notFound
  | some (.file _) => .error .notFolder
  | some (.folder entries) =>
    if name = "" ∨ name = "." then .ok trail
    else if name = ".." then .ok trail.tail
    else if (Table.find? entries name).isSome then .ok (name :: trail)
    else .error .notFound

/-- Where a path starts. -/
def start (fs : FileSystem) (path : String) : List String :=
  if FilePath.isAbsolute path then [] else fs.current.reverse

/-- The reversed trail to which a path leads. -/
def trail (fs : FileSystem) (path : String) : Except FileError (List String) :=
  if path.isEmpty then .error .notFound
  else (FilePath.steps path).foldlM fs.step (fs.start path)

/-- What stands at a path. -/
def node? (fs : FileSystem) (path : String) : Option Node :=
  match fs.trail path with
  | .ok trail => fs.root.find? trail.reverse
  | .error _ => none

/-- Whether a path leads to a folder. -/
def hasFolder (fs : FileSystem) (path : String) : Bool := (fs.node? path).any Node.isFolder

/-- The text of the file at a path. -/
def read (fs : FileSystem) (path : String) : Except FileError String := do
  let trail ← fs.trail path
  match fs.root.find? trail.reverse with
  | some (.file bytes) => textOf bytes
  | some (.folder _) => .error .isFolder
  | none => .error .notFound

/-! ## Writing -/

/-- Something done to the files, which may fail on the way. -/
abbrev Change := EStateM FileError FileSystem

/-- The files with a node at the end of a reversed trail. -/
def put (fs : FileSystem) (trail : List String) (node : Node) : FileSystem :=
  { fs with root := fs.root.put trail.reverse node }

/-- One step from a folder to an entry, which need not be there yet. -/
def entry (fs : FileSystem) (folder : List String) (name : String) :
    Except FileError (List String) :=
  match fs.step folder name with
  | .error .notFound =>
    if (fs.root.find? folder.reverse).isSome then .ok (name :: folder) else .error .notFound
  | result => result

/-- Follows steps and makes the folders that are missing, unless the disk refuses. Where a file
stands in the way, it counts as no folder if all the steps before it were there already and others
come after it. -/
def makeSteps (disk : Disk) (made : Bool) (trail : List String) : List String → Change Unit
  | [] => pure ()
  | name :: rest => fun fs =>
    match fs.entry trail name with
    | .error e => .error e fs
    | .ok next =>
      match fs.root.find? next.reverse with
      | some (.file _) => .error (if made || rest.isEmpty then .fileExists else .notFolder) fs
      | some (.folder _) => makeSteps disk made next rest fs
      | none =>
        match disk.unmakable next.reverse with
        | some e => .error e fs
        | none => makeSteps disk true next rest (fs.put next (.folder []))

/-- Makes the folder at a path and those that lead to it. -/
def makeFolders (disk : Disk) (path : String) : Change Unit := fun fs =>
  if path.isEmpty then .ok () fs
  else makeSteps disk false (fs.start path) (FilePath.steps path) fs

/-- The reversed trail at which a file is put that is written to a path. Its folder must be there,
and no folder may stand in its place. -/
def target (fs : FileSystem) (path : String) : Except FileError (List String) := do
  let steps := FilePath.steps path
  let named := (steps.reverse.dropWhile String.isEmpty).reverse
  let folder ← named.dropLast.foldlM fs.step (fs.start path)
  match named.getLast? with
  | none => .error (if path.isEmpty then .notFound else .isFolder)
  | some name =>
    let trail ← fs.entry folder name
    if named.length < steps.length ∨ (fs.root.find? trail.reverse).any Node.isFolder then
      .error .isFolder
    else .ok trail

/-- Opens the file at a path for writing, whose folder must be there, and answers where it is. From
then on the file is there and empty, whatever was in it before. -/
def create (disk : Disk) (path : String) : Change (List String) := fun fs =>
  match disk.unwritable path with
  | some e => .error e fs
  | none =>
    match fs.target path with
    | .error e => .error e fs
    | .ok trail => .ok trail (fs.put trail (.file ByteArray.empty))

/-- Fills a file that has been opened. If the disk breaks off, the bytes stay that it had taken. -/
def fill (disk : Disk) (path : String) (bytes : ByteArray) (trail : List String) : Change Unit :=
  fun fs =>
    match disk.breaksOff path bytes.size with
    | some (taken, e) => .error e (fs.put trail (.file (bytes.extract 0 taken)))
    | none => .ok () (fs.put trail (.file bytes))

/-! ## Listing -/

/-- A file system that starts in a folder with these files. -/
def ofFiles (current : List String) (files : List (String × String)) : FileSystem :=
  let folder := files.foldl (fun n f => n.put (FilePath.steps f.1) (.file f.2)) (Node.folder [])
  ⟨(Node.folder []).put current folder, current⟩

/-- The files in the folder where paths start and below it, as far as they are texts. -/
def files (fs : FileSystem) : List (String × String) :=
  ((fs.root.find? fs.current).map (Node.files "")).getD []

/-- The files that are new or different, in order of their paths. -/
def changesSince (fs before : FileSystem) : List (String × String) :=
  let old := before.files
  (fs.files.filter fun f => Table.find? old f.1 ≠ some f.2).mergeSort fun f g => f.1 ≤ g.1

end FileSystem

end Agenda
