/-
Work on the files, taken apart.

A command looks at the files, goes on with what it has seen, and may write in the end. One rule for
each way in which such a step comes out lets a proof follow a command step by step. What the writing
of a file may come to is said once, and what holds if it goes well and what is left if it fails are
both read off from there.

The last part is about failing. Work that only looks leaves the files as they were. Work that writes
makes folders, opens a file and fills it, and what is left when one of these fails is not the same:
only once the file is open does its old content go.
-/
import Agenda.CommandLine.Run
import Agenda.Proofs.File.Keeping

set_option autoImplicit false

namespace Agenda.CommandLine

variable {α β : Type} {f : FileSystem → Except Failure α} {next : α → Work β} {work : Work α}
  {files after : FileSystem} {failure : Failure}

/-! ## Steps -/

/-- What has been seen is gone on with. -/
theorem look_bind_ok {a : α} (h : f files = .ok a) :
    (look f >>= next).run files = (next a).run files := by
  rw [EStateM.run_bind, EStateM.run, look, h]

/-- Work ends where looking fails. -/
theorem look_bind_error (h : f files = .error failure) :
    (look f >>= next).run files = .error failure files := by
  rw [EStateM.run_bind, EStateM.run, look, h]

theorem compute_bind_ok {result : Except Failure α} {a : α} (h : result = .ok a) :
    (compute result >>= next).run files = (next a).run files := look_bind_ok h

theorem compute_bind_error {result : Except Failure α} (h : result = .error failure) :
    (compute result >>= next).run files = .error failure files := look_bind_error h

/-! ## Inputs -/

/-- A text on the standard input is loaded as it is. -/
theorem standardSource_toUTF8 (text : String) :
    standardSource text.toUTF8 = .ok ⟨"<stdin>", text⟩ := by
  rw [standardSource, textOf_toUTF8]

theorem loadFile_of_read {disk : Disk} {path text : String} (hdisk : disk.unreadable path = none)
    (h : files.read path = .ok text) : loadFile disk files path = .ok ⟨path, text⟩ := by
  rw [loadFile, hdisk]
  dsimp only
  rw [h]

/-- Inputs that are neither the standard input nor patterns are the paths of files. -/
theorem load_paths (disk : Disk) (files : FileSystem) (standardInput : ByteArray)
    {inputs : List String}
    (h : ∀ input ∈ inputs, input ≠ "-" ∧ Search.isPattern input = false) :
    load disk files standardInput inputs = inputs.mapM (loadFile disk files) := by
  induction inputs with
  | nil => rfl
  | cons input rest ih =>
      -- each input comes to a list of one path, and the sources are put in a row
      obtain ⟨hinput, hrest⟩ := List.forall_mem_cons.1 h
      rw [load, if_neg hinput.1, ih hrest, resolve, hinput.2, List.mapM_cons,
        if_neg Bool.false_ne_true, Result.ok_bind, List.mapM_cons, List.mapM_nil]
      cases loadFile disk files input <;> rfl

/-! ## Runs -/

section

variable {p : Platform} {s : Surroundings} {arguments : List String} {command : Command}
  {report : Report}

theorem failed_code_ne_zero (failure : Failure) : (failed failure).code ≠ 0 := by
  show failure.code ≠ 0
  unfold Failure.code
  split
  · decide
  · decide

/-- A run whose command comes to a result. -/
theorem runOn_of_ok (harguments : readArguments s.environment arguments = .ok command)
    (h : (runCommand p s command).run s.files = .ok report after) :
    runOn p s arguments = ⟨report, after⟩ := by
  rw [runOn, harguments]
  dsimp only
  rw [h]

/-- A run whose command fails. -/
theorem runOn_of_error (harguments : readArguments s.environment arguments = .ok command)
    (h : (runCommand p s command).run s.files = .error failure after) :
    runOn p s arguments = ⟨failed failure, after⟩ := by
  rw [runOn, harguments]
  dsimp only
  rw [h]

end

/-! ## Writing -/

/-- The ways in which the writing of a file may end, each with what led to it. First the folders are
made, then the file is opened, which empties it, and then it is filled, and the disk has a say in
all three. -/
inductive WriteEnds (disk : Disk) (path text : String) (files : FileSystem) : Prop where
  | uncreatable {reason : FileError} {after : FileSystem}
      (hfolders : (FileSystem.makeFolders disk (FilePath.parent path)).run files =
        .error reason after)
      (hrun : (writeFile disk path text).run files =
        .error (.uncreatable (FilePath.parent path) reason) after)
  | unwritable {reason : FileError} {between : FileSystem}
      (hfolders : (FileSystem.makeFolders disk (FilePath.parent path)).run files =
        .ok () between)
      (hopens : disk.unwritable path = some reason ∨ between.target path = .error reason)
      (hrun : (writeFile disk path text).run files = .error (.unwritable path reason) between)
  | unfinished {taken : Fin text.toUTF8.size} {reason : FileError} {between : FileSystem}
      {trail : List String}
      (hfolders : (FileSystem.makeFolders disk (FilePath.parent path)).run files =
        .ok () between)
      (htarget : between.target path = .ok trail)
      (hbreaks : disk.breaksOff path text.toUTF8.size = some (taken, reason))
      (hrun : (writeFile disk path text).run files = .error (.unfinished path reason)
        (between.put trail (.file (text.toUTF8.extract 0 taken))))
  | written {between : FileSystem} {trail : List String}
      (hfolders : (FileSystem.makeFolders disk (FilePath.parent path)).run files =
        .ok () between)
      (htarget : between.target path = .ok trail)
      (hbreaks : disk.breaksOff path text.toUTF8.size = none)
      (hrun : (writeFile disk path text).run files = .ok () (between.put trail (.file text)))

/-- The writing of a file ends in one of these ways. This is the only place where it is followed
step by step. -/
theorem writeFile_ends (disk : Disk) (path text : String) (files : FileSystem) :
    WriteEnds disk path text files := by
  cases hfolders : (FileSystem.makeFolders disk (FilePath.parent path)).run files with
  | error reason after =>
      apply WriteEnds.uncreatable hfolders
      unfold writeFile
      rw [EStateM.run_bind, EStateM.run_adaptExcept, hfolders]
  | ok _ between =>
      rcases FileSystem.create_eq disk path between with ⟨reason, hopens, hcreate⟩ |
        ⟨trail, htarget, hcreate⟩
      · apply WriteEnds.unwritable hfolders hopens
        unfold writeFile
        rw [EStateM.run_bind, EStateM.run_adaptExcept, hfolders]
        dsimp only
        rw [EStateM.run_bind, EStateM.run_adaptExcept, hcreate]
      · -- from here on the old content is gone, and it is for the disk to say how far it gets
        have hfill : (writeFile disk path text).run files =
            ((FileSystem.fill disk path text trail).adaptExcept (.unfinished path)).run
              (between.put trail (.file ByteArray.empty)) := by
          unfold writeFile
          rw [EStateM.run_bind, EStateM.run_adaptExcept, hfolders]
          dsimp only
          rw [EStateM.run_bind, EStateM.run_adaptExcept, hcreate]
        rw [EStateM.run_adaptExcept] at hfill
        rcases FileSystem.fill_eq disk path text.toUTF8 trail between with
          ⟨taken, reason, hbreaks, hrun⟩ | ⟨hbreaks, hrun⟩
        · apply WriteEnds.unfinished hfolders htarget hbreaks
          rw [hfill, hrun]
        · apply WriteEnds.written hfolders htarget hbreaks
          rw [hfill, hrun]

/-! ## Failing -/

/-- Work that leaves the files as they are. -/
def OnlyLooks (work : Work α) : Prop := ∀ files, FileSystem.left (work.run files) = files

/-- What a failure leaves of the files. The last three are those of an output, step by step: folders
may have been made when one of them cannot be, they have all been made when the file cannot be
opened, and when the writing breaks off the file holds what the disk had taken of the text. -/
inductive Leaves (disk : Disk) (before : FileSystem) : Failure → FileSystem → Prop where
  | same (failure : Failure) : Leaves disk before failure before
  | uncreatable {path : String} {reason : FileError} {after : FileSystem}
      (hkeeps : before.Keeps after) : Leaves disk before (.uncreatable path reason) after
  | unwritable {path : String} {reason : FileError} {after : FileSystem}
      (hkeeps : before.Keeps after) : Leaves disk before (.unwritable path reason) after
  | unfinished {path text : String} {taken : Fin text.toUTF8.size} {reason : FileError}
      {between : FileSystem} {trail : List String} (hkeeps : before.Keeps between)
      (htarget : between.target path = .ok trail)
      (hbreaks : disk.breaksOff path text.toUTF8.size = some (taken, reason)) :
      Leaves disk before (.unfinished path reason)
        (between.put trail (.file (text.toUTF8.extract 0 taken)))

/-- Work that changes files in going well, and otherwise in none but these ways. -/
structure Careful (disk : Disk) (work : Work Report) : Prop where
  reports {files after : FileSystem} {report : Report} (h : work.run files = .ok report after) :
    report.code = 0 ∨ after = files
  fails {files after : FileSystem} {failure : Failure} (h : work.run files = .error failure after) :
    Leaves disk files failure after

/-- After looking, work goes on with the same files, or it ends there. -/
theorem OnlyLooks.run_bind (h : OnlyLooks work) (next : α → Work β) (files : FileSystem) :
    (∃ a, (work >>= next).run files = (next a).run files) ∨
      ∃ failure, (work >>= next).run files = .error failure files := by
  have hleft := h files
  rw [EStateM.run_bind]
  cases hwork : work.run files with
  | ok a between =>
      rw [hwork] at hleft
      obtain rfl : between = files := hleft
      exact .inl ⟨a, rfl⟩
  | error failure between =>
      rw [hwork] at hleft
      obtain rfl : between = files := hleft
      exact .inr ⟨failure, rfl⟩

/-- What comes after looking is as careful as it is by itself. -/
theorem OnlyLooks.bind {disk : Disk} {next : α → Work Report} (h : OnlyLooks work)
    (hnext : ∀ a, Careful disk (next a)) : Careful disk (work >>= next) := by
  constructor
  · intro files after report hok
    rcases h.run_bind next files with ⟨a, hrun⟩ | ⟨_, hrun⟩
    · exact (hnext a).reports (hrun ▸ hok)
    · rw [hrun] at hok
      cases hok
  · intro files after failure hfails
    rcases h.run_bind next files with ⟨a, hrun⟩ | ⟨_, hrun⟩
    · exact (hnext a).fails (hrun ▸ hfails)
    · rw [hrun] at hfails
      cases hfails
      exact .same _

end Agenda.CommandLine
