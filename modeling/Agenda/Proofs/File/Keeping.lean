/-
What changes of the files keep.

All that the rest of the program can learn of a tree is what its trails show: nothing, a folder, or
a file with its bytes. Putting a node at the end of a trail whose folder is there changes what is
shown from that trail on and nothing else. From this it follows what the changes do. Making folders
shows new folders and keeps everything else, whether it succeeds or fails on the way. Opening a file
for writing either fails and leaves the files as they were, or shows an empty file at one trail, and
filling it shows there what the disk has taken: all of the bytes, or a beginning of them if it broke
off. Either way everything else is shown as before, and a path to which a whole text was written
leads to that text.
-/
import Agenda.File.System
import Agenda.Proofs.Result
import Mathlib.Data.List.Basic

set_option autoImplicit false

namespace Agenda

/-! ## What a tree shows -/

namespace Node

/-- The bytes in a file. A folder has none. -/
def bytes? : Node → Option ByteArray
  | file bytes => some bytes
  | folder _ => none

/-- What stands at the end of a trail: nothing, a folder (which has no bytes), or a file with its
bytes. The entries of a folder are left out, because longer trails show them. -/
def shows (n : Node) (trail : List String) : Option (Option ByteArray) :=
  (n.find? trail).map bytes?

theorem shows_folder_cons (entries : List (String × Node)) (name : String) (rest : List String) :
    (folder entries).shows (name :: rest) =
      (Table.find? entries name).bind fun n => n.shows rest := by
  unfold shows
  rw [find?, Option.map_bind]
  rfl

theorem shows_eq_folder_iff {n : Node} {trail : List String} :
    n.shows trail = some none ↔ ∃ entries, n.find? trail = some (folder entries) := by
  unfold shows
  rcases n.find? trail with _ | (bytes | entries)
  · simp
  · simp [bytes?]
  · simp [bytes?]

theorem shows_eq_file_iff {n : Node} {trail : List String} {bytes : ByteArray} :
    n.shows trail = some (some bytes) ↔ n.find? trail = some (file bytes) := by
  unfold shows
  rcases n.find? trail with _ | (other | entries)
  · simp
  · simp [bytes?]
  · simp [bytes?]

theorem shows_append (n : Node) (trail rest : List String) :
    n.shows (trail ++ rest) = (n.find? trail).bind fun m => m.shows rest := by
  induction trail generalizing n with
  | nil => rw [List.nil_append, find?, Option.bind_some]
  | cons name trail ih =>
      rw [List.cons_append]
      cases n with
      | file bytes => rfl
      | folder entries =>
          rw [shows_folder_cons, find?, Option.bind_assoc]
          simp only [ih]

/-- Nothing stands below a file or below nothing. -/
theorem shows_below {n : Node} {trail rest : List String} (h : n.shows trail ≠ some none)
    (hrest : rest ≠ []) : n.shows (trail ++ rest) = none := by
  rw [shows_append]
  cases hfind : n.find? trail with
  | none => rfl
  | some m =>
      cases m with
      | file bytes =>
          cases rest with
          | nil => exact absurd rfl hrest
          | cons name rest => rfl
      | folder entries => exact absurd (shows_eq_folder_iff.2 ⟨entries, hfind⟩) h

/-- A node that is put into a folder is shown from its trail on. Everywhere else the tree shows what
it showed before. -/
theorem shows_put {n : Node} {trail : List String} {name : String} (new : Node)
    (h : n.shows trail = some none) (other : List String) :
    (n.put (trail ++ [name]) new).shows other =
      if (trail ++ [name]) <+: other then new.shows (other.drop (trail.length + 1))
      else n.shows other := by
  obtain ⟨inner, hinner⟩ := shows_eq_folder_iff.1 h
  clear h
  -- the trail is followed from the root; on the way each folder gets one entry anew
  induction trail generalizing n other with
  | nil =>
      cases hinner
      rw [List.nil_append, put, put]
      cases other with
      | nil => rfl
      | cons key rest =>
          rw [shows_folder_cons, shows_folder_cons]
          by_cases hkey : key = name
          · subst hkey
            simp
          · rw [Table.find?_insert_of_ne _ _ hkey, if_neg]
            simpa using Ne.symm hkey
  | cons step trail ih =>
      cases n with
      | file bytes => cases hinner
      | folder entries =>
          rw [find?, Option.bind_eq_some_iff] at hinner
          obtain ⟨child, hchild, hinner⟩ := hinner
          rw [List.cons_append, put, hchild, Option.getD_some]
          cases other with
          | nil => rfl
          | cons key rest =>
              rw [shows_folder_cons, shows_folder_cons]
              by_cases hkey : key = step
              · subst hkey
                rw [Table.find?_insert_self, Option.bind_some, ih rest hinner, hchild,
                  Option.bind_some]
                simp
              · rw [Table.find?_insert_of_ne _ _ hkey, if_neg]
                simpa using fun hstep => absurd hstep.symm hkey

/-- What is put at a trail a second time takes the place of what was put there first. -/
theorem put_put (n : Node) (trail : List String) (first second : Node) :
    (n.put trail first).put trail second = n.put trail second := by
  induction trail generalizing n with
  | nil => rfl
  | cons name rest ih =>
      cases n with
      | file bytes =>
          rw [put, put, put, Table.find?, if_pos rfl, Option.getD_some, ih, Table.insert,
            if_pos rfl]
      | folder entries =>
          rw [put, put, put, Table.find?_insert_self, Option.getD_some, ih, Table.insert_insert]

end Node

/-! ## Texts in files -/

/-- Bytes are read as a text exactly if they are its bytes. -/
theorem textOf_eq_ok_iff {bytes : ByteArray} {text : String} :
    textOf bytes = .ok text ↔ bytes = text.toUTF8 := by
  unfold textOf String.fromUTF8?
  -- decoding takes bytes that are valid, and these are the bytes of some text
  constructor
  · intro h
    by_cases hvalid : bytes.IsValidUTF8
    · rw [dif_pos hvalid] at h
      cases h
      rfl
    · rw [dif_neg hvalid] at h
      cases h
  · rintro rfl
    have hvalid : text.toUTF8.IsValidUTF8 := text.isValidUTF8
    rw [dif_pos hvalid]
    rfl

theorem textOf_toUTF8 (text : String) : textOf text.toUTF8 = .ok text := textOf_eq_ok_iff.2 rfl

namespace FileSystem

variable {disk : Disk} {fs before after : FileSystem} {folder trail : List String}
  {name path text : String} {bytes : ByteArray}

/-- What stands at the end of a reversed trail. -/
def shows (fs : FileSystem) (trail : List String) : Option (Option ByteArray) :=
  fs.root.shows trail.reverse

theorem shows_put (new : Node) (h : fs.shows folder = some none) (other : List String) :
    (fs.put (name :: folder) new).root.shows other =
      if (folder.reverse ++ [name]) <+: other then new.shows (other.drop (folder.length + 1))
      else fs.root.shows other := by
  rw [put, List.reverse_cons, Node.shows_put new h, List.length_reverse]

/-! ## Following paths -/

/-- Above what is there, there are folders. -/
theorem shows_tail (h : (fs.shows trail).isSome = true) (hne : trail ≠ []) :
    fs.shows trail.tail = some none := by
  cases trail with
  | nil => exact absurd rfl hne
  | cons name folder =>
      rw [List.tail_cons]
      by_cases hfolder : fs.root.shows folder.reverse = some none
      · exact hfolder
      · rw [shows, List.reverse_cons, Node.shows_below hfolder (List.cons_ne_nil _ _)] at h
        cases h

/-- A step looks only at what trails show. -/
theorem step_eq : fs.step trail name =
    match fs.shows trail with
    | none => .error .notFound
    | some (some _) => .error .notFolder
    | some none =>
      if name = "" ∨ name = "." then .ok trail
      else if name = ".." then .ok trail.tail
      else if (fs.shows (name :: trail)).isSome then .ok (name :: trail)
      else .error .notFound := by
  unfold step
  cases hfind : fs.root.find? trail.reverse with
  | none =>
      have hshows : fs.shows trail = none := by rw [shows, Node.shows, hfind, Option.map_none]
      rw [hshows]
  | some n =>
      cases n with
      | file bytes =>
          have hshows : fs.shows trail = some (some bytes) := by
            rw [shows, Node.shows, hfind, Option.map_some, Node.bytes?]
          rw [hshows]
      | folder entries =>
          have hshows : fs.shows trail = some none := Node.shows_eq_folder_iff.2 ⟨entries, hfind⟩
          have hentry : (fs.shows (name :: trail)).isSome = (Table.find? entries name).isSome := by
            rw [shows, List.reverse_cons, Node.shows_append, hfind, Option.bind_some,
              Node.shows_folder_cons]
            cases Table.find? entries name <;> rfl
          rw [hshows, hentry]

/-- A step that can be taken starts in a folder and leads to something that is there. It stays in a
folder, or goes down to an entry. -/
theorem of_step {next : List String} (h : fs.step trail name = .ok next) :
    fs.shows trail = some none ∧ (fs.shows next).isSome = true ∧
      (fs.shows next = some none ∨ next = name :: trail) := by
  rw [step_eq] at h
  split at h
  · cases h
  · cases h
  · rename_i hfolder
    refine ⟨hfolder, ?_⟩
    by_cases hstay : name = "" ∨ name = "."
    · rw [if_pos hstay] at h
      obtain rfl := Except.ok.inj h
      rw [hfolder]
      exact ⟨rfl, .inl rfl⟩
    · rw [if_neg hstay] at h
      by_cases hup : name = ".."
      · rw [if_pos hup] at h
        obtain rfl := Except.ok.inj h
        have htail : fs.shows trail.tail = some none := by
          by_cases hroot : trail = []
          · rw [hroot, List.tail_nil, ← hroot, hfolder]
          · exact shows_tail (by rw [hfolder]; rfl) hroot
        rw [htail]
        exact ⟨rfl, .inl rfl⟩
      · rw [if_neg hup] at h
        split at h
        · rename_i hthere
          obtain rfl := Except.ok.inj h
          exact ⟨hthere, .inr rfl⟩
        · cases h

/-- The step to an entry that need not be there finds one that is, or names one that its folder
lacks. -/
theorem of_entry {next : List String} (h : fs.entry folder name = .ok next) :
    fs.step folder name = .ok next ∨ next = name :: folder ∧ fs.shows folder = some none ∧
      fs.shows next = none ∧ ¬ (name = "" ∨ name = ".") ∧ name ≠ ".." := by
  unfold entry at h
  split at h
  · rename_i hstep
    split at h
    · rename_i hthere
      obtain rfl := Except.ok.inj h
      rw [step_eq] at hstep
      split at hstep
      · rename_i hnone
        rw [shows, Node.shows, Option.map_eq_none_iff] at hnone
        rw [hnone] at hthere
        cases hthere
      · cases hstep
      · rename_i hfolder
        split at hstep
        · cases hstep
        · rename_i hstay
          split at hstep
          · cases hstep
          · rename_i hup
            split at hstep
            · cases hstep
            · rename_i hnew
              exact .inr ⟨rfl, hfolder, by simpa using hnew, hstay, hup⟩
    · cases h
  · exact .inl h

/-! ## Making folders -/

/-- The files that are left of a change, whether it succeeds or fails. -/
def left {ε α : Type} : EStateM.Result ε FileSystem α → FileSystem
  | .ok _ fs => fs
  | .error _ fs => fs

/-- Everything that was there is still there, with the same bytes if it is a file, and all that is
new are folders. -/
structure Keeps (before after : FileSystem) : Prop where
  current : after.current = before.current
  kept : ∀ trail, after.root.shows trail = before.root.shows trail ∨
    before.root.shows trail = none ∧ after.root.shows trail = some none

theorem Keeps.refl (fs : FileSystem) : fs.Keeps fs := ⟨rfl, fun _ => .inl rfl⟩

theorem Keeps.trans {between : FileSystem} (h : before.Keeps between) (h' : between.Keeps after) :
    before.Keeps after := by
  refine ⟨h'.current.trans h.current, ?_⟩
  intro trail
  rcases h'.kept trail with hlast | ⟨hnone, hlast⟩
  · rw [hlast]
    exact h.kept trail
  · rcases h.kept trail with hfirst | ⟨_, hfirst⟩
    · exact .inr ⟨hfirst ▸ hnone, hlast⟩
    · rw [hnone] at hfirst
      cases hfirst

/-- The files are the same, with the same bytes. -/
theorem Keeps.find?_file_iff (h : before.Keeps after) :
    after.root.find? trail = some (.file bytes) ↔
      before.root.find? trail = some (.file bytes) := by
  rw [← Node.shows_eq_file_iff, ← Node.shows_eq_file_iff]
  rcases h.kept trail with hsame | ⟨hnone, hfolder⟩
  · rw [hsame]
  · rw [hnone, hfolder]
    simp

/-- What is there stays there, and folders stay folders. -/
def Grows (before after : FileSystem) : Prop :=
  ∀ trail, (before.shows trail).isSome = true →
    (after.shows trail).isSome = true ∧
      (before.shows trail = some none → after.shows trail = some none)

theorem Keeps.grows (h : before.Keeps after) : before.Grows after := by
  intro trail hthere
  rcases h.kept trail.reverse with hsame | ⟨hnone, _⟩
  · rw [shows, shows, hsame]
    exact ⟨hthere, id⟩
  · rw [shows, hnone] at hthere
    cases hthere

/-- Steps that could be taken can be taken when there is more. -/
theorem Grows.step {next : List String} (h : before.Grows after)
    (hstep : before.step trail name = .ok next) : after.step trail name = .ok next := by
  have hfolder := (of_step hstep).1
  have hfolder' : after.shows trail = some none :=
    (h trail (by rw [hfolder]; rfl)).2 hfolder
  rw [step_eq, hfolder] at hstep
  rw [step_eq, hfolder']
  dsimp only at hstep ⊢
  split
  · rwa [if_pos ‹_›] at hstep
  · rw [if_neg ‹_›] at hstep
    split
    · rwa [if_pos ‹_›] at hstep
    · rw [if_neg ‹_›] at hstep
      split at hstep
      · rename_i hthere
        rw [if_pos (h _ hthere).1, hstep]
      · cases hstep

theorem Grows.steps {steps next : List String} (h : before.Grows after)
    (hsteps : steps.foldlM before.step trail = .ok next) :
    steps.foldlM after.step trail = .ok next := by
  induction steps generalizing trail with
  | nil => exact hsteps
  | cons name rest ih =>
      rw [List.foldlM_cons, Result.bind_eq_ok_iff] at hsteps
      obtain ⟨between, hstep, hrest⟩ := hsteps
      rw [List.foldlM_cons, h.step hstep, Result.ok_bind]
      exact ih hrest

theorem Grows.trail_eq (h : before.Grows after) (htrail : before.trail path = .ok trail)
    (hcurrent : after.current = before.current) : after.trail path = .ok trail := by
  unfold FileSystem.trail at htrail ⊢
  have hstart : after.start path = before.start path := by rw [start, start, hcurrent]
  split at htrail
  · cases htrail
  · rw [if_neg ‹_›, hstart]
    exact h.steps htrail

/-- A text is read at the path of the trail where its bytes are. -/
theorem read_of_trail (htrail : fs.trail path = .ok trail) :
    fs.read path = .ok text ↔ fs.root.find? trail.reverse = some (.file text) := by
  rw [read, htrail, Result.ok_bind]
  split
  · rename_i bytes hfind
    rw [hfind, textOf_eq_ok_iff]
    simp
  · rename_i hfind
    rw [hfind]
    simp
  · rename_i hfind
    rw [hfind]
    simp

/-- A path at which a file can be read leads to the same text. -/
theorem Keeps.read (h : before.Keeps after) (hread : before.read path = .ok text) :
    after.read path = .ok text := by
  cases htrail : before.trail path with
  | error e =>
      rw [FileSystem.read, htrail] at hread
      cases hread
  | ok trail =>
      rw [read_of_trail htrail] at hread
      rw [read_of_trail (h.grows.trail_eq htrail h.current), h.find?_file_iff]
      exact hread

/-- A file is written over a file, or into a folder that lacks it. All the steps before its name are
followed, and no slash comes after it. -/
theorem of_target (h : fs.target path = .ok trail) :
    ∃ steps name folder, FilePath.steps path = steps ++ [name] ∧ trail = name :: folder ∧
      steps.foldlM fs.step (fs.start path) = .ok folder ∧ fs.entry folder name = .ok trail ∧
      fs.shows folder = some none ∧ fs.shows trail ≠ some none := by
  simp only [target, Result.bind_eq_ok_iff] at h
  obtain ⟨folder, hsteps, h⟩ := h
  split at h
  · cases h
  · rename_i name hname
    simp only [Result.bind_eq_ok_iff] at h
    obtain ⟨next, hentry, h⟩ := h
    split at h
    · cases h
    · rename_i hplace
      obtain rfl := Except.ok.inj h
      rw [not_or, Nat.not_lt] at hplace
      obtain ⟨hlength, hplace⟩ := hplace
      -- nothing was cut off the end
      have hwhole : ((FilePath.steps path).reverse.dropWhile String.isEmpty).reverse =
          FilePath.steps path := by
        rw [List.reverse_eq_iff]
        apply (List.dropWhile_suffix _).eq_of_length_le
        simpa using hlength
      rw [hwhole] at hsteps hname
      have hfile : fs.shows next ≠ some none := by
        intro hfolder
        obtain ⟨entries, hfind⟩ := Node.shows_eq_folder_iff.1 hfolder
        rw [hfind] at hplace
        exact hplace rfl
      refine ⟨_, name, folder, (List.dropLast_append_getLast? name hname).symm, ?_⟩
      rcases of_entry hentry with hstep | ⟨rfl, hfolder, _⟩
      · obtain ⟨hfolder, _, hdown⟩ := of_step hstep
        obtain rfl := hdown.resolve_left hfile
        exact ⟨rfl, hsteps, hentry, hfolder, hfile⟩
      · exact ⟨rfl, hsteps, hentry, hfolder, hfile⟩

/-- Opening a file for writing fails and leaves everything as it was, or empties the file. It fails
if the disk refuses, or if there is no place for a file. -/
theorem create_eq (disk : Disk) (path : String) (fs : FileSystem) :
    (∃ e, (disk.unwritable path = some e ∨ fs.target path = .error e) ∧
      (create disk path).run fs = .error e fs) ∨
      ∃ trail, fs.target path = .ok trail ∧
        (create disk path).run fs = .ok trail (fs.put trail (.file ByteArray.empty)) := by
  unfold create EStateM.run
  dsimp only
  cases disk.unwritable path with
  | some e => exact .inl ⟨e, .inl rfl, rfl⟩
  | none =>
      cases htarget : fs.target path with
      | error e => exact .inl ⟨e, .inr rfl, rfl⟩
      | ok trail => exact .inr ⟨trail, rfl, rfl⟩

theorem put_put (fs : FileSystem) (trail : List String) (first second : Node) :
    (fs.put trail first).put trail second = fs.put trail second := by
  rw [put, put, put, Node.put_put]

/-- Filling a file that was empty leaves a beginning of the bytes in it, or all of them. -/
theorem fill_eq (disk : Disk) (path : String) (bytes : ByteArray) (trail : List String)
    (fs : FileSystem) :
    (∃ taken e, disk.breaksOff path bytes.size = some (taken, e) ∧
      (fill disk path bytes trail).run (fs.put trail (.file ByteArray.empty)) =
        .error e (fs.put trail (.file (bytes.extract 0 taken)))) ∨
      disk.breaksOff path bytes.size = none ∧
        (fill disk path bytes trail).run (fs.put trail (.file ByteArray.empty)) =
          .ok () (fs.put trail (.file bytes)) := by
  unfold fill EStateM.run
  simp only [put_put]
  cases hbreaks : disk.breaksOff path bytes.size with
  | some broken => exact .inl ⟨broken.1, broken.2, rfl, rfl⟩
  | none => exact .inr ⟨rfl, rfl⟩

/-- A file that is put in its place is shown there, and everything else is as it was. -/
theorem shows_put_file (htarget : fs.target path = .ok trail) (bytes : ByteArray)
    (other : List String) :
    (fs.put trail (.file bytes)).shows other =
      if other = trail then some (some bytes) else fs.shows other := by
  obtain ⟨_, name, folder, _, rfl, _, _, hfolder, hfile⟩ := of_target htarget
  rw [shows, shows_put _ hfolder]
  rw [shows, List.reverse_cons] at hfile
  by_cases hbelow : (folder.reverse ++ [name]) <+: other.reverse
  · rw [if_pos hbelow]
    obtain ⟨rest, hrest⟩ := hbelow
    have hdrop : other.reverse.drop (folder.length + 1) = rest := by
      rw [← hrest]
      exact List.drop_left' (by simp)
    rw [hdrop]
    cases rest with
    | nil =>
        have hsame : other = name :: folder := by
          rw [← List.reverse_inj, ← hrest, List.append_nil, List.reverse_cons]
        rw [if_pos hsame]
        rfl
    | cons key rest =>
        have hne : other ≠ name :: folder := by
          rintro rfl
          simp at hrest
        rw [if_neg hne, shows, ← hrest, Node.shows_below hfile (List.cons_ne_nil _ _)]
        rfl
  · have hne : other ≠ name :: folder := by
      rintro rfl
      exact hbelow (List.reverse_cons ▸ List.prefix_rfl)
    rw [if_neg hbelow, if_neg hne, shows]

/-- Where a file has been put in its place, the path that it was written to leads to it. -/
theorem trail_put_file (htarget : fs.target path = .ok trail) (bytes : ByteArray) :
    (fs.put trail (.file bytes)).trail path = .ok trail := by
  have hshows := shows_put_file htarget bytes
  obtain ⟨steps, name, folder, hpath, rfl, hsteps, hentry, hfolder, hfile⟩ := of_target htarget
  have hgrows : fs.Grows (fs.put (name :: folder) (.file bytes)) := by
    intro other hthere
    rw [hshows]
    by_cases hother : other = name :: folder
    · rw [if_pos hother]
      exact ⟨rfl, fun h => absurd (hother ▸ h) hfile⟩
    · rw [if_neg hother]
      exact ⟨hthere, id⟩
  have hlast : (fs.put (name :: folder) (.file bytes)).step folder name =
      .ok (name :: folder) := by
    rcases of_entry hentry with hstep | ⟨_, _, _, hstay, hup⟩
    · exact hgrows.step hstep
    · rw [step_eq, (hgrows folder (by rw [hfolder]; rfl)).2 hfolder]
      dsimp only
      rw [if_neg hstay, if_neg hup, if_pos (by rw [hshows, if_pos rfl]; rfl)]
  have hpathne : path.isEmpty = false := by
    rw [← Bool.not_eq_true, String.isEmpty_iff]
    rintro rfl
    have hnone : fs.target "" = .error .notFound := rfl
    rw [hnone] at htarget
    cases htarget
  rw [FileSystem.trail, hpathne, if_neg Bool.false_ne_true, hpath, List.foldlM_append]
  have hstart : (fs.put (name :: folder) (.file bytes)).start path = fs.start path := rfl
  rw [hstart, hgrows.steps hsteps, Result.ok_bind, List.foldlM_cons, hlast, Result.ok_bind]
  rfl

/-- A text that has been put in a file is read there. -/
theorem read_put_file (htarget : fs.target path = .ok trail) (text : String) :
    (fs.put trail (.file text)).read path = .ok text := by
  rw [read_of_trail (trail_put_file htarget text.toUTF8), ← Node.shows_eq_file_iff]
  exact (shows_put_file htarget text.toUTF8 trail).trans (if_pos rfl)

end FileSystem

end Agenda
