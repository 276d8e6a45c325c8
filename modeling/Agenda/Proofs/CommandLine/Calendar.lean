/-
Making a calendar from the command line.

Inputs that pass the check can be loaded and read, each of them, and the command that makes a
calendar loads and reads the same ones. What may still go wrong are the numbers: the length of the
events, their ends, the local times of their starts, and the folding of lines. Where they stay in
range the command puts the calendar in its place, and otherwise there is none, though every input
has passed.
-/
import Agenda.Proofs.Calendar.Recovery
import Agenda.Proofs.CommandLine.Normalize
import Agenda.Proofs.Lists

set_option autoImplicit false

namespace Agenda.CommandLine

variable {p : Platform} {s : Surroundings} {arguments checking inputs : List String}
  {out name timezone : String} {hour : Nat} {minutes : Int} {files : FileSystem}
  {sources : List Source} {documents : List Document} {options : Calendar.Options} {zone : Zone}

/-! ## Checking -/

/-- The inputs can be loaded, and they are these documents. Both commands begin with this, so what
the one has found out can be used for the other. -/
def Gives (p : Platform) (s : Surroundings) (inputs : List String)
    (documents : List Document) : Prop :=
  ∃ sources, load p.disk s.files s.standardInput inputs = .ok sources ∧
    sources.mapM readDocument = .ok documents

theorem Gives.unique {others : List Document} (h : Gives p s inputs documents)
    (h' : Gives p s inputs others) : documents = others := by
  obtain ⟨sources, hload, hread⟩ := h
  obtain ⟨sources', hload', hread'⟩ := h'
  obtain rfl := Except.ok.inj (hload.symm.trans hload')
  exact Except.ok.inj (hread.symm.trans hread')

theorem exists_documents_iff :
    (∃ documents, sources.mapM readDocument = .ok documents) ↔ (judge sources).code = 0 := by
  have hverdict : ∀ source, (verdict source).1 = true ↔
      ∃ document, readDocument source = .ok document := by
    intro source
    rw [verdict, readDocument]
    cases Document.read source.text with
    | ok w => simp
    | error e => simp
  have hjudge : (judge sources).code = 0 ↔ ∀ source ∈ sources, (verdict source).1 = true := by
    unfold judge
    dsimp only
    rw [← List.all_eq_true, List.all_map]
    split
    · rename_i hall
      exact ⟨fun _ => hall, fun _ => rfl⟩
    · rename_i hall
      exact ⟨fun h => absurd h (by decide), fun h => absurd h hall⟩
  simp only [mapM_eq_ok_iff, exists_forall₂_iff, hjudge, hverdict]

/-- A check of several inputs ends with zero exactly if they are all documents. A single one that is
none is enough to fail, but the others are still looked at. -/
theorem check_code_iff (hchecking : readArguments s.environment checking = .ok (.check inputs)) :
    (runOn p s checking).code = 0 ↔ ∃ documents, Gives p s inputs documents := by
  cases hload : load p.disk s.files s.standardInput inputs with
  | error failure =>
      have hrun : (runCommand p s (.check inputs)).run s.files = .error failure s.files :=
        look_bind_error hload
      rw [runOn_of_error hchecking hrun]
      exact ⟨fun h => absurd h (failed_code_ne_zero failure), by simp [Gives, hload]⟩
  | ok sources =>
      have hrun : (runCommand p s (.check inputs)).run s.files = .ok (judge sources) s.files :=
        look_bind_ok hload
      rw [runOn_of_ok hchecking hrun, ← exists_documents_iff]
      simp [Gives, hload]

/-! ## Writing -/

/-- A file can be written at a path: the folders that lead to it are there or can be made, then
there is a place for it, and the disk lets it be opened and takes all that is written to it. -/
structure Writable (disk : Disk) (files : FileSystem) (path : String) : Prop where
  place : ∃ between trail,
    (FileSystem.makeFolders disk (FilePath.parent path)).run files = .ok () between ∧
      between.target path = .ok trail
  opens : disk.unwritable path = none
  takes : ∀ size, disk.breaksOff path size = none

/-- Where a file can be written, the text that is written can be read. -/
theorem writeFile_of_writable {disk : Disk} {path : String} (h : Writable disk files path)
    (text : String) :
    ∃ after, (writeFile disk path text).run files = .ok () after ∧ after.read path = .ok text := by
  obtain ⟨between, trail, hfolders, htarget⟩ := h.place
  -- each of the ways to fail is ruled out by what it takes to be writable
  cases writeFile_ends disk path text files with
  | uncreatable hnot _ =>
      rw [hfolders] at hnot
      cases hnot
  | unwritable hfolders' hnot _ =>
      rw [hfolders] at hfolders'
      cases hfolders'
      rw [h.opens, htarget] at hnot
      rcases hnot with hnot | hnot <;> cases hnot
  | unfinished _ _ hnot _ =>
      rw [h.takes] at hnot
      cases hnot
  | written _ htarget' _ hrun => exact ⟨_, hrun, FileSystem.read_put_file htarget' text⟩

/-! ## Making a calendar -/

theorem calendarOptions_eq_ok_iff : calendarOptions p name timezone hour minutes = .ok options ↔
    ∃ zone duration, p.zone? timezone = some zone ∧
      Duration.ofMinutes? minutes = some duration ∧ options = ⟨name, zone, hour, duration⟩ := by
  unfold calendarOptions
  cases p.zone? timezone with
  | none => simp
  | some zone =>
      cases Duration.ofMinutes? minutes with
      | none => simp
      | some duration => simp [eq_comm]

/-- Once its inputs are read, the command comes down to making the text and writing it. Up to the
writing no file has changed. -/
theorem calendar_run (hgives : Gives p s inputs documents) :
    (runCommand p s (.calendar inputs out name timezone hour minutes)).run s.files =
      match calendarOptions p name timezone hour minutes >>= fun options =>
        calendarText options s.occasion documents with
      | .ok text => (writeFile p.disk out text >>= fun _ => pure (succeeded "")).run s.files
      | .error failure => .error failure s.files := by
  obtain ⟨sources, hload, hread⟩ := hgives
  rw [runCommand, calendar]
  cases hoptions : calendarOptions p name timezone hour minutes with
  | error failure => rw [compute_bind_error rfl, Result.error_bind]
  | ok options =>
      -- the options are read before the inputs, but neither depends on the other
      rw [compute_bind_ok rfl, look_bind_ok hload, compute_bind_ok hread, Result.ok_bind]
      cases htext : calendarText options s.occasion documents with
      | error failure => rw [compute_bind_error rfl]
      | ok text => rw [compute_bind_ok rfl]

/-- The text of a calendar, of whose options only the length of events may fail, once the zone is
known. -/
theorem calendarText_eq_ok_iff (hzone : p.zone? timezone = some zone) {text : String} :
    (calendarOptions p name timezone hour minutes >>= fun options =>
      calendarText options s.occasion documents) = .ok text ↔
    ∃ duration, Duration.ofMinutes? minutes = some duration ∧
      Calendar.text ⟨name, zone, hour, duration⟩ s.occasion (homeworkOf documents) = .ok text := by
  simp only [Result.bind_eq_ok_iff, calendarOptions_eq_ok_iff, calendarText,
    Result.mapError_eq_ok_iff, hzone, Option.some.injEq]
  constructor
  · rintro ⟨_, ⟨_, duration, rfl, hduration, rfl⟩, htext⟩
    exact ⟨duration, hduration, htext⟩
  · rintro ⟨duration, hduration, htext⟩
    exact ⟨_, ⟨zone, duration, rfl, hduration, rfl⟩, htext⟩

theorem calendarText_of_error {reason : Calendar.Unschedulable}
    (hoptions : calendarOptions p name timezone hour minutes = .ok options)
    (h : Calendar.text options s.occasion (homeworkOf documents) = .error reason) :
    (calendarOptions p name timezone hour minutes >>= fun options =>
      calendarText options s.occasion documents) = .error .overflow := by
  rw [hoptions, Result.ok_bind, calendarText, h, Result.mapError_error]

section

variable (harguments : readArguments s.environment arguments =
    .ok (.calendar inputs out name timezone hour minutes))
  (hgives : Gives p s inputs documents)

include harguments hgives

/-- Without a text the run fails for the same reason. -/
theorem calendar_of_error {failure : Failure}
    (h : (calendarOptions p name timezone hour minutes >>= fun options =>
      calendarText options s.occasion documents) = .error failure) :
    (runOn p s arguments).toReport = failed failure := by
  have hrun := @calendar_run p s inputs out name timezone hour minutes documents hgives
  rw [h] at hrun
  rw [runOn_of_error harguments hrun]

/-- A text that can be written is at its path in the end. -/
theorem calendar_of_text (hout : Writable p.disk s.files out) {text : String}
    (h : (calendarOptions p name timezone hour minutes >>= fun options =>
      calendarText options s.occasion documents) = .ok text) :
    (runOn p s arguments).toReport = succeeded "" ∧
      (runOn p s arguments).files.read out = .ok text := by
  have hrun := @calendar_run p s inputs out name timezone hour minutes documents hgives
  obtain ⟨after, hwrite, hread⟩ := writeFile_of_writable hout text
  rw [h] at hrun
  dsimp only at hrun
  rw [EStateM.run_bind, hwrite] at hrun
  rw [runOn_of_ok harguments hrun]
  exact ⟨rfl, hread⟩

/-- What a run leaves behind that makes a calendar of documents: the calendar at its path, if there
is one, and otherwise an exit code that is not zero. -/
theorem runOn_calendar (hzone : p.zone? timezone = some zone) (hout : Writable p.disk s.files out) :
    (∃ duration text, Duration.ofMinutes? minutes = some duration ∧
      Calendar.text ⟨name, zone, hour, duration⟩ s.occasion (homeworkOf documents) = .ok text ∧
      (runOn p s arguments).code = 0 ∧ (runOn p s arguments).files.read out = .ok text) ∨
    (∀ duration text, Duration.ofMinutes? minutes = some duration →
      Calendar.text ⟨name, zone, hour, duration⟩ s.occasion (homeworkOf documents) ≠ .ok text) ∧
      (runOn p s arguments).code ≠ 0 := by
  cases htext : calendarOptions p name timezone hour minutes >>= fun options =>
      calendarText options s.occasion documents with
  | ok text =>
      left
      obtain ⟨duration, hduration, hcalendar⟩ := (calendarText_eq_ok_iff hzone).1 htext
      obtain ⟨hreport, hread⟩ := calendar_of_text harguments hgives hout htext
      rw [hreport]
      exact ⟨duration, text, hduration, hcalendar, rfl, hread⟩
  | error failure =>
      right
      rw [calendar_of_error harguments hgives htext]
      refine ⟨?_, failed_code_ne_zero failure⟩
      intro duration text hduration hcalendar
      rw [(calendarText_eq_ok_iff hzone).2 ⟨duration, hduration, hcalendar⟩] at htext
      cases htext

end

/-- A calendar of documents that pass the check is made exactly if there are events of that length,
the end and the local start of each of them are in range, and every line can be folded. Then the
command exits with zero and the calendar is in its place, and otherwise it does not exit with zero.
The zone may be any that the platform knows by the given name, and nothing is assumed of it. -/
theorem calendar_checked (hchecking : readArguments s.environment checking = .ok (.check inputs))
    (hchecked : (runOn p s checking).code = 0)
    (harguments : readArguments s.environment arguments =
      .ok (.calendar inputs out name timezone hour minutes))
    (hzone : p.zone? timezone = some zone) (hout : Writable p.disk s.files out) :
    ∃ documents, Gives p s inputs documents ∧
      ((runOn p s arguments).code = 0 ↔ ∃ duration, Duration.ofMinutes? minutes = some duration ∧
        (∀ h ∈ homeworkOf documents, Calendar.Schedulable ⟨name, zone, hour, duration⟩ h) ∧
        ∀ ls, Calendar.lines ⟨name, zone, hour, duration⟩ s.occasion (homeworkOf documents) =
          .ok ls → ∀ line ∈ ls, Calendar.Folds line) ∧
      ((runOn p s arguments).code = 0 →
        ∃ duration text, Duration.ofMinutes? minutes = some duration ∧
          Calendar.text ⟨name, zone, hour, duration⟩ s.occasion (homeworkOf documents) =
            .ok text ∧ (runOn p s arguments).files.read out = .ok text) := by
  -- the check has loaded the inputs, and nothing has happened to the files since
  obtain ⟨documents, hgives⟩ := (check_code_iff hchecking).1 hchecked
  refine ⟨documents, hgives, ?_⟩
  simp only [← Calendar.exists_text_iff]
  rcases runOn_calendar harguments hgives hzone hout with
    ⟨duration, text, hduration, htext, hcode, hread⟩ | ⟨hnone, hcode⟩
  · exact ⟨⟨fun _ => ⟨duration, hduration, text, htext⟩, fun _ => hcode⟩,
      fun _ => ⟨duration, text, hduration, htext, hread⟩⟩
  · refine ⟨⟨fun h => absurd h hcode, ?_⟩, fun h => absurd h hcode⟩
    rintro ⟨duration, hduration, text, htext⟩
    exact absurd htext (hnone duration text hduration)

/-! ## The last half hour -/

/-- The beginning of the last half hour there is. -/
def lastHalfHour : Instant :=
  ⟨Instant.lastSecond - 1799, 0, by decide, by decide, Instant.zero_nano_lt, by decide⟩

/-- A document with one piece of homework, of this identifier. -/
def linked (identifier : Number) (date : Option Instant) : Document where
  items := (Document.single (.integer 0 Number.zero_fits) [] date none).items.map
    fun a => { a with planItem := { a.planItem with
      links := [⟨identifier, .itself, .planAssignment, ""⟩] } }

/-- A document with homework for the last half hour. -/
def late : Document := linked (.integer 1 Number.one_fits) (some lastHalfHour)

/-- Its text, in which the half hour is written without a zone. -/
def lateText : String := (late.shown fun _ => "+262142-12-31T23:30:00").pretty

/-- The document on the standard input, and no files. -/
def lateInput : Surroundings := ⟨[], ⟨.folder [], []⟩, lateText, Calendar.desk⟩

theorem gives_late (p : Platform) : Gives p lateInput ["-"] [late] := by
  have hspelling : ∀ t ∈ late.instants,
      Timestamp.read? "+262142-12-31T23:30:00" = some lastHalfHour := by
    intro t _
    decide +kernel
  have hread : Document.read lateText = .ok late :=
    Document.read_shown hspelling (by decide +kernel) (by decide +kernel) (by decide +kernel)
  -- the standard input is not on the disk, so this is the same on every platform
  have hload : load p.disk lateInput.files lateInput.standardInput ["-"] =
      .ok [⟨"<stdin>", lateText⟩] := by
    rw [load, if_pos rfl, lateInput, standardSource_toUTF8]
    rfl
  refine ⟨_, hload, ?_⟩
  rw [mapM_eq_ok_iff]
  exact .cons (Result.mapError_eq_ok_iff.2 hread) .nil

theorem late_checked (p : Platform) : (runOn p lateInput ["check", "-i", "-"]).code = 0 :=
  (check_code_iff rfl).2 ⟨_, gives_late p⟩

theorem writable_late : Writable .willing lateInput.files "calendar.ics" where
  place := ⟨lateInput.files, ["calendar.ics"], rfl, by decide +kernel⟩
  opens := rfl
  takes := fun _ => rfl

/-- There is no calendar of it with events of the greatest length that can be given, nor by default,
since the event would end too late, nor without any length, since clocks in Amsterdam show a time
that is too late at its start. -/
theorem late_not_written : (run lateInput ["check", "-i", "-"]).code = 0 ∧
    Writable Platform.plain.disk lateInput.files "calendar.ics" ∧
    (run lateInput ["calendar", "-i", "-", "--duration-minutes=9223372036854775807"]).code =
      overflowCode ∧
    (run lateInput ["calendar", "-i", "-"]).code = overflowCode ∧
    (run lateInput ["calendar", "-i", "-", "--duration-minutes=0"]).code = overflowCode := by
  -- the three numbers that leave their range: a length, an end, and a local time
  have hlength : (calendarOptions .plain "Huiswerk" "Europe/Amsterdam" 17 9223372036854775807 >>=
      fun options => calendarText options lateInput.occasion [late]) = .error .overflow := rfl
  have hend : Calendar.text {} lateInput.occasion (homeworkOf [late]) = .error .endOutOfRange := by
    decide +kernel
  have hstart : Calendar.text { duration := ⟨0, by decide⟩ } lateInput.occasion
      (homeworkOf [late]) = .error .localTimeOutOfRange := by
    decide +kernel
  unfold run
  refine ⟨late_checked .plain, writable_late, ?_, ?_, ?_⟩
  · exact congrArg Report.code (calendar_of_error rfl (gives_late .plain) hlength)
  · exact congrArg Report.code
      (calendar_of_error rfl (gives_late .plain) (calendarText_of_error rfl hend))
  · exact congrArg Report.code
      (calendar_of_error rfl (gives_late .plain) (calendarText_of_error rfl hstart))

/-- A zone whose clocks are always five hours behind. -/
def lima : Zone := ⟨-18000, [], by decide⟩

/-- A platform that knows this zone, and no other one. -/
def abroad : Platform where
  zone? := fun name => if name = "America/Lima" then some lima else none
  disk := .willing

/-- In a zone whose clocks show a time for the document, an event that ends an hour before it
starts. The zone is one that is not in the table. -/
theorem late_calendar_checked : (runOn abroad lateInput
    ["calendar", "-i", "-", "--timezone", "America/Lima", "--duration-minutes=-60"]).code = 0 := by
  obtain ⟨documents, hgives, hcode, -⟩ := @calendar_checked abroad lateInput
    ["calendar", "-i", "-", "--timezone", "America/Lima", "--duration-minutes=-60"]
    ["check", "-i", "-"] ["-"] "calendar.ics" "Huiswerk" "America/Lima" 17 (-60) lima rfl
    (late_checked abroad) rfl rfl writable_late
  obtain rfl := (gives_late abroad).unique hgives
  simp only [← Calendar.exists_text_iff] at hcode
  have hok : (Calendar.text ⟨"Huiswerk", lima, 17, ⟨-3600, by decide⟩⟩ lateInput.occasion
      (homeworkOf [late])).isOk = true := by decide +kernel
  refine hcode.2 ⟨⟨-3600, by decide⟩, rfl, ?_⟩
  exact Result.exists_eq_ok_of_isOk hok

end Agenda.CommandLine
