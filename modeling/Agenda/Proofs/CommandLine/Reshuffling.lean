/-
The order and the number of times in which documents are given.

Homework is taken from all items of all documents, and one entry is kept for each identifier. If an
identifier says all there is to know of its homework, then only the homework itself counts, and none
of it is lost or gained when documents change places, when the items of a document do, or when a
document is given again. So the calendar is the same text, or fails for the same reason.
-/
import Agenda.Proofs.CommandLine.Calendar
import Agenda.Proofs.Homework

set_option autoImplicit false

namespace Agenda

/-! ## Documents -/

namespace Document

/-- The same documents in another order, with their items in another order, or given more or fewer
times. -/
inductive Reshuffled : List Document → List Document → Prop where
  | refl (ws : List Document) : Reshuffled ws ws
  | symm {ws vs : List Document} (h : Reshuffled ws vs) : Reshuffled vs ws
  | trans {ws vs us : List Document} (h : Reshuffled ws vs) (h' : Reshuffled vs us) :
      Reshuffled ws us
  /-- Documents change places. -/
  | places {ws vs : List Document} (h : ws.Perm vs) : Reshuffled ws vs
  /-- Items of one document change places. -/
  | items (before : List Document) (w : Document) (after : List Document)
      {items : List Assignment} (h : w.items.Perm items) :
      Reshuffled (before ++ w :: after) (before ++ { w with items } :: after)
  /-- A document is given again. -/
  | again {w : Document} {ws : List Document} (h : w ∈ ws) : Reshuffled ws (w :: ws)

/-- No homework is lost or gained. -/
theorem Reshuffled.mem_homework_iff {ws vs : List Document} (h : Reshuffled ws vs) (g : Homework) :
    g ∈ ws.flatMap Homework.ofDocument ↔ g ∈ vs.flatMap Homework.ofDocument := by
  induction h with
  | refl ws => rfl
  | symm _ ih => exact ih.symm
  | trans _ _ ih ih' => exact ih.trans ih'
  | places h => exact (h.flatMap_right _).mem_iff
  | items before w after h =>
      -- each item gives its homework or none, and the other documents stay as they are
      have hw : g ∈ Homework.ofDocument w ↔ g ∈ Homework.ofDocument { w with items := _ } :=
        (h.filterMap Homework.ofAssignment?).mem_iff
      rw [List.flatMap_append, List.flatMap_cons, List.flatMap_append, List.flatMap_cons]
      simp only [List.mem_append, hw]
  | again h =>
      rw [List.flatMap_cons, List.mem_append]
      exact ⟨.inr, fun hg => hg.elim (fun hg => List.mem_flatMap.2 ⟨_, h, hg⟩) id⟩

end Document

namespace CommandLine

variable {p : Platform} {s s' : Surroundings} {arguments arguments' inputs inputs' : List String}
  {out out' name timezone : String} {hour : Nat} {minutes : Int}
  {documents documents' : List Document}

/-! ## Calendars -/

/-- The calendar depends on nothing but which homework there is. -/
theorem calendarText_congr (options : Calendar.Options) (occasion : Calendar.Occasion)
    (hall : Homework.Consistent (documents.flatMap Homework.ofDocument))
    (hsame : Document.Reshuffled documents documents') :
    calendarText options occasion documents = calendarText options occasion documents' := by
  rw [calendarText, calendarText, homeworkOf, homeworkOf,
    Homework.unique_congr hall hsame.mem_homework_iff]

/-- Two runs are given the same documents in different ways, with one identifier for each homework.
Then they report the same, and if they go well their calendars are the same text. -/
theorem calendar_reshuffled (hgives : Gives p s inputs documents)
    (hgives' : Gives p s' inputs' documents') (hsame : Document.Reshuffled documents documents')
    (hall : Homework.Consistent (documents.flatMap Homework.ofDocument))
    (hoccasion : s'.occasion = s.occasion)
    (harguments : readArguments s.environment arguments =
      .ok (.calendar inputs out name timezone hour minutes))
    (harguments' : readArguments s'.environment arguments' =
      .ok (.calendar inputs' out' name timezone hour minutes))
    (hout : Writable p.disk s.files out) (hout' : Writable p.disk s'.files out') :
    (∀ options, calendarText options s.occasion documents =
      calendarText options s'.occasion documents') ∧
    (runOn p s arguments).toReport = (runOn p s' arguments').toReport ∧
    ((runOn p s arguments).code = 0 → ∃ text, (runOn p s arguments).files.read out = .ok text ∧
      (runOn p s' arguments').files.read out' = .ok text) := by
  have htexts : ∀ options, calendarText options s.occasion documents =
      calendarText options s'.occasion documents' := by
    intro options
    rw [hoccasion]
    exact calendarText_congr options s.occasion hall hsame
  refine ⟨htexts, ?_⟩
  cases htext : calendarOptions p name timezone hour minutes >>= fun options =>
      calendarText options s.occasion documents with
  | ok text =>
      -- one text for both, which the second run is asked for in its own terms
      obtain ⟨hreport, hread⟩ := calendar_of_text harguments hgives hout htext
      simp only [htexts] at htext
      obtain ⟨hreport', hread'⟩ := calendar_of_text harguments' hgives' hout' htext
      exact ⟨hreport.trans hreport'.symm, fun _ => ⟨text, hread, hread'⟩⟩
  | error failure =>
      have hreport := calendar_of_error harguments hgives htext
      simp only [htexts] at htext
      have hreport' := calendar_of_error harguments' hgives' htext
      refine ⟨hreport.trans hreport'.symm, ?_⟩
      intro hcode
      rw [hreport] at hcode
      exact absurd hcode (failed_code_ne_zero failure)

/-! ## A week of homework -/

/-- A document with homework for a Monday. -/
def mondays : Document := linked (.integer 1 Number.one_fits) (some Calendar.monday)

/-- Its homework once more, other homework for the same moment, and something without a date. -/
def week : Document where
  items := mondays.items ++ (linked (.integer 2 (by decide)) (some Calendar.monday)).items ++
    (linked (.integer 1 Number.one_fits) none).items

/-- The week from behind. -/
def backwards : Document := { week with items := week.items.reverse }

/-- Two files with documents. -/
def shelf (first second : Document) : Surroundings :=
  ⟨[], ⟨.folder [("first.json", .file first.wire.pretty),
    ("second.json", .file second.wire.pretty)], []⟩, "", Calendar.desk⟩

theorem read_mondays : Document.read mondays.wire.pretty = .ok mondays :=
  Document.read_wire (by decide +kernel) (by decide +kernel) (by decide +kernel)
    (by decide +kernel)

theorem read_week : Document.read week.wire.pretty = .ok week :=
  Document.read_wire (by decide +kernel) (by decide +kernel) (by decide +kernel)
    (by decide +kernel)

theorem read_backwards : Document.read backwards.wire.pretty = .ok backwards :=
  Document.read_wire (by decide +kernel) (by decide +kernel) (by decide +kernel)
    (by decide +kernel)

theorem loadFile_first (first second : Document) :
    loadFile .willing (shelf first second).files "first.json" =
      .ok ⟨"first.json", first.wire.pretty⟩ := by
  have htrail : (shelf first second).files.trail "first.json" = .ok ["first.json"] := rfl
  exact loadFile_of_read rfl ((FileSystem.read_of_trail htrail).2 rfl)

theorem loadFile_second (first second : Document) :
    loadFile .willing (shelf first second).files "second.json" =
      .ok ⟨"second.json", second.wire.pretty⟩ := by
  have htrail : (shelf first second).files.trail "second.json" = .ok ["second.json"] := rfl
  exact loadFile_of_read rfl ((FileSystem.read_of_trail htrail).2 rfl)

theorem gives_mondays_week :
    Gives .plain (shelf mondays week) ["first.json", "second.json"] [mondays, week] := by
  refine ⟨[⟨"first.json", mondays.wire.pretty⟩, ⟨"second.json", week.wire.pretty⟩], ?_, ?_⟩
  · rw [load_paths _ _ _ (by decide), mapM_eq_ok_iff]
    exact .cons (loadFile_first mondays week) (.cons (loadFile_second mondays week) .nil)
  · rw [mapM_eq_ok_iff]
    exact .cons (Result.mapError_eq_ok_iff.2 read_mondays)
      (.cons (Result.mapError_eq_ok_iff.2 read_week) .nil)

theorem gives_backwards_mondays : Gives .plain (shelf backwards mondays)
    ["first.json", "second.json", "first.json"] [backwards, mondays, backwards] := by
  refine ⟨[⟨"first.json", backwards.wire.pretty⟩, ⟨"second.json", mondays.wire.pretty⟩,
    ⟨"first.json", backwards.wire.pretty⟩], ?_, ?_⟩
  · have hfirst := loadFile_first backwards mondays
    rw [load_paths _ _ _ (by decide), mapM_eq_ok_iff]
    exact .cons hfirst (.cons (loadFile_second backwards mondays) (.cons hfirst .nil))
  · rw [mapM_eq_ok_iff]
    exact .cons (Result.mapError_eq_ok_iff.2 read_backwards)
      (.cons (Result.mapError_eq_ok_iff.2 read_mondays)
        (.cons (Result.mapError_eq_ok_iff.2 read_backwards) .nil))

theorem reshuffled_week :
    Document.Reshuffled [mondays, week] [backwards, mondays, backwards] := by
  have hitems : Document.Reshuffled [mondays, week] [mondays, backwards] :=
    .items [mondays] week [] (List.reverse_perm _).symm
  have hagain : Document.Reshuffled [mondays, backwards] [backwards, mondays, backwards] :=
    .again (by simp)
  exact hitems.trans hagain

/-- The two ways to give them lead to one calendar. A file is given twice, the other one has its
items the other way round, and one item of three has no date. -/
theorem week_reshuffled : ∃ text,
    (run (shelf mondays week)
      ["calendar", "--timezone", "UTC", "-i", "first.json", "second.json"]).files.read
      "calendar.ics" = .ok text ∧
    (run (shelf backwards mondays)
      ["calendar", "--timezone", "UTC", "-i", "first.json", "second.json", "first.json"]).files.read
      "calendar.ics" = .ok text := by
  have hall : Homework.Consistent ([mondays, week].flatMap Homework.ofDocument) := by
    decide +kernel
  have hout : Writable .willing (shelf mondays week).files "calendar.ics" :=
    ⟨⟨_, ["calendar.ics"], rfl, by decide +kernel⟩, rfl, fun _ => rfl⟩
  have hout' : Writable .willing (shelf backwards mondays).files "calendar.ics" :=
    ⟨⟨_, ["calendar.ics"], rfl, by decide +kernel⟩, rfl, fun _ => rfl⟩
  have hok : (Calendar.text { zone := Zone.utc } Calendar.desk
      (homeworkOf [mondays, week])).isOk = true := by
    rw [homeworkOf, Homework.unique, List.mergeSort_of_pairwise (by decide +kernel)]
    decide +kernel
  cases htext : Calendar.text { zone := Zone.utc } Calendar.desk (homeworkOf [mondays, week]) with
  | error e =>
      rw [htext] at hok
      cases hok
  | ok text =>
      have hcalendar : (calendarOptions .plain "Huiswerk" "UTC" 17 60 >>= fun options =>
          calendarText options Calendar.desk [mondays, week]) = .ok text := by
        rw [show calendarOptions .plain "Huiswerk" "UTC" 17 60 = .ok { zone := Zone.utc } from rfl,
          Result.ok_bind, calendarText, htext, Result.mapError_ok]
      have harguments : readArguments (shelf mondays week).environment
          ["calendar", "--timezone", "UTC", "-i", "first.json", "second.json"] = .ok (.calendar
            ["first.json", "second.json"] "calendar.ics" "Huiswerk" "UTC" 17 60) := rfl
      have hreport := (calendar_of_text harguments gives_mondays_week hout hcalendar).1
      unfold run
      exact (calendar_reshuffled gives_mondays_week gives_backwards_mondays reshuffled_week hall rfl
        harguments rfl hout hout').2.2 (congrArg Report.code hreport)

end CommandLine

end Agenda
