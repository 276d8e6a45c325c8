/-
The name of a calendar.

The name is any text. Only one line of a calendar depends on it: escaped, it is a value on that
line, and there it neither ends the line nor passes for another one. So of two calendars that differ
in their names a reader gets the same lines, in the same order, but for the value on that line, and
from that value the name of each. The events are the same, and so is the product.

Neither does the name decide whether there is a calendar, as long as the line that holds it can be
folded. Not every such line can.
-/
import Agenda.Proofs.Calendar.Outline

set_option autoImplicit false

namespace Agenda.Calendar

/-- The same options with another name. -/
def Options.named (options : Options) (name : String) : Options := { options with name := name }

/-- The line that names a calendar. -/
def nameLine (name : String) : List Char := property "X-WR-CALNAME" (escape name)

/-- Two calendars have the same lines, in the same order, but for one. No other line names a
calendar, and the values on it stand for these names. -/
def ApartInName (name name' : String) (ls ls' : List (List Char)) : Prop :=
  ∃ before after value value',
    ls = before ++ property "X-WR-CALNAME" value :: after ∧
    ls' = before ++ property "X-WR-CALNAME" value' :: after ∧
    (∀ line ∈ before ++ after, value? "X-WR-CALNAME" line = none) ∧
    unescape? value = some name.toList ∧ unescape? value' = some name'.toList

variable {options : Options} {occasion : Occasion} {number : Nat} {name name' product : String}
  {h : Homework} {homework : List Homework} {ls events : List (List Char)}

/-! ## What depends on the name -/

theorem eventsLines_named : eventsLines (options.named name) occasion number homework =
    eventsLines options occasion number homework := by
  induction homework generalizing number with
  | nil => rfl
  | cons h rest ih =>
      rw [eventsLines, eventsLines, ih]
      rfl

theorem Schedules.named {c : Component} (hc : Schedules options occasion h c) :
    Schedules (options.named name) occasion h c := by
  obtain ⟨number, hstop, hlead⟩ := hc
  exact .mk number hstop hlead

/-- The lines before the one that names the calendar. -/
def openingLines (product : String) : List (List Char) :=
  [property "BEGIN" "VCALENDAR".toList,
    property "VERSION" "2.0".toList,
    property "PRODID" product.toList,
    property "CALSCALE" "GREGORIAN".toList]

theorem calendarLines_named : calendarLines (options.named name) product events =
    openingLines product ++ nameLine name :: (events ++ [property "END" "VCALENDAR".toList]) := by
  simp [calendarLines, headerLines, openingLines, nameLine, Options.named]

theorem value?_property_of_ne {name other : String} {value : List Char}
    (hname : name ∈ bracketNames ++ innerNames) (hother : other ∈ bracketNames ++ innerNames)
    (hne : name ≠ other) : value? name (property other value) = none := by
  rw [value?_property_of_mem hname hother, if_neg hne]

/-- No line of an event names a calendar. -/
theorem value?_of_mem_eventLines (hls : eventLines options occasion number h = .ok ls) :
    ∀ line ∈ ls, value? "X-WR-CALNAME" line = none := by
  obtain ⟨stop, lead, -, -, rfl⟩ := eventLines_eq_ok_iff.1 hls
  have hnone : ∀ other ∈ bracketNames ++ innerNames, "X-WR-CALNAME" ≠ other →
      ∀ value, value? "X-WR-CALNAME" (property other value) = none :=
    fun other hother hne _ => value?_property_of_ne (by decide) hother hne
  have hreminder : ∀ line ∈ reminderLines occasion number h.title lead,
      value? "X-WR-CALNAME" line = none := by
    cases lead with
    | none => simp [reminderLines]
    | some lead =>
        simp only [reminderLines, alarmLines, List.forall_mem_cons]
        refine ⟨?_, ?_, ?_, ?_, ?_, ?_, ?_, by simp⟩ <;> exact hnone _ (by decide) (by decide) _
  simp only [ownLines, ownProperties, List.map_cons, List.map_nil, List.cons_append,
    List.nil_append, List.forall_mem_cons, List.forall_mem_append]
  refine ⟨?_, ?_, ?_, ?_, ?_, ?_, ?_, hreminder, ?_, by simp⟩ <;>
    exact hnone _ (by decide) (by decide) _

theorem value?_of_mem_eventsLines
    (hevents : eventsLines options occasion number homework = .ok events) :
    ∀ line ∈ events, value? "X-WR-CALNAME" line = none := by
  induction homework generalizing number events with
  | nil =>
      obtain rfl := Except.ok.inj hevents
      simp
  | cons h rest ih =>
      simp only [eventsLines, Result.bind_eq_ok_iff, Except.ok.injEq] at hevents
      obtain ⟨lines, hlines, more, hmore, rfl⟩ := hevents
      exact List.forall_mem_append.2 ⟨value?_of_mem_eventLines hlines, ih hmore⟩

/-- With the same events two calendars differ in the name alone. -/
theorem apartInName_calendarLines
    (hevents : eventsLines options occasion number homework = .ok events) :
    ApartInName name name' (calendarLines (options.named name) productIdentifier events)
      (calendarLines (options.named name') productIdentifier events) := by
  refine ⟨_, _, _, _, calendarLines_named, calendarLines_named, ?_, unescape?_escape name,
    unescape?_escape name'⟩
  have hopening : ∀ line ∈ openingLines productIdentifier,
      value? "X-WR-CALNAME" line = none := by
    simp only [openingLines, List.forall_mem_cons]
    refine ⟨?_, ?_, ?_, ?_, by simp⟩ <;>
      exact value?_property_of_ne (by decide) (by decide) (by decide)
  have hclosing : value? "X-WR-CALNAME" (property "END" "VCALENDAR".toList) = none :=
    value?_property_of_ne (by decide) (by decide) (by decide)
  simp only [List.forall_mem_append, List.forall_mem_singleton]
  exact ⟨hopening, value?_of_mem_eventsLines hevents, hclosing⟩

theorem ApartInName.length_eq {ls' : List (List Char)} (h : ApartInName name name' ls ls') :
    ls.length = ls'.length := by
  obtain ⟨before, after, value, value', rfl, rfl, -⟩ := h
  simp

/-! ## Whether there is a calendar -/

/-- With another name there is a calendar exactly if the line for it can be folded. -/
theorem exists_text_named_iff {t : String}
    (ht : text (options.named name) occasion homework = .ok t) :
    (∃ t', text (options.named name') occasion homework = .ok t') ↔ Folds (nameLine name') := by
  obtain ⟨hschedulable, hfolds⟩ := exists_text_iff.1 ⟨t, ht⟩
  rw [exists_text_iff]
  constructor
  · rintro ⟨hschedulable', hfolds'⟩
    obtain ⟨ls, hls⟩ := (exists_lines_iff occasion).2 hschedulable'
    obtain ⟨events, -, rfl⟩ := lines_eq_ok_iff.1 hls
    refine hfolds' _ hls _ ?_
    rw [calendarLines_named]
    simp
  · intro hname
    refine ⟨hschedulable, fun ls hls => ?_⟩
    obtain ⟨events, hevents, rfl⟩ := lines_eq_ok_iff.1 hls
    rw [eventsLines_named] at hevents
    have hlines : lines (options.named name) occasion homework =
        .ok (calendarLines (options.named name) writerProduct events) :=
      lines_eq_ok_iff.2 ⟨events, by rw [eventsLines_named, hevents], rfl⟩
    -- all lines but the one in question were folded with the other name
    have hsame := hfolds _ hlines
    rw [calendarLines_named, List.forall_mem_append, List.forall_mem_cons] at hsame ⊢
    exact ⟨hsame.1, hname, hsame.2.2⟩

/-! ## Two calendars -/

/-- With another name there is a calendar exactly if the line for it can be folded. A reader gets
the same lines of both but for the value that is the name, the same events, and the same product,
named once. -/
theorem text_name_confined (hoccasion : occasion.Plain) (options : Options)
    (homework : List Homework) (name name' : String) {t : String}
    (ht : text (options.named name) occasion homework = .ok t) :
    ((∃ t', text (options.named name') occasion homework = .ok t') ↔ Folds (nameLine name')) ∧
    ∀ t', text (options.named name') occasion homework = .ok t' →
      ApartInName name name' (splitLines (unfold t.toList)) (splitLines (unfold t'.toList)) ∧
      (splitLines (unfold t.toList)).length = (splitLines (unfold t'.toList)).length ∧
      (∃ events, eventsOf? t = some events ∧ eventsOf? t' = some events ∧
        List.Forall₂ (Schedules options occasion) homework events) ∧
      ∀ u ∈ [t, t'], (splitLines (unfold u.toList)).filter
        (fun line => (property "PRODID" []).isPrefixOf line) =
          [property "PRODID" productIdentifier.toList] := by
  refine ⟨exists_text_named_iff ht, fun t' ht' => ?_⟩
  obtain ⟨ls, hls, hlines⟩ := splitLines_unfold_text hoccasion ht
  obtain ⟨ls', hls', hlines'⟩ := splitLines_unfold_text hoccasion ht'
  rw [eventsLines_named] at hls hls'
  obtain rfl := Except.ok.inj (hls.symm.trans hls')
  have hapart : ApartInName name name' (splitLines (unfold t.toList))
      (splitLines (unfold t'.toList)) := by
    rw [hlines, hlines']
    exact apartInName_calendarLines hls
  have hproduct : ∀ name, (calendarLines (options.named name) productIdentifier ls).filter
      (fun line => (property "PRODID" []).isPrefixOf line) =
        [property "PRODID" productIdentifier.toList] :=
    fun name => filter_product_lines hoccasion (eventsLines_named.trans hls)
  obtain ⟨events, hevents, rfl⟩ := exists_schedules_of_eventsLines hls
  have hplain := Schedules.forall_plain hoccasion hevents
  have hread := components?_of_lines hplain hlines
  have hread' := components?_of_lines hplain hlines'
  refine ⟨hapart, hapart.length_eq, ⟨events, ?_, ?_, hevents⟩, ?_⟩
  · exact eventsOf?_of_components? hread (hevents.imp fun _ _ => Schedules.named)
  · exact eventsOf?_of_components? hread' (hevents.imp fun _ _ => Schedules.named)
  · simp only [List.forall_mem_cons, hlines, hlines', hproduct]
    simp

/-- A name that looks like the end of a calendar and another product, with a return at its end. -/
def endingName : String := "END:VCALENDAR\r\nPRODID:ik\nX-WR-CALNAME:a\\, b\r"

/-- An empty name is confined, and so is one that looks like lines of a calendar: its line breaks do
not survive the escaping, so it stays in its own line. -/
theorem endingName_confined : ∃ t t', text (Options.named { zone := Zone.utc } "") desk misleading =
      .ok t ∧ text (Options.named { zone := Zone.utc } endingName) desk misleading = .ok t' ∧
    ApartInName "" endingName (splitLines (unfold t.toList)) (splitLines (unfold t'.toList)) := by
  have hok : (text (Options.named { zone := Zone.utc } "") desk misleading).isOk = true := by
    decide +kernel
  have hnarrow : (nameLine endingName).all (fun c => c.utf8Size = 1) = true := by decide
  have hfolds : Folds (nameLine endingName) :=
    folds_of_narrow fun c hc => of_decide_eq_true (List.all_eq_true.1 hnarrow c hc)
  cases ht : text (Options.named { zone := Zone.utc } "") desk misleading with
  | error e =>
      rw [ht] at hok
      cases hok
  | ok t =>
      have hconfined := text_name_confined plain_desk _ _ _ endingName ht
      obtain ⟨t', ht'⟩ := hconfined.1.2 hfolds
      exact ⟨t, t', rfl, ht', (hconfined.2 t' ht').1⟩

/-- A name of wide characters, with blanks where their bytes are counted. -/
def wideName : String :=
  String.ofList ("xxx".toList ++ List.replicate 56 '😀' ++ List.replicate 80 ' ')

/-- There is a calendar without homework, but none with such a name. The name stands in a line that
is folded like any other, so this is the failing of the folding once more. -/
theorem wideName_not_written : (∃ t, text (Options.named {} "") desk [] = .ok t) ∧
    ¬ ∃ t, text (Options.named {} wideName) desk [] = .ok t := by
  have hok : (text (Options.named {} "") desk []).isOk = true := by decide +kernel
  cases ht : text (Options.named {} "") desk [] with
  | error e =>
      rw [ht] at hok
      cases hok
  | ok t =>
      refine ⟨⟨t, rfl⟩, ?_⟩
      have herror : pieces (nameLine wideName) = .error .backwards := by decide +kernel
      rw [exists_text_named_iff ht, ← exists_pieces_iff, herror]
      rintro ⟨_, h⟩
      cases h

end Agenda.Calendar
