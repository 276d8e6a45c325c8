/-
Homework recovered from its calendar.

Whatever the texts of the homework are, they stand in values, and a value has no line feed. So the
lines of a calendar are told apart, none but one begins like that of the product, and the lines that
open and close components are those that the writer put there. A reader finds one event for each
piece of homework, in the same order, with its identifier, title and body.

That holds for every calendar that is written. One is not written if the times of some homework are
out of range, and, though nothing is wrong with the homework then, if one of the lines cannot be
folded.
-/
import Agenda.Proofs.Calendar.Reading
import Agenda.Proofs.Calendar.Reminder
import Agenda.Proofs.Text.Numeral

set_option autoImplicit false

namespace Agenda

/-! ## Stamps -/

theorem Numeral.notMem_ofNat (n : Nat) : '\n' ∉ ofNat n :=
  fun h => absurd (isDigit_of_mem_ofNat h) (by decide)

theorem Numeral.notMem_padded (width n : Nat) : '\n' ∉ padded width n :=
  fun h => absurd (isDigit_of_mem_padded h) (by decide)

theorem Instant.notMem_stamp (t : Instant) : '\n' ∉ t.stamp := by
  have hsign : ∀ year : Int, '\n' ≠ (if year < 0 then '-' else '+') := by
    intro year
    split <;> decide
  rw [stamp, Date.text, Date.yearText, clockText]
  split <;> simp [Numeral.notMem_padded, hsign]

namespace Calendar

variable {options : Options} {occasion : Occasion} {number : Nat} {h : Homework}
  {ls : List (List Char)}

/-! ## The lines of an event -/

/-- The names and values of the lines directly in the event of a piece of homework. -/
def ownProperties (h : Homework) (stop : Instant) (created : List Char) :
    List (String × List Char) :=
  [("DESCRIPTION", escape h.body),
    ("DTEND", stop.stamp),
    ("DTSTAMP", created),
    ("DTSTART", h.date.stamp),
    ("SUMMARY", escape h.title),
    ("UID", escape (eventIdentifier h))]

/-- The lines directly in the event of a piece of homework. -/
def ownLines (h : Homework) (stop : Instant) (created : List Char) : List (List Char) :=
  (ownProperties h stop created).map fun p => property p.1 p.2

/-- The stamp of the moment in which the homework was set. -/
def createdStamp (occasion : Occasion) (h : Homework) : List Char :=
  match h.created with
  | some t => t.stamp
  | none => occasion.now

/-- The lines of the alarm, if there is one. -/
def reminderLines (occasion : Occasion) (number : Nat) (title : String) :
    Option Nat → List (List Char)
  | some lead => alarmLines occasion number title lead
  | none => []

/-- An event is written if its end is a moment and its alarm can be placed, and then these are its
lines. What an alarm says is kept apart, as it does not show in what is read of the event. -/
theorem eventLines_eq_ok_iff : eventLines options occasion number h = .ok ls ↔
    ∃ stop lead, h.date.addSeconds? options.duration.seconds = some stop ∧
      lead? options.zone options.reminderHour h.date = .ok lead ∧
      ls = property "BEGIN" "VEVENT".toList :: (ownLines h stop (createdStamp occasion h) ++
        reminderLines occasion number h.title lead ++ [property "END" "VEVENT".toList]) := by
  rw [eventLines]
  cases hstop : h.date.addSeconds? options.duration.seconds with
  | none => simp
  | some stop =>
      cases hlead : lead? options.zone options.reminderHour h.date with
      | error e => simp
      | ok lead =>
          simp only [Result.ok_bind, Except.ok.injEq, Option.some.injEq]
          constructor
          · rintro rfl
            refine ⟨stop, lead, rfl, rfl, ?_⟩
            cases lead <;> rfl
          · rintro ⟨_, _, rfl, rfl, rfl⟩
            cases lead <;> rfl

/-- The end of an event and the local time of its start are in range. The local time is needed for
the alarm, and it is asked for even if there is none in the end. -/
def Schedulable (options : Options) (h : Homework) : Prop :=
  (∃ stop, h.date.addSeconds? options.duration.seconds = some stop) ∧
    Instant.firstSecond ≤ h.date.second + options.zone.offsetAt h.date.second ∧
    h.date.second + options.zone.offsetAt h.date.second ≤ Instant.lastSecond

theorem exists_eventLines_iff (options : Options) (occasion : Occasion) (number : Nat)
    (h : Homework) :
    (∃ ls, eventLines options occasion number h = .ok ls) ↔ Schedulable options h := by
  have hrange := exists_lead?_iff options.zone options.reminderHour h.date
  simp only [eventLines_eq_ok_iff]
  constructor
  · rintro ⟨_, stop, lead, hstop, hlead, _⟩
    exact ⟨⟨stop, hstop⟩, hrange.1 ⟨lead, hlead⟩⟩
  · rintro ⟨⟨stop, hstop⟩, hlocal⟩
    obtain ⟨lead, hlead⟩ := hrange.2 hlocal
    exact ⟨_, stop, lead, hstop, hlead, rfl⟩

/-- The lines of the events are there if each event can be scheduled. One that cannot leaves a
calendar without the others too. -/
theorem exists_eventsLines_iff (options : Options) (occasion : Occasion) (number : Nat)
    (homework : List Homework) : (∃ ls, eventsLines options occasion number homework = .ok ls) ↔
      ∀ h ∈ homework, Schedulable options h := by
  induction homework generalizing number with
  | nil => simp [eventsLines]
  | cons h rest ih =>
      rw [List.forall_mem_cons, ← exists_eventLines_iff options occasion number,
        ← ih (number + 1)]
      simp only [eventsLines, Result.bind_eq_ok_iff]
      constructor
      · rintro ⟨_, lines, hlines, more, hmore, _⟩
        exact ⟨⟨lines, hlines⟩, more, hmore⟩
      · rintro ⟨⟨lines, hlines⟩, more, hmore⟩
        exact ⟨_, lines, hlines, more, hmore, rfl⟩

/-! ## What is on the lines -/

/-- A line with one of these names, and a value without a line feed. Everything that a reader needs
to tell lines apart is in this. -/
def Named (names : List String) (line : List Char) : Prop :=
  ∃ name ∈ names, ∃ value, '\n' ∉ value ∧ line = property name value

/-- The names of the lines that open and close components. -/
def bracketNames : List String := ["BEGIN", "END"]

/-- The names of all other lines but that of the product. -/
def plainNames : List String :=
  ["ACTION", "CALSCALE", "DESCRIPTION", "DTEND", "DTSTAMP", "DTSTART", "SUMMARY",
    "TRIGGER;RELATED=START", "UID", "VERSION", "X-WR-CALNAME"]

/-- The names of the lines that stand directly in a component. -/
def innerNames : List String := "PRODID" :: plainNames

theorem mem_innerNames {name : String} (h : name ∈ plainNames) : name ∈ innerNames :=
  List.mem_cons_of_mem _ h

theorem colon_notMem : ∀ name ∈ bracketNames ++ innerNames, ':' ∉ name.toList := by decide

/-- No name of a line is the beginning of another one, because a colon comes behind it. So a line
has a value under its own name only. -/
theorem value?_property_of_mem {name other : String} {value : List Char}
    (hname : name ∈ bracketNames ++ innerNames) (hother : other ∈ bracketNames ++ innerNames) :
    value? name (property other value) = if name = other then some value else none :=
  value?_property (colon_notMem name hname) (colon_notMem other hother)

theorem Named.mono {names others : List String} {line : List Char} (h : Named names line)
    (hsubset : ∀ name ∈ names, name ∈ others) : Named others line := by
  obtain ⟨name, hname, value, hvalue, rfl⟩ := h
  exact ⟨name, hsubset name hname, value, hvalue, rfl⟩

theorem named_property {names : List String} {name : String} {value : List Char}
    (hname : name ∈ names) (hvalue : '\n' ∉ value) : Named names (property name value) :=
  ⟨name, hname, value, hvalue, rfl⟩

theorem mem_plainNames_of_mem_ownProperties {stop : Instant} {created : List Char} :
    ∀ p ∈ ownProperties h stop created, p.1 ∈ plainNames := by
  simp only [ownProperties, List.forall_mem_cons]
  refine ⟨by decide, by decide, by decide, by decide, by decide, by decide, by simp⟩

/-- The texts of homework are escaped, so whatever they are, they have no line feed on their
line. -/
theorem named_of_mem_ownLines {stop : Instant} {created : List Char} (hcreated : '\n' ∉ created) :
    ∀ line ∈ ownLines h stop created, Named plainNames line := by
  have hvalues : ∀ p ∈ ownProperties h stop created, '\n' ∉ p.2 := by
    simp only [ownProperties, List.forall_mem_cons]
    refine ⟨?_, ?_, ?_, ?_, ?_, ?_, by simp⟩
    · exact notMem_escape _
    · exact stop.notMem_stamp
    · exact hcreated
    · exact h.date.notMem_stamp
    · exact notMem_escape _
    · exact notMem_escape _
  intro line hline
  obtain ⟨p, hp, rfl⟩ := List.mem_map.1 hline
  exact named_property (mem_plainNames_of_mem_ownProperties p hp) (hvalues p hp)

/-- The lines directly in an alarm. -/
def alarmOwnLines (occasion : Occasion) (number : Nat) (title : String) (lead : Nat) :
    List (List Char) :=
  [property "DTSTAMP" occasion.now,
    property "ACTION" "DISPLAY".toList,
    property "DESCRIPTION" (escape title),
    property "TRIGGER;RELATED=START" ("-PT".toList ++ secondsText lead ++ ['S']),
    property "UID" (occasion.alarmIdentifier number)]

/-- What the surroundings put on lines has no line feed. The clock and the source of random
identifiers are not part of the program, so this much is asked of them. -/
structure Occasion.Plain (occasion : Occasion) : Prop where
  now : '\n' ∉ occasion.now
  alarmIdentifier (number : Nat) : '\n' ∉ occasion.alarmIdentifier number

theorem notMem_secondsText (lead : Nat) : '\n' ∉ secondsText lead := by
  have hzeros : '\n' ∉ Numeral.dropTrailingZeros (Numeral.padded 9 (lead % nanosPerSecond)) :=
    fun hmem => Numeral.notMem_padded _ _ (Numeral.mem_of_mem_dropTrailingZeros hmem)
  rw [secondsText]
  split
  · simpa using Numeral.notMem_ofNat _
  · simpa [Numeral.notMem_ofNat] using hzeros

theorem named_of_mem_alarmOwnLines (hoccasion : occasion.Plain) {title : String} {lead : Nat} :
    ∀ line ∈ alarmOwnLines occasion number title lead, Named plainNames line := by
  simp only [alarmOwnLines, List.forall_mem_cons]
  refine ⟨?_, ?_, ?_, ?_, ?_, by simp⟩
  · exact named_property (by decide) hoccasion.now
  · exact named_property (by decide) (by decide)
  · exact named_property (by decide) (notMem_escape _)
  · refine named_property (by decide) ?_
    simp [notMem_secondsText]
  · exact named_property (by decide) (hoccasion.alarmIdentifier number)

theorem notMem_createdStamp (hoccasion : occasion.Plain) : '\n' ∉ createdStamp occasion h := by
  rw [createdStamp]
  split
  · exact Instant.notMem_stamp _
  · exact hoccasion.now

/-! ## Reading the lines of events -/

section

variable {s : Reading} {top line value : List Char} {own : List (List Char)}
  {below : List (List Char × List (List Char))} {events : List (List (List Char))}

/-- A reader opens a component, or closes the innermost one, or adds a line to it; these are the
three ways to go on. -/
theorem step_begin :
    s.step (property "BEGIN" value) = some ⟨(value, []) :: s.opened, s.events⟩ := by
  have hbegin : value? "BEGIN" (property "BEGIN" value) = some value := by
    rw [value?_property_of_mem (by decide) (by decide), if_pos rfl]
  rw [Reading.step, hbegin]

theorem step_end :
    Reading.step ⟨(top, own) :: below, events⟩ (property "END" top) =
      some ⟨below, if top = "VEVENT".toList then events ++ [own] else events⟩ := by
  have hbegin : value? "BEGIN" (property "END" top) = none := by
    rw [value?_property_of_mem (by decide) (by decide), if_neg (by decide)]
  have hend : value? "END" (property "END" top) = some top := by
    rw [value?_property_of_mem (by decide) (by decide), if_pos rfl]
  rw [Reading.step, hbegin, hend]
  exact if_pos rfl

theorem step_inner (hline : Named innerNames line) :
    Reading.step ⟨(top, own) :: below, events⟩ line =
      some ⟨(top, own ++ [line]) :: below, events⟩ := by
  obtain ⟨name, hname, value, _, rfl⟩ := hline
  have hnames : ∀ name ∈ innerNames, "BEGIN" ≠ name ∧ "END" ≠ name := by decide
  obtain ⟨hbegin, hend⟩ := hnames name hname
  have hname := List.mem_append_right bracketNames hname
  rw [Reading.step, value?_property_of_mem (by decide) hname, if_neg hbegin,
    value?_property_of_mem (by decide) hname, if_neg hend]

theorem foldlM_inner (hls : ∀ line ∈ ls, Named innerNames line) :
    ls.foldlM Reading.step ⟨(top, own) :: below, events⟩ =
      some ⟨(top, own ++ ls) :: below, events⟩ := by
  induction ls generalizing own with
  | nil => simp
  | cons line ls ih =>
      rw [List.foldlM_cons, step_inner (hls line List.mem_cons_self), Option.bind_eq_bind,
        Option.bind_some, ih fun l hl => hls l (List.mem_cons_of_mem _ hl), List.append_assoc,
        List.singleton_append]

/-- A component without others in it is read as a whole, wherever it stands. -/
theorem foldlM_component (hls : ∀ line ∈ ls, Named innerNames line) :
    (property "BEGIN" top :: (ls ++ [property "END" top])).foldlM Reading.step s =
      some ⟨s.opened, if top = "VEVENT".toList then s.events ++ [ls] else s.events⟩ := by
  rw [List.foldlM_cons, step_begin, Option.bind_eq_bind, Option.bind_some, List.foldlM_append,
    foldlM_inner hls, Option.bind_eq_bind, Option.bind_some, List.foldlM_cons, step_end]
  rfl

end

/-- An alarm leaves no trace outside of it. So what it is named and what it describes cannot be
taken for the event's own. -/
theorem foldlM_reminderLines (hoccasion : occasion.Plain) (title : String) (lead : Option Nat)
    (s : Reading) : (reminderLines occasion number title lead).foldlM Reading.step s = some s := by
  cases lead with
  | none => rfl
  | some lead =>
      have hls : ∀ line ∈ alarmOwnLines occasion number title lead, Named innerNames line :=
        fun line hline => (named_of_mem_alarmOwnLines hoccasion line hline).mono fun _ =>
          mem_innerNames
      exact foldlM_component hls

/-- An event has the identifier, the title and the body of a piece of homework, each once. That is
what a reader of the calendar learns of it. -/
structure Recovers (h : Homework) (own : List (List Char)) : Prop where
  identifier : (own.filterMap (value? "UID")).map unescape? =
    [some (h.identifier ++ "@huiswerk-ical").toList]
  title : (own.filterMap (value? "SUMMARY")).map unescape? = [some h.title.toList]
  body : (own.filterMap (value? "DESCRIPTION")).map unescape? = [some h.body.toList]

/-- The values under a name directly in an event are those that were put there under the name. -/
theorem filterMap_ownLines {name : String} (hname : name ∈ plainNames) (stop : Instant)
    (created : List Char) : (ownLines h stop created).filterMap (value? name) =
      ((ownProperties h stop created).filter fun p => name = p.1).map Prod.snd := by
  have hcolon : ∀ name ∈ plainNames, ':' ∉ name.toList := by
    intro name hname
    exact colon_notMem name (List.mem_append_right _ (mem_innerNames hname))
  apply filterMap_value? (hcolon name hname)
  intro p hp
  exact hcolon _ (mem_plainNames_of_mem_ownProperties p hp)

theorem recovers_ownLines (stop : Instant) (created : List Char) :
    Recovers h (ownLines h stop created) := by
  refine ⟨?_, ?_, ?_⟩
  · rw [filterMap_ownLines (by decide)]
    simp [ownProperties, unescape?_escape, eventIdentifier]
  · rw [filterMap_ownLines (by decide)]
    simp [ownProperties, unescape?_escape]
  · rw [filterMap_ownLines (by decide)]
    simp [ownProperties, unescape?_escape]

/-- An event is read as the lines directly in it, with its alarm left aside. -/
theorem foldlM_eventLines (hoccasion : occasion.Plain)
    (hls : eventLines options occasion number h = .ok ls) (s : Reading) :
    ∃ own, Recovers h own ∧ ls.foldlM Reading.step s = some ⟨s.opened, s.events ++ [own]⟩ := by
  obtain ⟨stop, lead, _, _, rfl⟩ := eventLines_eq_ok_iff.1 hls
  refine ⟨_, recovers_ownLines stop (createdStamp occasion h), ?_⟩
  have hown : ∀ line ∈ ownLines h stop (createdStamp occasion h), Named innerNames line :=
    fun line hline => (named_of_mem_ownLines (notMem_createdStamp hoccasion) line hline).mono
      fun _ => mem_innerNames
  rw [List.foldlM_cons, step_begin, Option.bind_eq_bind, Option.bind_some, List.foldlM_append,
    List.foldlM_append, foldlM_inner hown, Option.bind_eq_bind, Option.bind_some,
    foldlM_reminderLines hoccasion, Option.bind_some, List.foldlM_cons, step_end]
  rfl

/-- The events of a calendar are read one after the other. -/
theorem foldlM_eventsLines (hoccasion : occasion.Plain) {homework : List Homework}
    (hls : eventsLines options occasion number homework = .ok ls) (s : Reading) :
    ∃ events, List.Forall₂ Recovers homework events ∧
      ls.foldlM Reading.step s = some ⟨s.opened, s.events ++ events⟩ := by
  induction homework generalizing number ls s with
  | nil =>
      obtain rfl := Except.ok.inj hls
      exact ⟨[], .nil, by simp⟩
  | cons h rest ih =>
      simp only [eventsLines, Result.bind_eq_ok_iff, Except.ok.injEq] at hls
      obtain ⟨lines, hlines, more, hmore, rfl⟩ := hls
      obtain ⟨own, hown, hevent⟩ := foldlM_eventLines hoccasion hlines s
      obtain ⟨events, hevents, hrest⟩ := ih hmore ⟨s.opened, s.events ++ [own]⟩
      refine ⟨own :: events, .cons hown hevents, ?_⟩
      rw [List.foldlM_append, hevent, Option.bind_eq_bind, Option.bind_some, hrest,
        List.append_assoc, List.singleton_append]

/-! ## The whole calendar -/

/-- The lines before the events. -/
def headerLines (options : Options) (product : String) : List (List Char) :=
  [property "BEGIN" "VCALENDAR".toList,
    property "VERSION" "2.0".toList,
    property "PRODID" product.toList,
    property "CALSCALE" "GREGORIAN".toList,
    property "X-WR-CALNAME" (escape options.name)]

/-- The lines of a calendar with these lines of events. -/
def calendarLines (options : Options) (product : String) (events : List (List Char)) :
    List (List Char) :=
  headerLines options product ++ events ++ [property "END" "VCALENDAR".toList]

/-- The lines of a calendar are the header, the events and the end, and only the events may fail. -/
theorem lines_eq_ok_iff {homework : List Homework} : lines options occasion homework = .ok ls ↔
    ∃ events, eventsLines options occasion 0 homework = .ok events ∧
      ls = calendarLines options writerProduct events := by
  rw [lines]
  simp only [Result.bind_eq_ok_iff, Except.ok.injEq, calendarLines, headerLines]
  exact exists_congr fun events => and_congr_right fun _ => eq_comm

theorem exists_lines_iff (occasion : Occasion) {homework : List Homework} :
    (∃ ls, lines options occasion homework = .ok ls) ↔ ∀ h ∈ homework, Schedulable options h := by
  rw [← exists_eventsLines_iff options occasion 0]
  simp only [lines_eq_ok_iff]
  constructor
  · rintro ⟨_, events, hevents, _⟩
    exact ⟨events, hevents⟩
  · rintro ⟨events, hevents⟩
    exact ⟨_, events, hevents, rfl⟩

theorem named_of_mem_component {top : List Char} (htop : '\n' ∉ top)
    (hls : ∀ line ∈ ls, Named (bracketNames ++ plainNames) line) :
    ∀ line ∈ property "BEGIN" top :: (ls ++ [property "END" top]),
      Named (bracketNames ++ plainNames) line := by
  intro line hline
  simp only [List.mem_cons, List.mem_append, List.not_mem_nil, or_false] at hline
  rcases hline with rfl | hline | rfl
  · exact named_property (by decide) htop
  · exact hls line hline
  · exact named_property (by decide) htop

/-- The lines of an event open and close components or have one of the plain names. In particular
none of them names a product. -/
theorem named_of_mem_eventLines (hoccasion : occasion.Plain)
    (hls : eventLines options occasion number h = .ok ls) :
    ∀ line ∈ ls, Named (bracketNames ++ plainNames) line := by
  obtain ⟨stop, lead, _, _, rfl⟩ := eventLines_eq_ok_iff.1 hls
  have hplain : ∀ line, Named plainNames line → Named (bracketNames ++ plainNames) line :=
    fun line hline => hline.mono fun _ => List.mem_append_right _
  apply named_of_mem_component (by decide)
  intro line hline
  rcases List.mem_append.1 hline with hline | hline
  · exact hplain line (named_of_mem_ownLines (notMem_createdStamp hoccasion) line hline)
  · cases lead with
    | none => cases hline
    | some lead =>
        have halarm : ∀ line ∈ alarmOwnLines occasion number h.title lead,
            Named (bracketNames ++ plainNames) line :=
          fun line hline => hplain line (named_of_mem_alarmOwnLines hoccasion line hline)
        exact named_of_mem_component (by decide) halarm line hline

theorem named_of_mem_eventsLines (hoccasion : occasion.Plain) {homework : List Homework}
    (hls : eventsLines options occasion number homework = .ok ls) :
    ∀ line ∈ ls, Named (bracketNames ++ plainNames) line := by
  induction homework generalizing number ls with
  | nil =>
      obtain rfl := Except.ok.inj hls
      simp
  | cons h rest ih =>
      simp only [eventsLines, Result.bind_eq_ok_iff, Except.ok.injEq] at hls
      obtain ⟨lines, hlines, more, hmore, rfl⟩ := hls
      intro line hline
      rcases List.mem_append.1 hline with hline | hline
      · exact named_of_mem_eventLines hoccasion hlines line hline
      · exact ih hmore line hline

/-- A line that has another name is not renamed, whatever its value says. -/
theorem namesNoProduct_of_named {line : List Char} (h : Named (bracketNames ++ plainNames) line) :
    NamesNoProduct line := by
  obtain ⟨name, hname, value, _, rfl⟩ := h
  have hnames : ∀ name ∈ bracketNames ++ plainNames,
      name ∈ bracketNames ++ innerNames ∧ "PRODID" ≠ name := by decide
  obtain ⟨hinner, hne⟩ := hnames name hname
  have hnone : value? "PRODID" (property name value) = none := by
    rw [value?_property_of_mem (by decide) hinner, if_neg hne]
  rw [value?] at hnone
  rw [NamesNoProduct, isPrefixOf_eq, hnone]
  rfl

/-- Lines with names can be told apart after folding, since none of them is empty or begins with a
blank. -/
theorem separate_of_named (hls : ∀ line ∈ ls, Named (bracketNames ++ innerNames) line) :
    Separate ls := by
  intro line hline
  obtain ⟨name, hname, value, hvalue, rfl⟩ := hls line hline
  have hnames : ∀ name ∈ bracketNames ++ innerNames,
      '\n' ∉ name.toList ∧ (name.toList.head?.getD ':') ≠ ' ' := by decide
  obtain ⟨hfeed, hspace⟩ := hnames name hname
  rw [property]
  refine ⟨?_, ?_⟩
  · simp [hfeed, hvalue]
  · rw [List.head?_append]
    cases hhead : name.toList.head? with
    | none => simp
    | some c =>
        rw [hhead] at hspace
        simpa using hspace

theorem named_of_mem_headerLines {product : String} (hproduct : '\n' ∉ product.toList) :
    ∀ line ∈ headerLines options product, Named (bracketNames ++ innerNames) line := by
  simp only [headerLines, List.forall_mem_cons]
  refine ⟨?_, ?_, ?_, ?_, ?_, by simp⟩
  · exact named_property (by decide) (by decide)
  · exact named_property (by decide) (by decide)
  · exact named_property (by decide) hproduct
  · exact named_property (by decide) (by decide)
  · exact named_property (by decide) (notMem_escape _)

theorem map_renameProduct_headerLines : (headerLines options writerProduct).map renameProduct =
    headerLines options productIdentifier := by
  have hname : NamesNoProduct (property "X-WR-CALNAME" (escape options.name)) :=
    namesNoProduct_of_named (named_property (by decide) (notMem_escape _))
  simp only [headerLines, List.map_cons, List.map_nil, renameProduct_eq_self hname]
  rfl

section

variable {events : List (List Char)}
  (hevents : ∀ line ∈ events, Named (bracketNames ++ plainNames) line)

include hevents

/-- A reader can tell the lines of a calendar apart, whatever the texts in it. -/
theorem separate_calendarLines {product : String} (hproduct : '\n' ∉ product.toList) :
    Separate (calendarLines options product events) := by
  have hsubset : ∀ name ∈ bracketNames ++ plainNames, name ∈ bracketNames ++ innerNames := by
    decide
  apply separate_of_named
  intro line hline
  simp only [calendarLines, List.mem_append, List.mem_singleton] at hline
  rcases hline with (hline | hline) | rfl
  · exact named_of_mem_headerLines hproduct line hline
  · exact (hevents line hline).mono hsubset
  · exact named_property (by decide) (by decide)

/-- Nothing but the product is renamed, and the name of the calendar is not, even if it looks like a
product. -/
theorem map_renameProduct_calendarLines :
    (calendarLines options writerProduct events).map renameProduct =
      calendarLines options productIdentifier events := by
  have hsame : events.map renameProduct = events.map id := by
    apply List.map_congr_left
    intro line hline
    exact renameProduct_eq_self (namesNoProduct_of_named (hevents line hline))
  have hend : NamesNoProduct (property "END" "VCALENDAR".toList) :=
    namesNoProduct_of_named (named_property (by decide) (by decide))
  rw [calendarLines, List.map_append, List.map_append, map_renameProduct_headerLines, hsame,
    List.map_id, List.map_singleton, renameProduct_eq_self hend, calendarLines]

/-- The line of the product is not folded. If it were, only its first piece would be renamed and the
others would stay. -/
theorem namesNoProduct_or_short : ∀ line ∈ calendarLines options writerProduct events,
    NamesNoProduct line ∨ Bytes.count line ≤ lineLimit := by
  intro line hline
  simp only [calendarLines, headerLines, List.mem_append, List.mem_cons, List.not_mem_nil,
    or_false] at hline
  rcases hline with ((rfl | rfl | rfl | rfl | rfl) | hline) | rfl
  · exact .inr (by decide)
  · exact .inr (by decide)
  · exact .inr (by decide)
  · exact .inr (by decide)
  · exact .inl (namesNoProduct_of_named (named_property (by decide) (notMem_escape _)))
  · exact .inl (namesNoProduct_of_named (hevents line hline))
  · exact .inr (by decide)

end

/-- Whatever is read from a calendar, these are its lines: unfolding and splitting undo what the
writer and the renaming of the product have done. -/
theorem splitLines_unfold_text (hoccasion : occasion.Plain) {homework : List Homework}
    {t : String} (ht : text options occasion homework = .ok t) :
    ∃ events, eventsLines options occasion 0 homework = .ok events ∧
      splitLines (unfold t.toList) = calendarLines options productIdentifier events := by
  simp only [text, Result.bind_eq_ok_iff, Result.mapError_eq_ok_iff, lines_eq_ok_iff,
    Except.ok.injEq] at ht
  obtain ⟨_, ⟨events, hevents, rfl⟩, written, hwritten, rfl⟩ := ht
  have hnamed := named_of_mem_eventsLines hoccasion hevents
  have hmap : (calendarLines options writerProduct events).map renameProduct =
      calendarLines options productIdentifier events := map_renameProduct_calendarLines hnamed
  refine ⟨events, hevents, ?_⟩
  rw [String.toList_ofList, ← hmap]
  apply splitLines_unfold_rewriteProduct _ _ (namesNoProduct_or_short hnamed) hwritten
  · exact separate_calendarLines hnamed (by decide)
  · rw [hmap]
    exact separate_calendarLines hnamed (by decide)

/-- A calendar is written if its events can be scheduled and its lines folded. There is no third
condition, so whoever knows these two knows whether a run can go well. -/
theorem exists_text_iff {homework : List Homework} :
    (∃ t, text options occasion homework = .ok t) ↔ (∀ h ∈ homework, Schedulable options h) ∧
      ∀ ls, lines options occasion homework = .ok ls → ∀ line ∈ ls, Folds line := by
  have hwritten : ∀ ls, (∃ out, writeLines ls = .ok out) ↔ ∀ line ∈ ls, Folds line := by
    intro ls
    simp only [writeLines_eq_ok_iff, ← exists_pieces_iff, ← exists_forall₂_iff]
    constructor
    · rintro ⟨_, pss, hpss, _⟩
      exact ⟨pss, hpss⟩
    · rintro ⟨pss, hpss⟩
      exact ⟨_, pss, hpss, rfl⟩
  rw [← exists_lines_iff occasion]
  simp only [text, Result.bind_eq_ok_iff, Result.mapError_eq_ok_iff, Except.ok.injEq]
  constructor
  · rintro ⟨_, ls, hls, out, hout, _⟩
    refine ⟨⟨ls, hls⟩, ?_⟩
    intro ls' hls'
    obtain rfl := Except.ok.inj (hls.symm.trans hls')
    exact (hwritten ls).1 ⟨out, hout⟩
  · rintro ⟨⟨ls, hls⟩, hfolds⟩
    obtain ⟨out, hout⟩ := (hwritten ls).2 (hfolds ls hls)
    exact ⟨_, ls, hls, out, hout, rfl⟩

/-- The events that are read from the lines of a calendar. -/
theorem events?_lines (hoccasion : occasion.Plain) {homework : List Homework}
    (hls : eventsLines options occasion 0 homework = .ok ls) :
    ∃ events, events? (calendarLines options productIdentifier ls) = some events ∧
      List.Forall₂ Recovers homework events := by
  have hinner : ∀ line ∈ (headerLines options productIdentifier).tail, Named innerNames line := by
    simp only [headerLines, List.tail_cons, List.forall_mem_cons]
    refine ⟨?_, ?_, ?_, ?_, by simp⟩
    · exact named_property (by decide) (by decide)
    · exact named_property (by decide) (by decide)
    · exact named_property (by decide) (by decide)
    · exact named_property (by decide) (notMem_escape _)
  obtain ⟨events, hevents, hread⟩ := foldlM_eventsLines hoccasion hls
    ⟨[("VCALENDAR".toList, (headerLines options productIdentifier).tail)], []⟩
  have hheader : (headerLines options productIdentifier).foldlM Reading.step ⟨[], []⟩ =
      some ⟨[("VCALENDAR".toList, (headerLines options productIdentifier).tail)], []⟩ := by
    rw [headerLines, List.foldlM_cons, step_begin, Option.bind_eq_bind, Option.bind_some]
    exact foldlM_inner hinner
  refine ⟨events, ?_, hevents⟩
  rw [events?, calendarLines, List.foldlM_append, List.foldlM_append, hheader, Option.bind_eq_bind,
    Option.bind_some, hread, Option.bind_some, List.foldlM_cons, step_end]
  rfl

/-- The product is named once, and by the line that is meant to, because no text can begin a
line. -/
theorem filter_product_lines (hoccasion : occasion.Plain) {homework : List Homework}
    (hls : eventsLines options occasion 0 homework = .ok ls) :
    (calendarLines options productIdentifier ls).filter
        (fun line => (property "PRODID" []).isPrefixOf line) =
      [property "PRODID" productIdentifier.toList] := by
  have hevents : ls.filter (fun line => (property "PRODID" []).isPrefixOf line) = [] := by
    rw [List.filter_eq_nil_iff]
    intro line hline hprefix
    have hnone := namesNoProduct_of_named (named_of_mem_eventsLines hoccasion hls line hline)
    rw [NamesNoProduct, hprefix] at hnone
    cases hnone
  have hname : NamesNoProduct (property "X-WR-CALNAME" (escape options.name)) :=
    namesNoProduct_of_named (named_property (by decide) (notMem_escape _))
  rw [NamesNoProduct] at hname
  rw [calendarLines, List.filter_append, List.filter_append, hevents, List.append_nil]
  simp only [headerLines, List.filter_cons, hname, List.filter_nil]
  rfl

/-- A calendar is written exactly if the times of its events are in range and each of its lines can
be folded. Then a reader finds one event for each piece of homework, in order, with its identifier,
title and body, and one line that names the product. -/
theorem text_recovered (hoccasion : occasion.Plain) (options : Options) (homework : List Homework) :
    ((∃ t, text options occasion homework = .ok t) ↔ (∀ h ∈ homework, Schedulable options h) ∧
      ∀ ls, lines options occasion homework = .ok ls → ∀ line ∈ ls, Folds line) ∧
    ∀ t, text options occasion homework = .ok t →
      (∃ events, events? (splitLines (unfold t.toList)) = some events ∧
        List.Forall₂ Recovers homework events) ∧
      (splitLines (unfold t.toList)).filter (fun line => (property "PRODID" []).isPrefixOf line) =
        [property "PRODID" productIdentifier.toList] := by
  refine ⟨exists_text_iff, ?_⟩
  intro t ht
  obtain ⟨ls, hls, hlines⟩ := splitLines_unfold_text hoccasion ht
  rw [hlines]
  exact ⟨events?_lines hoccasion hls, filter_product_lines hoccasion hls⟩

/-- A Monday morning. -/
def monday : Instant :=
  ⟨1725265800, 0, by decide, by decide, Instant.zero_nano_lt, by decide⟩

/-- Surroundings to make calendars in: the clock, and alarms that are numbered. -/
def desk : Occasion := ⟨monday.stamp, Numeral.ofNat⟩

theorem plain_desk : desk.Plain where
  now := monday.notMem_stamp
  alarmIdentifier := Numeral.notMem_ofNat

/-- Homework whose texts look like lines of a calendar, and homework with nothing in its texts. -/
def misleading : List Homework :=
  [⟨"3; \\n, 4", "END:VEVENT\r\nPRODID:ik", "netl", "4242", monday, none⟩,
    ⟨"", "", "", "", monday, none⟩]

/-- Texts that look like the end of an event, or like the line of another program, are recovered as
texts: their line breaks are escaped, so no line begins where they do. Empty texts are recovered as
well. -/
theorem misleading_recovered : ∃ t, text { zone := Zone.utc } desk misleading = .ok t ∧
    (∃ events, events? (splitLines (unfold t.toList)) = some events ∧
      List.Forall₂ Recovers misleading events) ∧
    (splitLines (unfold t.toList)).filter (fun line => (property "PRODID" []).isPrefixOf line) =
      [property "PRODID" productIdentifier.toList] := by
  have hok : (text { zone := Zone.utc } desk misleading).isOk = true := by decide +kernel
  cases ht : text { zone := Zone.utc } desk misleading with
  | error e =>
      rw [ht] at hok
      cases hok
  | ok t => exact ⟨t, rfl, (text_recovered plain_desk { zone := Zone.utc } misleading).2 t ht⟩

/-- Wide characters, and blanks where their bytes are counted. -/
def wideText : List Char := List.replicate 60 '😀' ++ List.replicate 80 ' '

/-- The second cut of a line with such a text would lie before the first. -/
theorem not_folds_wideText : ¬ Folds (property "DESCRIPTION" wideText) := by
  have herror : pieces (property "DESCRIPTION" wideText) = .error .backwards := by decide +kernel
  rw [← exists_pieces_iff, herror]
  rintro ⟨_, h⟩
  cases h

/-- Homework with such a description. -/
def wide : Homework := ⟨"", String.ofList wideText, "x", "1", monday, some monday⟩

/-- Nothing is wrong with its times, but there is no calendar. The cut of a line is sought at
numbers of characters while its length is counted in bytes, and the two are far apart behind wide
characters. -/
theorem wide_not_written : Schedulable { reminderHour := 24 } wide ∧
    ¬ ∃ t, text { reminderHour := 24 } desk [wide] = .ok t := by
  have hschedulable : Schedulable { reminderHour := 24 } wide := by
    refine ⟨?_, by decide +kernel, by decide +kernel⟩
    rw [← Option.isSome_iff_exists]
    decide +kernel
  refine ⟨hschedulable, ?_⟩
  have hbody : escape wide.body = wideText := by
    have hne : (String.ofList wideText).isEmpty = false := by simp [wideText]
    rw [Homework.body, wide, hne, if_neg Bool.false_ne_true, escape, String.toList_ofList]
    simp [wideText, escapeChar]
  rw [exists_text_iff, not_and]
  intro _ hfolds
  obtain ⟨ls, hls⟩ := (exists_lines_iff desk).2 (List.forall_mem_singleton.2 hschedulable)
  obtain ⟨_, hevents, rfl⟩ := lines_eq_ok_iff.1 hls
  simp only [eventsLines, Result.bind_eq_ok_iff, Except.ok.injEq] at hevents
  obtain ⟨_, hevent, more, _, rfl⟩ := hevents
  obtain ⟨stop, lead, _, _, rfl⟩ := eventLines_eq_ok_iff.1 hevent
  have hdescription := hfolds _ hls (property "DESCRIPTION" (escape wide.body))
    (by simp [calendarLines, ownLines, ownProperties])
  rw [hbody] at hdescription
  exact not_folds_wideText hdescription

end Calendar

end Agenda
