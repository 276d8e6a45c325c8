/-
The components of a calendar.

A calendar is a component with others in it: its events, and in them their alarms. A reader that
keeps the components that are open on a stack recovers all of them from the lines of a text, as
long as no line directly in a component looks as if it opened or closed one. Those that the writer
puts there do not, so the components that are read are those that were written.
-/
import Agenda.Proofs.Calendar.Recovery

set_option autoImplicit false

namespace Agenda.Calendar

/-! ## The reader -/

/-- A component: its name, the lines directly in it, and the components directly in it. -/
structure Component where
  name : List Char
  own : List (List Char)
  inner : List Component

/-- The values under a name directly in a component. -/
def Component.values (c : Component) (name : String) : List (List Char) :=
  c.own.filterMap (value? name)

/-- What has been read: the components that are open, the innermost first, and those that have been
closed outside of all others. -/
structure Outline where
  opened : List Component
  closed : List Component

namespace Outline

/-- Puts a component into the innermost one that is open. -/
def put : Outline → Component → Outline
  | ⟨[], closed⟩, c => ⟨[], closed ++ [c]⟩
  | ⟨outer :: below, closed⟩, c => ⟨{ outer with inner := outer.inner ++ [c] } :: below, closed⟩

/-- Reads one more line. There is none outside of all components, and a component is closed by its
own name. -/
def step (s : Outline) (line : List Char) : Option Outline :=
  match value? "BEGIN" line, value? "END" line, s.opened with
  | some name, _, opened => some ⟨⟨name, [], []⟩ :: opened, s.closed⟩
  | none, some name, top :: below =>
    if name = top.name then some (put ⟨below, s.closed⟩ top) else none
  | none, none, top :: below => some ⟨{ top with own := top.own ++ [line] } :: below, s.closed⟩
  | none, _, [] => none

end Outline

/-- The components of a text that are not in others, if all are closed. -/
def components? (text : String) : Option (List Component) :=
  match (splitLines (unfold text.toList)).foldlM Outline.step ⟨[], []⟩ with
  | some ⟨[], closed⟩ => some closed
  | _ => none

/-- The events in the calendars of a text. -/
def eventsOf? (text : String) : Option (List Component) :=
  (components? text).map fun calendars =>
    (calendars.flatMap Component.inner).filter (·.name = "VEVENT".toList)

/-! ## The lines of components -/

mutual

/-- The lines of a component, those directly in it first. -/
def Component.lines : Component → List (List Char)
  | ⟨name, own, inner⟩ =>
    property "BEGIN" name :: (own ++ componentsLines inner ++ [property "END" name])

/-- The lines of several components. -/
def componentsLines : List Component → List (List Char)
  | [] => []
  | c :: rest => c.lines ++ componentsLines rest

end

/-- No line directly in a component opens or closes one, nor does one further inside. -/
inductive Component.Plain : Component → Prop where
  | mk {name : List Char} {own : List (List Char)} {inner : List Component}
      (hown : ∀ line ∈ own, Named innerNames line) (hinner : ∀ c ∈ inner, c.Plain) :
      Plain ⟨name, own, inner⟩

section

variable {name value line : List Char} {own : List (List Char)} {inner closed : List Component}
  {top : Component} {below : List Component}

theorem outline_begin (s : Outline) :
    s.step (property "BEGIN" value) = some ⟨⟨value, [], []⟩ :: s.opened, s.closed⟩ := by
  have hbegin : value? "BEGIN" (property "BEGIN" value) = some value := by
    rw [value?_property_of_mem (by decide) (by decide), if_pos rfl]
  rw [Outline.step, hbegin]

theorem outline_end : Outline.step ⟨top :: below, closed⟩ (property "END" top.name) =
    some (Outline.put ⟨below, closed⟩ top) := by
  have hbegin : value? "BEGIN" (property "END" top.name) = none := by
    rw [value?_property_of_mem (by decide) (by decide), if_neg (by decide)]
  have hend : value? "END" (property "END" top.name) = some top.name := by
    rw [value?_property_of_mem (by decide) (by decide), if_pos rfl]
  rw [Outline.step, hbegin, hend]
  exact if_pos rfl

theorem outline_own (hline : Named innerNames line) :
    Outline.step ⟨⟨name, own, inner⟩ :: below, closed⟩ line =
      some ⟨⟨name, own ++ [line], inner⟩ :: below, closed⟩ := by
  obtain ⟨other, hother, value, _, rfl⟩ := hline
  have hnames : ∀ name ∈ innerNames, "BEGIN" ≠ name ∧ "END" ≠ name := by decide
  obtain ⟨hbegin, hend⟩ := hnames other hother
  have hother := List.mem_append_right bracketNames hother
  rw [Outline.step, value?_property_of_mem (by decide) hother, if_neg hbegin,
    value?_property_of_mem (by decide) hother, if_neg hend]

theorem foldlM_own {ls : List (List Char)} (hls : ∀ line ∈ ls, Named innerNames line) :
    ls.foldlM Outline.step ⟨⟨name, own, inner⟩ :: below, closed⟩ =
      some ⟨⟨name, own ++ ls, inner⟩ :: below, closed⟩ := by
  induction ls generalizing own with
  | nil => simp
  | cons line ls ih =>
      rw [List.foldlM_cons, outline_own (hls line List.mem_cons_self), Option.bind_eq_bind,
        Option.bind_some, ih fun l hl => hls l (List.mem_cons_of_mem _ hl), List.append_assoc,
        List.singleton_append]

/-- Components that are read one after the other stand in the one that is open. -/
theorem foldlM_componentsLines {cs : List Component}
    (hcs : ∀ c ∈ cs, ∀ s : Outline, c.lines.foldlM Outline.step s = some (s.put c)) :
    (componentsLines cs).foldlM Outline.step ⟨⟨name, own, inner⟩ :: below, closed⟩ =
      some ⟨⟨name, own, inner ++ cs⟩ :: below, closed⟩ := by
  induction cs generalizing inner with
  | nil => simp [componentsLines]
  | cons c cs ih =>
      rw [componentsLines, List.foldlM_append, hcs c List.mem_cons_self, Option.bind_eq_bind,
        Option.bind_some, Outline.put, ih fun d hd => hcs d (List.mem_cons_of_mem _ hd),
        List.append_assoc, List.singleton_append]

/-- A component is read back from its lines. -/
theorem foldlM_lines {c : Component} (hc : c.Plain) (s : Outline) :
    c.lines.foldlM Outline.step s = some (s.put c) := by
  induction hc generalizing s with
  | mk hown _ ih =>
      rw [Component.lines, List.foldlM_cons, outline_begin, Option.bind_eq_bind, Option.bind_some,
        List.foldlM_append, List.foldlM_append, foldlM_own hown, Option.bind_eq_bind,
        Option.bind_some, foldlM_componentsLines ih, Option.bind_some, List.foldlM_cons,
        outline_end]
      rfl

end

/-! ## The components that are written -/

variable {options : Options} {occasion : Occasion} {number : Nat} {h : Homework}
  {homework : List Homework} {ls : List (List Char)}

/-- The alarm that comes so many nanoseconds before the start. -/
def alarmComponent (occasion : Occasion) (number : Nat) (title : String) (lead : Nat) :
    Component :=
  ⟨"VALARM".toList, alarmOwnLines occasion number title lead, []⟩

/-- The event of a piece of homework. -/
def eventComponent (occasion : Occasion) (number : Nat) (h : Homework) (stop : Instant)
    (lead : Option Nat) : Component :=
  ⟨"VEVENT".toList, ownLines h stop (createdStamp occasion h),
    (lead.map (alarmComponent occasion number h.title)).toList⟩

/-- The calendar with these events. -/
def calendarComponent (options : Options) (events : List Component) : Component :=
  ⟨"VCALENDAR".toList, (headerLines options productIdentifier).tail, events⟩

/-- A component is the event of a piece of homework: it ends as the options say, and its alarm is
set as they say. -/
inductive Schedules (options : Options) (occasion : Occasion) (h : Homework) : Component → Prop
  where
  | mk (number : Nat) {stop : Instant} {lead : Option Nat}
      (hstop : h.date.addSeconds? options.duration.seconds = some stop)
      (hlead : lead? options.zone options.reminderHour h.date = .ok lead) :
      Schedules options occasion h (eventComponent occasion number h stop lead)

theorem exists_schedules_of_eventLines (hls : eventLines options occasion number h = .ok ls) :
    ∃ c, Schedules options occasion h c ∧ ls = c.lines := by
  obtain ⟨stop, lead, hstop, hlead, rfl⟩ := eventLines_eq_ok_iff.1 hls
  refine ⟨_, .mk number hstop hlead, ?_⟩
  rw [eventComponent, Component.lines]
  cases lead with
  | none => simp [reminderLines, componentsLines]
  | some lead =>
      simp [reminderLines, componentsLines, alarmComponent, Component.lines, alarmLines,
        alarmOwnLines]

theorem exists_schedules_of_eventsLines
    (hls : eventsLines options occasion number homework = .ok ls) :
    ∃ events, List.Forall₂ (Schedules options occasion) homework events ∧
      ls = componentsLines events := by
  induction homework generalizing number ls with
  | nil =>
      obtain rfl := Except.ok.inj hls
      exact ⟨[], .nil, rfl⟩
  | cons h rest ih =>
      simp only [eventsLines, Result.bind_eq_ok_iff, Except.ok.injEq] at hls
      obtain ⟨_, hlines, _, hmore, rfl⟩ := hls
      obtain ⟨c, hc, rfl⟩ := exists_schedules_of_eventLines hlines
      obtain ⟨events, hevents, rfl⟩ := ih hmore
      exact ⟨c :: events, .cons hc hevents, rfl⟩

theorem Schedules.plain (hoccasion : occasion.Plain) {c : Component}
    (hc : Schedules options occasion h c) : c.Plain := by
  have hmono : ∀ line, Named plainNames line → Named innerNames line :=
    fun line hline => hline.mono fun _ => mem_innerNames
  obtain ⟨number, hstop, hlead⟩ := hc
  refine .mk (fun line hline => ?_) fun c hc => ?_
  · exact hmono line (named_of_mem_ownLines (notMem_createdStamp hoccasion) line hline)
  · obtain ⟨lead, -, rfl⟩ := Option.map_eq_some_iff.1 (Option.mem_toList.1 hc)
    refine .mk (fun line hline => ?_) (by simp)
    exact hmono line (named_of_mem_alarmOwnLines hoccasion line hline)

theorem Schedules.name_eq {c : Component} (hc : Schedules options occasion h c) :
    c.name = "VEVENT".toList := by
  cases hc
  rfl

theorem plain_calendarComponent {events : List Component} (hevents : ∀ c ∈ events, c.Plain) :
    (calendarComponent options events).Plain := by
  refine .mk ?_ hevents
  simp only [headerLines, List.tail_cons, List.forall_mem_cons]
  refine ⟨?_, ?_, ?_, ?_, by simp⟩
  · exact named_property (by decide) (by decide)
  · exact named_property (by decide) (by decide)
  · exact named_property (by decide) (by decide)
  · exact named_property (by decide) (notMem_escape _)

theorem Schedules.forall_plain (hoccasion : occasion.Plain) {events : List Component}
    (hevents : List.Forall₂ (Schedules options occasion) homework events) :
    ∀ c ∈ events, c.Plain := by
  intro c hc
  obtain ⟨h, -, hschedules⟩ := exists_mem_zip_of_forall₂ hevents.flip hc
  exact hschedules.plain hoccasion

/-- The lines of a calendar are read as one component with its events. -/
theorem components?_of_lines {events : List Component} (hevents : ∀ c ∈ events, c.Plain)
    {t : String} (hlines : splitLines (unfold t.toList) =
      calendarLines options productIdentifier (componentsLines events)) :
    components? t = some [calendarComponent options events] := by
  have hcalendar : calendarLines options productIdentifier (componentsLines events) =
      (calendarComponent options events).lines := rfl
  rw [components?, hlines, hcalendar, foldlM_lines (plain_calendarComponent hevents)]
  rfl

/-- The text of a calendar has one component, and in it one event for each piece of homework. -/
theorem components?_text (hoccasion : occasion.Plain) {t : String}
    (ht : text options occasion homework = .ok t) :
    ∃ events, components? t = some [calendarComponent options events] ∧
      List.Forall₂ (Schedules options occasion) homework events := by
  obtain ⟨ls, hls, hlines⟩ := splitLines_unfold_text hoccasion ht
  obtain ⟨events, hevents, rfl⟩ := exists_schedules_of_eventsLines hls
  exact ⟨events, components?_of_lines (Schedules.forall_plain hoccasion hevents) hlines, hevents⟩

/-- All that a calendar has in it are the events of homework. -/
theorem eventsOf?_of_components? {t : String} {events : List Component}
    (hread : components? t = some [calendarComponent options events])
    (hevents : List.Forall₂ (Schedules options occasion) homework events) :
    eventsOf? t = some events := by
  rw [eventsOf?, hread, Option.map_some, List.flatMap_singleton, calendarComponent,
    List.filter_eq_self.2]
  intro c hc
  obtain ⟨h, -, hschedules⟩ := exists_mem_zip_of_forall₂ hevents.flip hc
  exact decide_eq_true hschedules.name_eq

/-- So a reader finds an event for each piece of homework, in order. -/
theorem eventsOf?_text (hoccasion : occasion.Plain) {t : String}
    (ht : text options occasion homework = .ok t) :
    ∃ events, eventsOf? t = some events ∧
      List.Forall₂ (Schedules options occasion) homework events := by
  obtain ⟨events, hread, hevents⟩ := components?_text hoccasion ht
  exact ⟨events, eventsOf?_of_components? hread hevents, hevents⟩

/-- For a single piece of homework there is a single event. -/
theorem exists_event_of_text (hoccasion : occasion.Plain) {t : String}
    (ht : text options occasion [h] = .ok t) :
    ∃ event, eventsOf? t = some [event] ∧ Schedules options occasion h event := by
  obtain ⟨_, hread, hevents⟩ := eventsOf?_text hoccasion ht
  cases hevents with
  | @cons _ event _ _ hevent hrest =>
      cases hrest
      exact ⟨event, hread, hevent⟩

end Agenda.Calendar
