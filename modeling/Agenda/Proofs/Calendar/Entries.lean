/-
The entries of a calendar.

Of several pieces of homework with one identifier the first is kept, and what is kept is put in
order of date and identifier, strictly, since no identifier is left twice. An event has the
identifier of its homework, so a calendar of such entries identifies each of its events.
-/
import Agenda.Proofs.Calendar.Recovery
import Agenda.Proofs.Homework

set_option autoImplicit false

namespace Agenda.Calendar

variable {homework : List Homework} {events : List (List (List Char))} {occasion : Occasion}
  {options : Options} {t : String}

/-- The text that identifies the event of a piece of homework. -/
def identifierText (h : Homework) : Option (List Char) :=
  some (h.identifier ++ "@huiswerk-ical").toList

theorem identifierText_injective {g h : Homework} (hgh : identifierText g = identifierText h) :
    g.identifier = h.identifier :=
  (String.append_left_inj _).1 (String.toList_inj.1 (Option.some.inj hgh))

/-- Every event has one identifier, that of its homework. -/
theorem exists_identifiers (h : List.Forall₂ Recovers homework events) :
    ∃ identifiers : List (List Char),
      events.map (fun own => own.filterMap (value? "UID")) = identifiers.map ([·]) ∧
        identifiers.map unescape? = homework.map identifierText := by
  induction h with
  | nil => exact ⟨[], rfl, rfl⟩
  | cons hown _ ih =>
      obtain ⟨identifiers, hvalues, htexts⟩ := ih
      obtain ⟨identifier, hvalue, htext⟩ := List.map_eq_singleton_iff.1 hown.identifier
      refine ⟨identifier :: identifiers, ?_, ?_⟩
      · rw [List.map_cons, hvalue, hvalues, List.map_cons]
      · rw [List.map_cons, htext, htexts, List.map_cons, identifierText]

/-- Each event of a calendar has an identifier, and no two have the same. -/
def IdentifiesEvents (t : String) : Prop :=
  ∃ (events : List (List (List Char))) (identifiers : List (List Char)),
    events? (splitLines (unfold t.toList)) = some events ∧
    events.map (fun own => own.filterMap (value? "UID")) = identifiers.map ([·]) ∧
    (identifiers.map unescape?).Nodup

theorem identifiesEvents_of_nodup (hoccasion : occasion.Plain)
    (ht : text options occasion homework = .ok t)
    (hnodup : (homework.map Homework.identifier).Nodup) : IdentifiesEvents t := by
  obtain ⟨ls, hls, hlines⟩ := splitLines_unfold_text hoccasion ht
  obtain ⟨events, hevents, hrecovers⟩ := events?_lines hoccasion hls
  obtain ⟨identifiers, hvalues, htexts⟩ := exists_identifiers hrecovers
  refine ⟨events, identifiers, ?_, hvalues, ?_⟩
  · rw [hlines, hevents]
  · rw [htexts, List.nodup_map_iff_inj_on hnodup.of_map]
    intro g hg h hh hgh
    exact List.inj_on_of_nodup_map hnodup hg hh (identifierText_injective hgh)

/-- The entries for some homework are the first of each identifier, and of each identifier there is
one, in strict order of date and identifier; they are their own entries. So a calendar of them has
no two events with one identifier. -/
theorem entries_exact (all : List Homework) :
    (∀ h, h ∈ Homework.unique all ↔
      all.find? (fun g => g.identifier = h.identifier) = some h) ∧
    (∀ h ∈ all, ((Homework.unique all).map Homework.identifier).count h.identifier = 1) ∧
    (Homework.unique all).Pairwise Homework.Before ∧
    Homework.unique (Homework.unique all) = Homework.unique all ∧
    ∀ options occasion t, occasion.Plain → text options occasion (Homework.unique all) = .ok t →
      IdentifiesEvents t := by
  have hnodup := Homework.nodup_identifiers_unique all
  refine ⟨fun h => Homework.mem_unique_iff_find?, fun h hh => ?_,
    Homework.pairwise_before_unique all, Homework.unique_unique all, ?_⟩
  · obtain ⟨e, he, hid⟩ := Homework.exists_mem_unique hh
    exact List.count_eq_one_of_mem hnodup (hid ▸ List.mem_map_of_mem he)
  · intro options occasion t hoccasion ht
    exact identifiesEvents_of_nodup hoccasion ht hnodup

/-- The Sunday evening before the Monday. -/
def sunday : Instant :=
  ⟨1725220800, 0, by decide, by decide, Instant.zero_nano_lt, by decide⟩

/-- Homework whose first identifier is given once more, to something else that comes earlier. -/
def repeated : List Homework :=
  [⟨"H3", "", "netl", "7", monday, none⟩, ⟨"", "H1", "netl", "8", sunday, none⟩,
    ⟨"H2", "", "entl", "7", sunday, none⟩, ⟨"", "", "entl", "10", monday, none⟩]

/-- The entries for it. -/
def repeatedEntries : List Homework :=
  [⟨"", "H1", "netl", "8", sunday, none⟩, ⟨"", "", "entl", "10", monday, none⟩,
    ⟨"H3", "", "netl", "7", monday, none⟩]

theorem unique_repeated : Homework.unique repeated = repeatedEntries := by
  apply Homework.eq_of_perm_of_pairwise (Homework.nodup_identifiers_unique repeated)
    (Homework.pairwise_unique repeated) (by decide +kernel)
  exact (List.mergeSort_perm _ _).trans (by decide +kernel)

/-- An identifier that two pieces of homework have stands in their calendar once, with the homework
that came first. -/
theorem repeated_entries_exact : desk.Plain ∧
    ((Homework.unique repeated).map Homework.identifier).count "7" = 1 ∧
    ∃ t, text { zone := Zone.utc } desk (Homework.unique repeated) = .ok t ∧
      IdentifiesEvents t := by
  obtain ⟨-, hcount, -, -, hcalendar⟩ := entries_exact repeated
  refine ⟨plain_desk, hcount ⟨"H2", "", "entl", "7", sunday, none⟩ (by decide +kernel), ?_⟩
  have hok : (text { zone := Zone.utc } desk (Homework.unique repeated)).isOk = true := by
    rw [unique_repeated]
    decide +kernel
  obtain ⟨t, ht⟩ := Result.exists_eq_ok_of_isOk hok
  exact ⟨t, ht, hcalendar _ _ _ plain_desk ht⟩

end Agenda.Calendar
