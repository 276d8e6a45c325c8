/-
Identifiers and the numbers that are written in a document.

Homework takes its identifier from the number of a link, and the number was written as a numeral.
Integers of 64 bits keep their digits. Other numerals are read as doubles, and several of them may
be read as one: then items whose links are written differently have one identifier, and only one of
them is left in a calendar. Nothing else brings two numerals together, since different numbers are
shown as different texts.
-/
import Agenda.Proofs.CommandLine.Reshuffling
import Agenda.Proofs.Document.Meaning
import Agenda.Proofs.Json.Spelled

set_option autoImplicit false

namespace Agenda

open Json (Spelled IsSpelled)
open Json.Reader (numeral?)

namespace Document

/-- The place at which the number of the first link of an item is written. -/
def linkPlace (i : Nat) : Path :=
  [.key "items", .index i, .key "studiewijzerItem", .key "links", .index 0, .key "id"]

/-- The number of the first link stands at its place. -/
theorem at?_linkPlace {v : Json} {document : Document} (h : fit.Means v document) {i : Nat}
    {a : Assignment} {link : Link} (ha : document.items[i]? = some a)
    (hlink : a.planItem.links.head? = some link) :
    v.at? (linkPlace i) = some (.number link.id) := by
  obtain ⟨ms, rfl, ⟨_, hitems, vs, rfl, hvs⟩, -⟩ := h
  obtain ⟨item, hitem, hmeans⟩ := exists_left_of_optionRel (ha ▸ rel_getElem? hvs i)
  obtain ⟨_, rfl, -, -, -, -, ⟨_, hplan, _, rfl, ⟨_, hlinks, ls, rfl, hls⟩, -⟩, -⟩ := hmeans
  rw [List.head?_eq_getElem?] at hlink
  obtain ⟨l, hl, hmeans⟩ := exists_left_of_optionRel (hlink ▸ rel_getElem? hls 0)
  obtain ⟨_, rfl, ⟨_, hid, rfl⟩, -⟩ := hmeans
  -- each member is found under the wire name of its property
  calc (Value.object ms).at? (linkPlace i) = _ := Value.at?_key hitems _
    _ = _ := Value.at?_index hitem _
    _ = _ := Value.at?_key hplan _
    _ = _ := Value.at?_key hlinks _
    _ = _ := Value.at?_index hl _
    _ = _ := Value.at?_key hid _
    _ = some (.number link.id) := rfl

/-- What is left of reading a document when the reasons for failures are forgotten. -/
theorem toOption_read (text : String) :
    (read text).toOption = (Json.read text).toOption.bind fun v =>
      (Engine.cast registry root v.lift).toOption.bind fun d => (form.read d).toOption := by
  simp only [read, readData, ofData, Result.toOption_bind, Result.toOption_mapError,
    Option.bind_assoc]

end Document

namespace Homework

/-- Homework is identified by the text of its link's number. -/
theorem exists_link_of_ofAssignment? {a : Assignment} {h : Homework}
    (ha : ofAssignment? a = some h) :
    ∃ link, a.planItem.links.head? = some link ∧ h.identifier = String.ofList link.id.text := by
  obtain ⟨link, hlink, ha⟩ := Option.bind_eq_some_iff.1 ha
  obtain ⟨date, -, ha⟩ := Option.bind_eq_some_iff.1 ha
  obtain rfl := Option.some.inj ha
  exact ⟨link, hlink, rfl⟩

end Homework

namespace CommandLine

/-- The number that identifies homework was written where the first link of its item stands. -/
theorem exists_numeral {v : Json} {document : Document} (hv : Document.fit.Means v document)
    {t : Spelled} (ht : Json.ReadAs t v) {i : Nat} {a : Assignment} {h : Homework}
    (ha : document.items[i]? = some a) (hh : Homework.ofAssignment? a = some h) :
    ∃ s n, t.at? (Document.linkPlace i) = some (.atom s) ∧ numeral? s = some n ∧
      h.identifier = String.ofList n.text := by
  obtain ⟨link, hlink, hid⟩ := Homework.exists_link_of_ofAssignment? hh
  have hplace := ht.at? (Document.linkPlace i)
  rw [Document.at?_linkPlace hv ha hlink] at hplace
  obtain ⟨u, hu, hread⟩ := exists_left_of_optionRel hplace
  cases hread with
  | number hs => exact ⟨_, _, hu, hs, hid⟩

/-- Two items with homework have one identifier exactly if the numbers of their first links are read
as one number. Where these are written as different numbers, both numerals were read as one and the
same double. An integer of 64 bits is an identifier as it is written. A calendar has one entry for
each identifier, so it keeps both items apart exactly if their identifiers differ. -/
theorem identifiers_as_read {text : String} {document : Document}
    (h : Document.read text = .ok document) {i j : Nat} {a b : Assignment} {g k : Homework}
    (ha : document.items[i]? = some a) (hb : document.items[j]? = some b)
    (hg : Homework.ofAssignment? a = some g) (hk : Homework.ofAssignment? b = some k) :
    ∃ t s u, (∀ v, IsSpelled text v ↔ v = t) ∧
      t.at? (Document.linkPlace i) = some (.atom s) ∧
      t.at? (Document.linkPlace j) = some (.atom u) ∧
      (g.identifier = k.identifier ↔ numeral? s = numeral? u) ∧
      (Numeral.exact s ≠ Numeral.exact u → (g.identifier = k.identifier ↔
        ∃ x, numeral? s = some (.float x) ∧ numeral? u = some (.float x))) ∧
      (∀ n : Int, Number.least ≤ n ∧ n ≤ Number.greatest → s = Numeral.ofInt n →
        g.identifier = String.ofList s) ∧
      ∀ documents : List Document, document ∈ documents →
        ∃ e ∈ homeworkOf documents, ∃ f ∈ homeworkOf documents,
          e.identifier = g.identifier ∧ f.identifier = k.identifier ∧
            (e = f ↔ g.identifier = k.identifier) := by
  obtain ⟨v, hjson, hmeans⟩ := Document.exists_means_of_read h
  obtain ⟨t, ht, hread⟩ := Json.exists_isSpelled hjson
  obtain ⟨s, m, hs, hm, hgid⟩ := exists_numeral hmeans hread ha hg
  obtain ⟨u, n, hu, hn, hkid⟩ := exists_numeral hmeans hread hb hk
  have hsame : g.identifier = k.identifier ↔ numeral? s = numeral? u := by
    rw [hgid, hkid, hm, hn, String.ofList_inj, Option.some.injEq]
    exact ⟨Number.text_injective, congrArg Number.text⟩
  refine ⟨t, s, u, ht, hs, hu, hsame, fun hexact => ?_, fun n hn hsn => ?_, fun documents hd => ?_⟩
  · rw [hsame]
    constructor
    · intro hsu
      cases m with
      | integer z hz =>
          -- an integer is what its numeral says, so it would be written as the same number
          rw [Json.Reader.exact_of_numeral?_eq_integer hm,
            Json.Reader.exact_of_numeral?_eq_integer (hsu ▸ hm)] at hexact
          exact absurd rfl hexact
      | float x => exact ⟨x, hm, hsu ▸ hm⟩
    · rintro ⟨x, hx, hx'⟩
      rw [hx, hx']
  · rw [hsn, Json.Reader.numeral?_integer n hn] at hm
    rw [hgid, hsn, ← Option.some.inj hm]
    rfl
  · have hmem : ∀ {i : Nat} {a : Assignment} {h : Homework}, document.items[i]? = some a →
        Homework.ofAssignment? a = some h → h ∈ documents.flatMap Homework.ofDocument :=
      fun ha hh => List.mem_flatMap.2
        ⟨document, hd, List.mem_filterMap.2 ⟨_, List.mem_of_getElem? ha, hh⟩⟩
    obtain ⟨e, he, heg⟩ := Homework.exists_mem_unique (hmem ha hg)
    obtain ⟨f, hf, hfk⟩ := Homework.exists_mem_unique (hmem hb hk)
    refine ⟨e, he, f, hf, heg, hfk, ?_⟩
    rw [← heg, ← hfk]
    exact ⟨congrArg Homework.identifier, Homework.eq_of_mem_unique he hf⟩

/-- The two numbers of a week are kept apart, for they are small, and small integers are read as
they are written. -/
theorem week_identifiers_as_read : ∃ t s u,
    (∀ v, IsSpelled week.wire.pretty v ↔ v = t) ∧
      t.at? (Document.linkPlace 0) = some (.atom s) ∧
      t.at? (Document.linkPlace 1) = some (.atom u) ∧ numeral? s ≠ numeral? u ∧
      ∃ e ∈ homeworkOf [week], ∃ f ∈ homeworkOf [week],
        e.identifier = "1" ∧ f.identifier = "2" ∧ e ≠ f := by
  obtain ⟨t, s, u, ht, hs, hu, hsame, -, -, hentries⟩ :=
    identifiers_as_read read_week (i := 0) (j := 1) rfl rfl rfl rfl
  have hne : String.ofList (Number.integer 1 (by decide)).text ≠
      String.ofList (Number.integer 2 (by decide)).text := by decide
  obtain ⟨e, he, f, hf, heg, hfk, hef⟩ := hentries [week] List.mem_cons_self
  refine ⟨t, s, u, ht, hs, hu, fun hsu => hne (hsame.2 hsu), e, he, f, hf, heg, hfk, ?_⟩
  exact fun heq => hne (hef.1 heq)

/-! ## Two numbers of more than 64 bits -/

/-- A resource with its own members. -/
def resourceTree (links : List Spelled) (members : List (String × Spelled)) : Spelled :=
  .object ([("links", .array links), ("permissions", .array []),
    ("additionalObjects", .object [])] ++ members)

/-- A plan item on a topic, with one link, whose number is written with this numeral. -/
def planItemTree (numeral : List Char) (topic : String) : Spelled :=
  resourceTree
    [.object [("id", .atom numeral), ("rel", .string "self"),
      ("type", .string "studiewijzer.RSWIAfspraakToekenning"), ("href", .string "")]]
    [("onderwerp", .string topic), ("huiswerkType", .string "HUISWERK"),
      ("omschrijving", .string ""), ("inleverperiodes", .bool false), ("lesmateriaal", .bool false),
      ("projectgroepen", .bool false), ("bijlagen", .array []), ("externeMaterialen", .array []),
      ("inlevermomenten", .array []), ("tonen", .bool true),
      ("notitieZichtbaarVoorLeerling", .bool false), ("leerdoelen", .string "")]

/-- A lesson group. -/
def lessonGroupTree : Spelled :=
  resourceTree []
    [("UUID", .string ""), ("naam", .string ""), ("omschrijving", .string ""),
      ("schooljaar", resourceTree [] [("$type", .string "onderwijsinrichting.RSchooljaar"),
        ("naam", .string "2024/2025"), ("vanafDatum", .null), ("totDatum", .null),
        ("isHuidig", .bool true)]),
      ("vak", resourceTree [] [("afkorting", .string ""), ("naam", .string ""),
        ("UUID", .string "")]),
      ("heeftStamgroep", .bool false), ("examendossierOndersteund", .bool false),
      ("vestiging", resourceTree [] [("naam", .string "Revius Lyceum Doorn"),
        ("uuid", .string "")])]

/-- A document with an item for each numeral and topic. -/
def documentTree (items : List (List Char × String)) : Spelled :=
  .object [("items", .array (items.map fun item => resourceTree []
    [("$type", .string "studiewijzer.RSWIAfspraakToekenning"),
      ("studiewijzerItem", planItemTree item.1 item.2), ("sortering", .atom ['0']),
      ("lesgroep", lessonGroupTree), ("datumTijd", .string "2024-09-02T08:30:00Z")]))]

/-- The least number of more than 64 bits. -/
def wide : List Char := "18446744073709551616".toList

/-- The number after it. -/
def wider : List Char := "18446744073709551617".toList

/-- A document in which each of the two identifies something of its own. -/
def wideTree : Spelled := documentTree [(wide, "H3"), (wider, "H4")]

/-- Its text. -/
def wideText : String := String.ofList (Json.spelling wideTree)

/-- What is due on a Monday under the double next to both numbers. -/
def dueMonday (topic : String) : Homework :=
  { subject := topic
    description := ""
    subjectCode := ""
    identifier := "1.8446744073709552e+19"
    date := Calendar.monday
    created := none }

theorem read_wideText : (Document.read wideText).toOption.map Homework.ofDocument =
    some [dueMonday "H3", dueMonday "H4"] := by
  rw [Document.toOption_read, wideText, Json.toOption_read]
  decide +kernel

theorem exact_wide_ne_wider : Numeral.exact wide ≠ Numeral.exact wider := by
  have hwide : ∀ c ∈ wide, Numeral.isDigit c = true := List.all_eq_true.1 (by decide +kernel)
  have hwider : ∀ c ∈ wider, Numeral.isDigit c = true := List.all_eq_true.1 (by decide +kernel)
  have hne : Numeral.value wide ≠ Numeral.value wider := by decide +kernel
  show Numeral.magnitude wide ≠ Numeral.magnitude wider
  rw [Numeral.magnitude_digits hwide, Numeral.magnitude_digits hwider]
  exact Nat.cast_injective.ne hne

/-- Two different numbers are read as one, and one of the two items is lost. Beyond 64 bits a
numeral is read as a double, and near this number there is only one for both. -/
theorem wide_identifiers_shared :
    IsSpelled wideText wideTree ∧
      wideTree.at? (Document.linkPlace 0) = some (.atom wide) ∧
      wideTree.at? (Document.linkPlace 1) = some (.atom wider) ∧
      Numeral.exact wide ≠ Numeral.exact wider ∧
      ∃ document, Document.read wideText = .ok document ∧
        Homework.ofDocument document = [dueMonday "H3", dueMonday "H4"] ∧
        homeworkOf [document] = [dueMonday "H3"] := by
  refine ⟨Json.isSpelled_spelling (by decide +kernel), rfl, rfl, exact_wide_ne_wider, ?_⟩
  obtain ⟨document, hread, hhomework⟩ := Option.map_eq_some_iff.1 read_wideText
  refine ⟨document, Result.toOption_eq_some_iff.1 hread, hhomework, ?_⟩
  have hfirst : Homework.firstsAfter [] [dueMonday "H3", dueMonday "H4"] = [dueMonday "H3"] := by
    decide +kernel
  rw [homeworkOf, List.flatMap_cons, List.flatMap_nil, List.append_nil, hhomework, Homework.unique,
    hfirst, List.mergeSort_singleton]

end CommandLine

end Agenda
