/-
Where a rejection points.

The engine carries along where it stands: the key that it read last, and the name of the schema that
owns the key. It comes to a new place when it goes into an object, and only then; elements of arrays
and candidates of unions are checked at the place of the whole. What a candidate rejects is passed
over, so a rejection that is reported was made on a way that enters no union: through references,
elements and members. Such a way is followed here down to the last object on it. The key belongs to
that object or to its schema, and what was rejected stands under the key, or is missing there.
-/
import Agenda.Proofs.Conversion.Shape
import Agenda.Proofs.Schema.Parts

set_option autoImplicit false

namespace Agenda

/-- What is reached from a value by going into arrays only, beginning with the value itself. -/
inductive Data.Element : Data → Data → Prop where
  | itself (v : Data) : Element v v
  | inside {items : List Data} {v w : Data} (hv : v ∈ items) (h : Element v w) :
      Element (.array items) w

namespace Engine

/-! ## Objects that are checked -/

/-- An object with what its schema says, and with the name under which the schema is registered, if
it was reached by a name. -/
structure Visit where
  owner : Option String
  members : Table Data
  properties : List (Property Schema)
  additional : Option Schema

namespace Visit

/-- The schema of the object. -/
def schema (visit : Visit) : Schema := .object visit.properties visit.additional

/-- The object is rejected in this way under its schema, wherever it stands. -/
def Fails (r : Registry) (d : Direction) (visit : Visit) (e : Rejection) : Prop :=
  ∀ site, convertUnder r d visit.owner (some (.object visit.members)) site visit.schema =
    .error (.rejected e)

/-- A rejection is about a key of the object: the key is declared, or a surplus one, and what stands
there is the value under it, an element of that value, or nothing if the object lacks the key. -/
structure Blames (d : Direction) (visit : Visit) (key : String) (e : Rejection) : Prop where
  site : e.site = ⟨some key, visit.owner⟩
  named : key ∈ visit.properties.map d.sourceName ∨
    key ∈ Table.keys visit.members ∧ key ∉ visit.properties.map d.sourceName
  value : e.value = none ∧ key ∉ Table.keys visit.members ∨
    ∃ v w, (key, v) ∈ visit.members ∧ Data.Element v w ∧ e.value = some w

end Visit

/-- Checking a value under a schema that was reached by the name `owner` comes to check this object,
without entering a union. -/
inductive Visits (r : Registry) (d : Direction) : Option String → Data → Schema → Visit → Prop where
  | here {owner : Option String} {members : Table Data} {properties : List (Property Schema)}
      {additional : Option Schema} :
      Visits r d owner (.object members) (.object properties additional)
        ⟨owner, members, properties, additional⟩
  | reference {owner : Option String} {name : String} {s : Schema} {v : Data} {visit : Visit}
      (hname : r.find? name = some s) (h : Visits r d (some name) v s visit) :
      Visits r d owner v (.reference name) visit
  | element {owner : Option String} {element : Schema} {items : List Data} {v : Data}
      {visit : Visit} (hv : v ∈ items) (h : Visits r d none v element visit) :
      Visits r d owner (.array items) (.array element) visit
  | property {owner : Option String} {properties : List (Property Schema)}
      {additional : Option Schema} {p : Property Schema} {members : Table Data} {v : Data}
      {visit : Visit} (hp : p ∈ properties) (hv : (d.sourceName p, v) ∈ members)
      (h : Visits r d none v p.schema visit) :
      Visits r d owner (.object members) (.object properties additional) visit
  | surplus {owner : Option String} {properties : List (Property Schema)} {extra : Schema}
      {members : Table Data} {m : String × Data} {visit : Visit}
      (hm : m ∈ surplus d properties members) (h : Visits r d none m.2 extra visit) :
      Visits r d owner (.object members) (.object properties (some extra)) visit

variable {r : Registry} {d : Direction} {owner : Option String} {x : Option Data} {site : Site}
  {s : Schema} {e : Rejection} {v : Data} {visit : Visit}

/-! ## Schemas under names and schemas inside others -/

/-- A schema is registered under the name by which it was reached, or it was reached without one and
is written inside another schema. -/
def Stands (r : Registry) : Option String → Schema → Prop
  | some name, s => r.find? name = some s
  | none, s => ∃ t, r.Part t ∧ s ∈ t.children

theorem Stands.part (h : Stands r owner s) : r.Part s := by
  cases owner with
  | some name => exact .registered h
  | none =>
      obtain ⟨t, ht, hs⟩ := h
      exact ht.child hs

/-- The way to an object goes on in the registry. -/
theorem Visits.stands (h : Visits r d owner v s visit) (hs : Stands r owner s) :
    Stands r visit.owner visit.schema := by
  induction h with
  | here => exact hs
  | reference hname _ ih => exact ih hname
  | element _ _ ih => exact ih ⟨_, hs.part, List.mem_singleton.2 rfl⟩
  | property hp _ _ ih =>
      exact ih ⟨_, hs.part, List.mem_append_left _ (List.mem_map.2 ⟨_, hp, rfl⟩)⟩
  | surplus _ _ ih =>
      exact ih ⟨_, hs.part, List.mem_append_right _ (Option.mem_toList.2 rfl)⟩

/-! ## Following a rejection -/

/-- Where a rejection points that a conversion ends in: to the value or an element of it, at the
place where it was checked, or to a key of an object inside. -/
inductive Located (r : Registry) (d : Direction) (owner : Option String) (x : Option Data)
    (site : Site) (s : Schema) (e : Rejection) : Prop where
  | outside (hsite : e.site = site) (hvalue : x = none ∧ e.value = none ∨
      ∃ v w, x = some v ∧ Data.Element v w ∧ e.value = some w)
  | inside {v : Data} {visit : Visit} {key : String} (hx : x = some v)
      (hvisit : Visits r d owner v s visit) (hfails : visit.Fails r d e)
      (hblames : visit.Blames d key e)

/-- A failure that is a rejection is located. -/
def LocatedIn (r : Registry) (d : Direction) (owner : Option String) (x : Option Data)
    (site : Site) (s : Schema) (failure : ConversionError) : Prop :=
  ∀ e, failure = .rejected e → Located r d owner x site s e

/-- A value that is refused as a whole is refused at its own place. -/
theorem refuses_locatedIn : Refuses (LocatedIn r d owner x site s) x site := by
  rintro expected e ⟨⟩
  refine .outside rfl ?_
  cases x with
  | none => exact .inl ⟨rfl, rfl⟩
  | some v => exact .inr ⟨v, v, rfl, .itself v, rfl⟩

theorem key_of_mem_surplus {properties : List (Property Schema)} {members : Table Data}
    {m : String × Data} (hm : m ∈ surplus d properties members) :
    m.1 ∈ Table.keys members ∧ m.1 ∉ properties.map d.sourceName := by
  obtain ⟨hmem, hkey⟩ := List.mem_filter.1 hm
  exact ⟨Table.mem_keys_of_mem hmem, of_decide_eq_true hkey⟩

/-- What is located for an element is located for the array. -/
theorem Located.of_element {element : Schema} {items : List Data} (hv : v ∈ items)
    (h : Located r d none (some v) site element e) :
    Located r d owner (some (.array items)) site (.array element) e := by
  rcases h with ⟨hsite, hvalue⟩ | ⟨hx, hvisit, hfails, hblames⟩
  · rcases hvalue with ⟨hx, _⟩ | ⟨_, w, hx, hw, hvalue⟩
    · cases hx
    · obtain rfl := Option.some.inj hx
      exact .outside hsite (.inr ⟨_, w, rfl, .inside hv hw, hvalue⟩)
  · obtain rfl := Option.some.inj hx
    exact .inside rfl (.element hv hvisit) hfails hblames

theorem Located.of_registered {name : String} (hname : r.find? name = some s)
    (h : Located r d (some name) x site s e) :
    Located r d owner x site (.reference name) e := by
  rcases h with ⟨hsite, hvalue⟩ | ⟨hx, hvisit, hfails, hblames⟩
  · exact .outside hsite hvalue
  · exact .inside hx (.reference hname hvisit) hfails hblames

section

variable {properties : List (Property Schema)} {additional : Option Schema} {members : Table Data}
  (hfails : Visit.Fails r d ⟨owner, members, properties, additional⟩ e)

include hfails

/-- What is located at a declared key or behind it is located for the object. -/
theorem Located.of_property {p : Property Schema} (hp : p ∈ properties)
    (h : Located r d none (Table.find? members (d.sourceName p)) ⟨some (d.sourceName p), owner⟩
      p.schema e) :
    Located r d owner (some (.object members)) site (.object properties additional) e := by
  rcases h with ⟨hsite, hvalue⟩ | ⟨hx, hvisit, hinner, hblames⟩
  · refine .inside rfl .here hfails ⟨hsite, .inl (List.mem_map.2 ⟨p, hp, rfl⟩), ?_⟩
    rcases hvalue with ⟨hx, hvalue⟩ | ⟨v, w, hx, hw, hvalue⟩
    · exact .inl ⟨hvalue, Table.find?_eq_none_iff.1 hx⟩
    · exact .inr ⟨v, w, Table.mem_of_find? hx, hw, hvalue⟩
  · exact .inside rfl (.property hp (Table.mem_of_find? hx) hvisit) hinner hblames

/-- What is located at a surplus key or behind it is located for the object. -/
theorem Located.of_surplus {extra : Schema} (hextra : extra ∈ additional) {m : String × Data}
    (hm : m ∈ surplus d properties members)
    (h : Located r d none (some m.2) ⟨some m.1, owner⟩ extra e) :
    Located r d owner (some (.object members)) site (.object properties additional) e := by
  obtain rfl := Option.mem_def.1 hextra
  rcases h with ⟨hsite, hvalue⟩ | ⟨hx, hvisit, hinner, hblames⟩
  · refine .inside rfl .here hfails ⟨hsite, .inr (key_of_mem_surplus hm), ?_⟩
    rcases hvalue with ⟨hx, _⟩ | ⟨_, w, hx, hw, hvalue⟩
    · cases hx
    · obtain rfl := Option.some.inj hx
      exact .inr ⟨m.2, w, List.mem_of_mem_filter hm, hw, hvalue⟩
  · obtain rfl := Option.some.inj hx
    exact .inside rfl (.surplus hm hvisit) hinner hblames

/-- A surplus member that is not allowed is located. -/
theorem located_noProperty {m : String × Data} (hm : m ∈ surplus d properties members)
    (he : e = noProperty owner m) :
    Located r d owner (some (.object members)) site (.object properties additional) e := by
  subst he
  refine .inside rfl .here hfails ⟨rfl, .inr (key_of_mem_surplus hm), .inr ?_⟩
  exact ⟨m.2, m.2, List.mem_of_mem_filter hm, .itself _, rfl⟩

end

theorem located (hr : r.Acyclic) (x : Option Data) (s : Schema) (owner : Option String)
    (site : Site) : FailsOnly (LocatedIn r d owner x site s) (convertUnder r d owner x site s) := by
  induction x using Data.parts_induction generalizing s owner site with
  | step x ihx =>
      induction s using Registry.Acyclic.induction hr generalizing owner with
      | kind k => exact failsOnly_kind refuses_locatedIn k
      | literals words distinct => exact failsOnly_literals refuses_locatedIn words distinct
      | array element =>
          refine failsOnly_array refuses_locatedIn fun items hitems v hv => ?_
          subst hitems
          rw [convert_eq_convertUnder]
          refine (ihx _ (Data.mem_parts_of_mem_items hv) element none site).imp ?_
          intro failure h e he
          exact (h e he).of_element hv
      | union candidates ih =>
          -- the rejection of a union is its own, never that of a candidate
          refine failsOnly_union refuses_locatedIn fun c hc => ?_
          intro failure _ hother e he
          exact absurd he (hother e)
      | object properties additional =>
          -- the failure of the whole is that of the object on the way, so it is kept at hand
          have hobject : FailsOnly (fun failure =>
              convertUnder r d owner x site (.object properties additional) = .error failure →
                LocatedIn r d owner x site (.object properties additional) failure)
              (convertUnder r d owner x site (.object properties additional)) := by
            apply failsOnly_object
            · intro expected _
              exact refuses_locatedIn expected
            · rintro members rfl p hp
              rw [convertProperty, convert_eq_convertUnder]
              refine (ihx _ (Data.find?_mem_parts members _) p.schema none _).imp ?_
              rintro failure h hfailure e rfl
              exact (h e rfl).of_property (fun _ => hfailure) hp
            · rintro members rfl hnone m hm hfailure e ⟨⟩
              exact located_noProperty (fun _ => hfailure) hm rfl
            · rintro members rfl extra hextra m hm
              rw [convert_eq_convertUnder]
              refine (ihx _ (Data.mem_parts_of_mem_members (List.mem_of_mem_filter hm)) extra none
                _).imp ?_
              rintro failure h hfailure e rfl
              exact (h e rfl).of_surplus (fun _ => hfailure) hextra hm
          intro failure hfailure
          exact hobject failure hfailure hfailure
      | reference name ih =>
          cases hname : r.find? name with
          | none =>
              rw [convertUnder_reference_of_none hname]
              refine .error ?_
              rintro e ⟨⟩
          | some s =>
              rw [convertUnder_reference hr hname]
              refine (ih s hname (some name)).imp ?_
              intro failure h e he
              exact (h e he).of_registered hname

/-! ## Runs -/

/-- A run ends in the failure of the conversion that it is. -/
theorem convertUnder_of_run_eq_error {name : String} {failure : ConversionError}
    (h : run r d name v = .error failure) :
    convertUnder r d none (some v) .root (.reference name) = .error failure := by
  rw [run, convert_eq_convertUnder] at h
  cases hconvert : convertUnder r d none (some v) .root (.reference name) with
  | error other =>
      rw [hconvert, Result.error_bind] at h
      rw [Except.error.inj h]
  | ok out =>
      rw [hconvert] at h
      cases h

/-- A rejection in which a run ends points at a real place. Without a key it has no parent either,
and shows the value or an element reached through arrays only. With a key there is an object inside
the value that was checked, and rejected in this very way, under a schema that is registered under
the parent or written inside another schema if there is none; the key is declared by the schema on
the side of the value, or is one of the object that the schema does not declare; and what is shown
is nothing where the object lacks the key, or else what stands under it or an element of that. -/
theorem run_rejection_located (hr : r.Acyclic) {name : String}
    (h : run r d name v = .error (.rejected e)) :
    (e.site.key = none → e.site.parent = none ∧
      ∃ w, Data.Element v w ∧ e.actual = Data.render (some w)) ∧
    ∀ key, e.site.key = some key → ∃ visit : Visit,
      Visits r d none v (.reference name) visit ∧ visit.Fails r d e ∧
      visit.owner = e.site.parent ∧ Stands r e.site.parent visit.schema ∧
      (key ∈ visit.properties.map d.sourceName ∨
        key ∈ Table.keys visit.members ∧ key ∉ visit.properties.map d.sourceName) ∧
      (e.actual = "nothing" ∧ key ∉ Table.keys visit.members ∨
        ∃ u w, (key, u) ∈ visit.members ∧ Data.Element u w ∧ e.actual = Data.render (some w)) := by
  have hfailure := convertUnder_of_run_eq_error h
  rcases located hr _ _ _ _ _ hfailure e rfl with ⟨hsite, hvalue⟩ | ⟨hx, hvisit, hfails, hblames⟩
  · -- the place of a run is outside any object
    rw [hsite]
    constructor
    · intro _
      rcases hvalue with ⟨hx, _⟩ | ⟨_, w, hx, hw, hvalue⟩
      · cases hx
      · obtain rfl := Option.some.inj hx
        exact ⟨rfl, w, hw, by rw [Rejection.actual, hvalue]⟩
    · rintro key ⟨⟩
  · obtain rfl := Option.some.inj hx
    rw [hblames.site]
    constructor
    · rintro ⟨⟩
    · rintro key ⟨⟩
      refine ⟨_, hvisit, hfails, rfl, ?_, hblames.named, ?_⟩
      · -- a run begins with a reference, so the way goes through a registered schema
        cases hvisit with
        | reference hname hvisit => exact hvisit.stands hname
      · rcases hblames.value with ⟨hvalue, hkey⟩ | ⟨u, w, hu, hw, hvalue⟩
        · exact .inl ⟨by rw [Rejection.actual, hvalue]; rfl, hkey⟩
        · exact .inr ⟨u, w, hu, hw, by rw [Rejection.actual, hvalue]⟩

/-- Books with notes, which are objects without a name of their own. -/
def books : Registry :=
  Registry.ofList [("Shelf", .array (.reference "Book")), ("Book", .reference "Volume"),
    ("Volume", .object [⟨"titel", "title", .kind .string⟩,
      ⟨"notities", "notes", .array (.object [⟨"blz", "pages", .array (.kind .number)⟩] none)⟩]
      none)]

theorem books_acyclic : books.Acyclic := by
  refine Registry.acyclic_of_rank (fun name => if name = "Book" then 1 else 0) ?_
  decide +kernel

/-- A book with a note on a page that has no number. -/
def shelf : Data :=
  .array [.object [("titel", .string "Atlas"), ("notities", .array
    [.object [("blz", .array [.number (.integer 3 (by decide)), .string "omslag"])]])]]

/-- What is wrong with it. -/
def noNumber : Rejection := ⟨"number", some (.string "omslag"), ⟨some "blz", none⟩⟩

/-- The page is found in the note, and the note has no name. So the blame is put on a key, and on no
parent. -/
theorem shelf_rejection_located :
    run books .toInternal "Shelf" shelf = .error (.rejected noNumber) ∧
    ∃ visit : Visit, Visits books .toInternal none shelf (.reference "Shelf") visit ∧
      visit.Fails books .toInternal noNumber ∧ visit.owner = none ∧
      Stands books none visit.schema ∧ ∃ u w, ("blz", u) ∈ visit.members ∧ Data.Element u w ∧
        noNumber.actual = Data.render (some w) := by
  have hrun : run books .toInternal "Shelf" shelf = .error (.rejected noNumber) := rfl
  obtain ⟨visit, hvisit, hfails, howner, hstands, -, hvalue⟩ :=
    (run_rejection_located books_acyclic hrun).2 "blz" rfl
  refine ⟨hrun, visit, hvisit, hfails, howner, hstands, hvalue.resolve_left ?_⟩
  rintro ⟨hactual, _⟩
  exact absurd hactual (by decide +kernel)

end Engine

end Agenda
