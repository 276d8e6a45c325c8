/-
Where the references in a document lead.

A reference in the document of a registry is a member `$ref` with an address. There is one at the
top, for the root, and one wherever the definition of a reference stands; there are no others, as
every name that a registry brings with it is the key of a definition. The address is the name of a
schema behind `#/$defs/`, put there as it is. So it leads to the definition of that schema exactly
if nothing in the name would have to be escaped.
-/
import Agenda.Proofs.Json.Pointer
import Agenda.Proofs.Schema.Required

set_option autoImplicit false

namespace Agenda

/-! ## References in a document -/

namespace Value

variable {α : Type} {path : Path} {address : String}

/-- At a place of a value there is a member `$ref` with this address. -/
def RefAt (v : Value α) (path : Path) (address : String) : Prop :=
  v.at? (path ++ [.key "$ref"]) = some (.string address)

/-- In an object it is a member of the object itself, or stands in one of them. -/
theorem RefAt.of_object {members : Table (Value α)} (h : (object members).RefAt path address) :
    (path = [] ∧ ("$ref", .string address) ∈ members) ∨
      ∃ m ∈ members, ∃ rest, path = .key m.1 :: rest ∧ m.2.RefAt rest address := by
  cases path with
  | nil =>
      obtain ⟨v, hv, h⟩ := Option.bind_eq_some_iff.1 h
      obtain rfl := Option.some.inj h
      exact .inl ⟨rfl, Table.mem_of_find? hv⟩
  | cons step path =>
      obtain ⟨v, hv, hrest⟩ := Option.bind_eq_some_iff.1 h
      cases step with
      | key key => exact .inr ⟨(key, v), Table.mem_of_find? hv, path, rfl, hrest⟩
      | index i => cases hv

theorem RefAt.of_array {items : List (Value α)} (h : (array items).RefAt path address) :
    ∃ i v rest, path = .index i :: rest ∧ items[i]? = some v ∧ v.RefAt rest address := by
  cases path with
  | nil => cases h
  | cons step path =>
      obtain ⟨v, hv, hrest⟩ := Option.bind_eq_some_iff.1 h
      cases step with
      | key key => cases hv
      | index i => exact ⟨i, v, path, rfl, hv, hrest⟩

theorem not_refAt_string (s : String) : ¬ (string s : Value α).RefAt path address := by
  cases path <;> simp [RefAt, at?, step?]

theorem not_refAt_bool (b : Bool) : ¬ (bool b : Value α).RefAt path address := by
  cases path <;> simp [RefAt, at?, step?]

/-- There is none in an object without a member of that name, if there is none in its members. -/
theorem not_refAt_object {members : Table (Value α)} (hkey : "$ref" ∉ Table.keys members)
    (h : ∀ m ∈ members, ∀ path, ¬ m.2.RefAt path address) :
    ¬ (object members).RefAt path address := by
  intro href
  rcases href.of_object with ⟨-, hmem⟩ | ⟨m, hm, rest, -, href⟩
  · exact hkey (Table.mem_keys_of_mem hmem)
  · exact h m hm rest href

theorem not_refAt_array {items : List (Value α)}
    (h : ∀ v ∈ items, ∀ path, ¬ v.RefAt path address) : ¬ (array items).RefAt path address := by
  intro href
  obtain ⟨i, v, rest, -, hv, href⟩ := href.of_array
  exact h v (List.mem_of_getElem? hv) rest href

theorem not_refAt_strings (words : List String) :
    ¬ (array (words.map string) : Value α).RefAt path address := by
  apply not_refAt_array
  simp [not_refAt_string]

end Value

namespace Schema

variable {path : Path} {address : String}

/-- A definition is no text. -/
theorem keywords_ne_string (s : Schema) (text : String) : s.keywords ≠ .string text := by
  induction s with
  | kind k => cases k <;> simp [keywords, kindKeywords, jsonObject]
  | union candidates ih =>
      by_cases hlength : (arms candidates).length = 1
      · obtain ⟨c, hc⟩ := List.length_eq_one_iff.1 hlength
        rw [keywords_union_of_single hc]
        exact ih c (mem_arms_iff.1 (hc ▸ List.mem_singleton_self c)).1
      · simp [keywords_union_of_several hlength, jsonObject]
  | literals words distinct =>
      rw [keywords]
      unfold literalKeywords
      split <;> simp [jsonObject]
  | array element => simp [keywords, jsonObject]
  | object properties additional => simp [keywords_object, objectKeywords, jsonObject]
  | reference name => simp [keywords, jsonObject]

/-- Where members are texts there are no references. -/
theorem not_refAt_texts (members : List (String × String)) (hkey : "$ref" ∉ members.map Prod.fst) :
    ¬ (jsonObject (members.map fun m => (m.1, .string m.2))).RefAt path address := by
  apply Value.not_refAt_object
  · simpa [Table.keys] using hkey
  · exact List.forall_mem_map.2 fun m _ path => Value.not_refAt_string m.2

theorem not_refAt_kind (k : Kind) : ¬ (kind k).keywords.RefAt path address := by
  have htype : ∀ text path, ¬ (jsonObject [("type", .string text)]).RefAt path address :=
    fun text _ => not_refAt_texts [("type", text)] (by simp)
  have hempty : ∀ path, ¬ (jsonObject []).RefAt path address :=
    fun _ => not_refAt_texts [] (by decide)
  have hformat : ∀ path, ¬ (jsonObject [("type", .string "string"),
      ("format", .string "date-time")]).RefAt path address :=
    fun _ => not_refAt_texts [("type", "string"), ("format", "date-time")] (by decide)
  cases k with
  | string => exact htype _ _
  | number => exact htype _ _
  | boolean => exact htype _ _
  | null => exact htype _ _
  | any => exact hempty _
  | absent => exact hempty _
  | never =>
      apply Value.not_refAt_object
      · simp
      · simpa using hempty
  | timestamp =>
      apply Value.not_refAt_object
      · simp
      · simp only [List.forall_mem_singleton]
        intro path
        apply Value.not_refAt_array
        simp only [List.forall_mem_cons]
        exact ⟨hformat, htype _, by simp⟩

theorem not_refAt_literals (words : List String) (distinct : words.Nodup) :
    ¬ (literals words distinct).keywords.RefAt path address := by
  rw [keywords]
  unfold literalKeywords
  split
  · apply Value.not_refAt_object
    · simp
    · simp [Value.not_refAt_string]
  · apply Value.not_refAt_object
    · simp
    · simp [Value.not_refAt_strings]

/-- In the definition of an object references stand in the properties or in the schema of the keys
that are not declared. -/
theorem refAt_objectKeywords {required : List String} {properties : List (String × Json)}
    {additional : Json} (htext : ∀ m ∈ properties, m.2 ≠ .string address)
    (h : (objectKeywords required properties additional).RefAt path address) :
    (∃ m ∈ properties, ∃ rest, path = .key "properties" :: .key m.1 :: rest ∧
        m.2.RefAt rest address) ∨
      ∃ rest, path = .key "additionalProperties" :: rest ∧ additional.RefAt rest address := by
  have hrequired : ∀ m ∈ (if required.isEmpty then []
      else [("required", .array (required.map .string))] : List (String × Json)),
      m = ("required", .array (required.map .string)) := by
    split <;> simp
  rcases h.of_object with ⟨-, hmem⟩ | ⟨m, hm, rest, rfl, hrest⟩
  · rcases List.mem_append.1 hmem with hmem | hmem
    · simp at hmem
    · have hne : "$ref" ≠ "required" := by decide
      exact absurd (congrArg Prod.fst (hrequired _ hmem)) hne
  · simp only [List.mem_append, List.mem_cons, List.not_mem_nil, or_false] at hm
    rcases hm with (rfl | rfl | rfl) | hm
    · exact absurd hrest (Value.not_refAt_string _)
    · rcases hrest.of_object with ⟨-, hmem⟩ | ⟨q, hq, rest', rfl, hinner⟩
      · exact absurd rfl (htext _ (Table.mem_of_mem_ofList hmem))
      · exact .inl ⟨q, Table.mem_of_mem_ofList hq, rest', rfl, hinner⟩
    · exact .inr ⟨rest, rfl, hrest⟩
    · obtain rfl := hrequired m hm
      exact absurd hrest (Value.not_refAt_strings required)

end Schema

/-! ## References and their addresses -/

namespace Registry

open Value Schema

variable {r : Registry} {root : String} {document : Json} {place path : Path} {address : String}
  {s : Schema}

/-- What stands at a reference in a definition is the definition of a reference. -/
theorem DefinedAt.exists_of_refAt (h : r.DefinedAt place s)
    (href : s.keywords.RefAt path address) :
    ∃ name, r.DefinedAt (place ++ path) (.reference name) ∧ address = Schema.address name := by
  -- the place of the definition grows by the steps that are taken off the path
  induction s generalizing place path with
  | kind k => exact absurd href (not_refAt_kind k)
  | literals words distinct => exact absurd href (not_refAt_literals words distinct)
  | array element ih =>
      rcases href.of_object with ⟨-, hmem⟩ | ⟨m, hm, rest, rfl, hrest⟩
      · simp at hmem
      · simp only [List.mem_cons, List.not_mem_nil, or_false] at hm
        rcases hm with rfl | rfl
        · exact absurd hrest (not_refAt_string _)
        · have hfound := ih h.element hrest
          rwa [List.append_assoc] at hfound
  | union candidates ih =>
      by_cases hlength : (arms candidates).length = 1
      · -- a candidate that is left alone stands at the place of its union
        obtain ⟨c, hc⟩ := List.length_eq_one_iff.1 hlength
        rw [keywords_union_of_single hc] at href
        exact ih c (mem_arms_iff.1 (hc ▸ List.mem_singleton_self c)).1 (h.single hc) href
      · rw [keywords_union_of_several hlength] at href
        rcases href.of_object with ⟨-, hmem⟩ | ⟨m, hm, rest, rfl, hrest⟩
        · simp at hmem
        · obtain rfl := List.mem_singleton.1 hm
          obtain ⟨i, v, rest, rfl, hv, hinner⟩ := hrest.of_array
          rw [List.getElem?_map] at hv
          obtain ⟨c, hc, rfl⟩ := Option.map_eq_some_iff.1 hv
          have hcandidate := (mem_arms_iff.1 (List.mem_of_getElem? hc)).1
          have hfound := ih c hcandidate (h.arm hlength hc) hinner
          rwa [List.append_assoc] at hfound
  | object properties additional ihp iha =>
      rw [keywords_object, propertyKeywords_eq_map] at href
      have htext : ∀ m ∈ properties.map fun p => (p.wireName, p.schema.keywords),
          m.2 ≠ .string address :=
        List.forall_mem_map.2 fun p _ => keywords_ne_string p.schema address
      rcases refAt_objectKeywords htext href with ⟨_, hm, rest, rfl, hrest⟩ | ⟨rest, rfl, hrest⟩
      · obtain ⟨p, hp, rfl⟩ := List.mem_map.1 hm
        have hfound := ihp p hp (h.property hp) hrest
        rwa [List.append_assoc] at hfound
      · cases additional with
        | none => exact absurd hrest (not_refAt_bool false)
        | some extra =>
            have hfound := iha extra rfl h.additional hrest
            rwa [List.append_assoc] at hfound
  | reference name =>
      rcases href.of_object with ⟨rfl, hmem⟩ | ⟨m, hm, rest, rfl, href⟩
      · have haddress : address = Schema.address name := by simpa using hmem
        rw [List.append_nil]
        exact ⟨name, h, haddress⟩
      · obtain rfl := List.mem_singleton.1 hm
        exact absurd href (not_refAt_string _)

/-- The references in a document are that of the root, and those where the definition of a reference
stands. -/
theorem exists_of_refAt (hdocument : r.jsonSchema? root = some document)
    (href : document.RefAt path address) :
    ∃ name, ((path = [] ∧ name = root) ∨ r.DefinedAt path (.reference name)) ∧
      address = Schema.address name := by
  obtain ⟨-, rfl⟩ := jsonSchema?_eq_some_iff.1 hdocument
  rcases href.of_object with ⟨rfl, hmem⟩ | ⟨m, hm, rest, rfl, hrest⟩
  · exact ⟨root, .inl ⟨rfl, rfl⟩, by simpa using hmem⟩
  · simp only [List.mem_cons, List.not_mem_nil, or_false] at hm
    rcases hm with rfl | rfl | rfl
    · exact absurd hrest (not_refAt_string _)
    · exact absurd hrest (not_refAt_string _)
    · rcases hrest.of_object with ⟨-, hmem⟩ | ⟨m, hm, rest, rfl, hinner⟩
      · obtain ⟨p, -, hp⟩ := List.mem_map.1 hmem
        exact absurd (Prod.mk.inj hp).2 (keywords_ne_string p.2 address)
      · obtain ⟨p, hp, rfl⟩ := List.mem_map.1 hm
        have hregistered := DefinedAt.registered (Table.find?_of_mem r.distinct hp)
        obtain ⟨name, hname, haddress⟩ := hregistered.exists_of_refAt hinner
        exact ⟨name, .inr hname, haddress⟩

/-- The address of a definition leads there exactly if its name has nothing that would have to be
escaped. -/
theorem leads_address_iff {bare : Char → Bool} (hbare : ∀ c ∈ "/$defs/".toList, bare c = true)
    {name : String} (hat : (document.at? [.key "$defs", .key name]).isSome = true) :
    Pointer.Leads bare document (Schema.address name) [.key "$defs", .key name] ↔
      ∀ c ∈ name.toList, bare c = true ∧ c ≠ '%' ∧ c ≠ '~' ∧ c ≠ '/' := by
  have hjoin : Pointer.join ["$defs", name] = "/$defs/".toList ++ name.toList := by
    simp [Pointer.join]
  have haddress : (Schema.address name).toList = '#' :: Pointer.join ["$defs", name] := by
    rw [hjoin, Schema.address, String.toList_append]
    rfl
  have hgives : Pointer.Leads bare document (Schema.address name) [.key "$defs", .key name] ↔
      Pointer.Gives bare (Pointer.join ["$defs", name])
        (Pointer.octets (Pointer.spell ["$defs", name])) := by
    constructor
    · rintro ⟨fragment, tokens, hfragment, hgives, hnames, -⟩
      obtain rfl := (List.cons.inj (hfragment.symm.trans haddress)).2
      cases hnames with
      | cons hdefs hnames =>
          cases hnames with
          | cons hname hnames =>
              cases hnames
              obtain rfl := hdefs
              obtain rfl := hname
              exact hgives
    · exact fun h => ⟨_, _, haddress, h, .cons rfl (.cons rfl .nil), hat⟩
  have hdefs : ∀ c ∈ "$defs".toList, c ≠ '~' ∧ c ≠ '/' := by simp
  have hpercent : ∀ c ∈ "/$defs/".toList, c ≠ '%' := by simp
  rw [hgives, Pointer.gives_join_iff, hjoin, List.forall_mem_append]
  simp only [List.forall_mem_cons]
  constructor
  · rintro ⟨⟨-, hchars⟩, -, hplain, -⟩ c hc
    exact ⟨(hchars c hc).1, (hchars c hc).2, hplain c hc⟩
  · intro h
    exact ⟨⟨fun c hc => ⟨hbare c hc, hpercent c hc⟩, fun c hc => ⟨(h c hc).1, (h c hc).2.1⟩⟩,
      hdefs, fun c hc => (h c hc).2.2, by simp⟩

/-- Every reference in a document is that of the root or the definition of a reference. Whatever
characters a reader of addresses lets stand bare, it leads to the definition of the schema that it
names exactly if the name has no percent sign, no tilde and no slash, and no character but those. -/
theorem references_lead_iff {bare : Char → Bool} (hbare : ∀ c ∈ "/$defs/".toList, bare c = true)
    (hdangling : ∀ owner target, Issue.danglingReference owner target ∉ r.issues)
    (hroot : root ∈ r.names) :
    ∃ document, r.jsonSchema? root = some document ∧
      document.RefAt [] (Schema.address root) ∧
      ∀ path address, document.RefAt path address →
        ∃ name s, ((path = [] ∧ name = root) ∨ r.DefinedAt path (.reference name)) ∧
          address = Schema.address name ∧ r.find? name = some s ∧
          document.at? [.key "$defs", .key name] = some s.keywords ∧
          (Pointer.Leads bare document address [.key "$defs", .key name] ↔
            ∀ c ∈ name.toList, bare c = true ∧ c ≠ '%' ∧ c ≠ '~' ∧ c ≠ '/') := by
  obtain ⟨document, hdocument⟩ : ∃ document, r.jsonSchema? root = some document :=
    ⟨_, jsonSchema?_eq_some_iff.2 ⟨hroot, rfl⟩⟩
  refine ⟨document, hdocument, ?_, fun path address href => ?_⟩
  · obtain ⟨-, rfl⟩ := jsonSchema?_eq_some_iff.1 hdocument
    rfl
  · obtain ⟨name, hplace, rfl⟩ := exists_of_refAt hdocument href
    have hregistered : ∃ s, r.find? name = some s := by
      rcases hplace with ⟨-, rfl⟩ | hplace
      · exact mem_names_iff.1 hroot
      · exact hplace.part.resolves hdangling
    obtain ⟨s, hs⟩ := hregistered
    have hat := at?_registered hdocument hs
    exact ⟨name, s, hplace, rfl, hs, hat,
      leads_address_iff hbare (Option.isSome_of_eq_some hat)⟩

/-- The references in the document of lessons all lead where they should, because no name of theirs
has a character that means something in an address. -/
theorem lessons_references_lead : ∃ document, lessons.jsonSchema? "Lesson" = some document ∧
    ∀ path address, document.RefAt path address → ∃ name ∈ lessons.names,
      address = Schema.address name ∧
        Pointer.Leads Pointer.isFragmentChar document address [.key "$defs", .key name] := by
  have hissues : lessons.issues = [] := by decide +kernel
  have hall : lessons.names.all (fun name => name.toList.all Char.isAlphanum) = true := by
    decide +kernel
  have hnames : ∀ name ∈ lessons.names, ∀ c ∈ name.toList,
      Pointer.isFragmentChar c = true ∧ c ≠ '%' ∧ c ≠ '~' ∧ c ≠ '/' := by
    intro name hname c hc
    have halphanum := List.all_eq_true.1 (List.all_eq_true.1 hall name hname) c hc
    refine ⟨by simp [Pointer.isFragmentChar, halphanum], ?_, ?_, ?_⟩
    all_goals
      rintro rfl
      exact absurd halphanum (by decide)
  obtain ⟨document, hdocument, -, hreferences⟩ :=
    @references_lead_iff lessons "Lesson" Pointer.isFragmentChar
      (List.all_eq_true.1 (by decide)) (by simp [hissues]) (by decide +kernel)
  refine ⟨document, hdocument, fun path address href => ?_⟩
  obtain ⟨name, s, -, haddress, hs, -, hleads⟩ := hreferences path address href
  have hname := mem_names_iff.2 ⟨s, hs⟩
  exact ⟨name, hname, haddress, hleads.2 (hnames name hname)⟩

/-- A schema with a slash in its name. -/
def slashed : Registry := ofList [("a/b", .kind .string)]

/-- The address of its definition leads nowhere, whoever reads it. A slash in a name would have to
be written in another way, since one that stands as it is sets off a further step. -/
theorem slashed_leads_nowhere : slashed.issues = [] ∧
    ∃ document, slashed.jsonSchema? "a/b" = some document ∧ document.RefAt [] "#/$defs/a/b" ∧
      ∀ bare path, ¬ Pointer.Leads bare document "#/$defs/a/b" path := by
  refine ⟨by decide +kernel, _, rfl, rfl, ?_⟩
  rintro bare path ⟨fragment, tokens, hfragment, hgives, hnames, hat⟩
  have haddress : "#/$defs/a/b".toList = '#' :: "/$defs/a/b".toList := by decide
  obtain rfl := (List.cons.inj (hfragment.symm.trans haddress)).2
  -- the slash in the name sets off a third token
  have htokens : tokens = ["$defs", "a", "b"] := by
    apply Pointer.spell_inj
    apply Pointer.octets_inj
    rw [hgives.eq_octets (by decide)]
    decide
  rw [htokens] at hnames
  obtain ⟨step, _, hstep, hrest, rfl⟩ := List.forall₂_cons_left_iff.1 hnames
  obtain ⟨step', _, hstep', -, rfl⟩ := List.forall₂_cons_left_iff.1 hrest
  cases step with
  | index i => cases hat
  | key key =>
      obtain rfl : "$defs" = key := hstep
      cases step' with
      | index i => cases hat
      | key key =>
          obtain rfl : "a" = key := hstep'
          cases hat

end Registry

end Agenda
