/-
What is accepted, apart from what is made of it.

Where a value stands, and by which name its schema was reached, is told in messages and nowhere
else, so a conversion that succeeds gives the same result everywhere. That a schema takes a value is
then a statement about these two alone, and over a registry without issues it obeys the rules that
one would write down: a union takes what one of its candidates takes, since no candidate does worse
than to reject, and an object takes what has a fit value for each property and for each other key.
Whether a key may be missing can be read off the schema of its property.
-/
import Agenda.Proofs.Conversion.Shape
import Agenda.Proofs.Lists

set_option autoImplicit false

namespace Agenda.Engine

variable {r : Registry} {d : Direction} {owner : Option String} {x out : Option Data} {site : Site}
  {properties : List (Property Schema)} {additional : Option Schema}

/-! ## The place of a value does not matter -/

/-- A rejection stands wherever the value does. -/
private theorem rejects_congr (hacyclic : r.Acyclic) (hsound : r.Sound) {s : Schema}
    (hs : r.Part s) {site' : Site}
    (hcongr : ∀ out, convertUnder r d none x site' s = .ok out →
      convertUnder r d none x site s = .ok out)
    (h : ∃ rejection, convert r d x site s = .error (.rejected rejection)) :
    ∃ rejection, convert r d x site' s = .error (.rejected rejection) := by
  obtain ⟨rejection, h⟩ := h
  rw [convert_eq_convertUnder] at h ⊢
  rcases settles hacyclic hsound x hs none site' with ⟨out, hout⟩ | hrejected
  · rw [hcongr out hout] at h
    cases h
  · exact hrejected

/-- What a value is converted to depends neither on where it stands nor on the name by which its
schema was reached. -/
theorem convertUnder_eq_ok_congr (hacyclic : r.Acyclic) (hsound : r.Sound) {s : Schema}
    (hs : r.Part s) (h : convertUnder r d owner x site s = .ok out) (owner' : Option String)
    (site' : Site) : convertUnder r d owner' x site' s = .ok out := by
  induction x using Data.parts_induction generalizing s owner site owner' site' out with
  | step x ihx =>
      induction s using Registry.Acyclic.induction hacyclic
        generalizing owner site owner' site' out with
      | kind k =>
          by_cases hk : k = .timestamp
          · subst hk
            exact convertUnder_timestamp_eq_ok_iff.2 (convertUnder_timestamp_eq_ok_iff.1 h)
          · exact (convertUnder_kind_eq_ok_iff hk).2 ((convertUnder_kind_eq_ok_iff hk).1 h)
      | literals words distinct =>
          exact convertUnder_literals_eq_ok_iff.2 (convertUnder_literals_eq_ok_iff.1 h)
      | array element =>
          obtain ⟨items, outs, rfl, rfl, hitems⟩ :=
            (convertUnder_array_eq_ok_iff_forall₂ hacyclic).1 h
          refine (convertUnder_array_eq_ok_iff_forall₂ hacyclic).2 ⟨items, outs, rfl, rfl, ?_⟩
          refine forall₂_imp_of_mem hitems fun v hv w hvw => ?_
          rw [convert_eq_convertUnder] at hvw ⊢
          exact ihx _ (Data.mem_parts_of_mem_items hv) hs.element hvw none site'
      | union candidates ih =>
          obtain ⟨before, c, after, rfl, hbefore, hc⟩ := convertUnder_union_eq_ok_iff.1 h
          refine convertUnder_union_eq_ok_iff.2 ⟨before, c, after, rfl, fun b hb => ?_, ?_⟩
          · have hmem : b ∈ before ++ c :: after := List.mem_append_left _ hb
            exact rejects_congr hacyclic hsound (hs.candidate hmem)
              (fun out hout => ih b hmem (hs.candidate hmem) hout none site) (hbefore b hb)
          · have hmem : c ∈ before ++ c :: after := List.mem_append_right _ List.mem_cons_self
            rw [convert_eq_convertUnder] at hc ⊢
            exact ih c hmem (hs.candidate hmem) hc none site'
      | object properties additional =>
          have hnames := hsound.sourceNames hs d
          obtain ⟨members, vs, ws, rfl, hvs, hws, rfl⟩ := (convertUnder_object_eq_ok_iff hnames).1 h
          refine (convertUnder_object_eq_ok_iff hnames).2 ⟨members, vs, ws, rfl, ?_, ?_, rfl⟩
          · refine forall₂_imp_of_mem hvs fun p hp v hv => ?_
            rw [convertProperty, convert_eq_convertUnder] at hv ⊢
            exact ihx _ (Data.find?_mem_parts members _) (hs.property hp) hv none _
          · refine forall₂_imp_of_mem hws fun m hm w hw => ?_
            obtain ⟨extra, rfl, hw⟩ := hw
            refine ⟨extra, rfl, ?_⟩
            rw [convert_eq_convertUnder] at hw ⊢
            have hmem := Data.mem_parts_of_mem_members (List.mem_filter.1 hm).1
            exact ihx _ hmem hs.additional hw none _
      | reference name ih =>
          obtain ⟨s, hname⟩ := hsound.resolves hs
          rw [convertUnder_reference hacyclic hname] at h ⊢
          exact ih s hname (.registered hname) h (some name) site'

/-! ## What a schema takes -/

/-- A schema takes a value, or its absence. The site and the owner are left out: they are told in
messages and decide nothing. -/
def Takes (r : Registry) (d : Direction) (x : Option Data) (s : Schema) : Prop :=
  ∃ out, convertUnder r d none x .root s = .ok out

/-- Wherever a conversion takes place, it succeeds on what the schema takes. -/
theorem exists_eq_ok_iff (hacyclic : r.Acyclic) (hsound : r.Sound) {s : Schema} (hs : r.Part s) :
    (∃ out, convertUnder r d owner x site s = .ok out) ↔ Takes r d x s :=
  ⟨fun ⟨out, h⟩ => ⟨out, convertUnder_eq_ok_congr hacyclic hsound hs h none .root⟩,
    fun ⟨out, h⟩ => ⟨out, convertUnder_eq_ok_congr hacyclic hsound hs h owner site⟩⟩

/-- A run succeeds on what the schema under its name takes. -/
theorem exists_run_eq_ok_iff (hr : r.Acyclic) {name : String} {v : Data} :
    (∃ w, run r d name v = .ok w) ↔ Takes r d (some v) (.reference name) := by
  simp only [run_eq_ok_iff hr, Takes]
  constructor
  · rintro ⟨w, h⟩
    exact ⟨some w, h⟩
  · rintro ⟨out, h⟩
    obtain ⟨w, rfl⟩ := exists_some_of_eq_ok hr h
    exact ⟨w, h⟩

theorem takes_timestamp_iff :
    Takes r d x (.kind .timestamp) ↔ x = some .null ∨ ∃ t, instantOf? x = some t := by
  simp only [Takes, convertUnder_timestamp_eq_ok_iff]
  constructor
  · rintro ⟨_, ⟨rfl, _⟩ | ⟨t, ht, _⟩⟩
    · exact .inl rfl
    · exact .inr ⟨t, ht⟩
  · rintro (rfl | ⟨t, ht⟩)
    · exact ⟨_, .inl ⟨rfl, rfl⟩⟩
    · exact ⟨_, .inr ⟨t, ht, rfl⟩⟩

theorem takes_kind_iff {k : Kind} (hk : k ≠ .timestamp) :
    Takes r d x (.kind k) ↔ admits k x = true := by
  simp only [Takes, convertUnder_kind_eq_ok_iff hk, exists_and_left, exists_eq, and_true]

theorem takes_literals_iff {words : List String} {distinct : words.Nodup} :
    Takes r d x (.literals words distinct) ↔ ∃ s ∈ words, x = some (.string s) := by
  simp only [Takes, convertUnder_literals_eq_ok_iff]
  constructor
  · rintro ⟨_, s, hs, hx, _⟩
    exact ⟨s, hs, hx⟩
  · rintro ⟨s, hs, hx⟩
    exact ⟨x, s, hs, hx, rfl⟩

/-- An array is taken if its elements are. Each of them is there, so none is excused by being
absent. -/
theorem takes_array_iff (hr : r.Acyclic) {element : Schema} :
    Takes r d x (.array element) ↔
      ∃ items, x = some (.array items) ∧ ∀ v ∈ items, Takes r d (some v) element := by
  have hitem : ∀ v, (∃ w, convert r d (some v) .root element = .ok (some w)) ↔
      Takes r d (some v) element := by
    intro v
    rw [convert_eq_convertUnder]
    constructor
    · rintro ⟨w, h⟩
      exact ⟨some w, h⟩
    · rintro ⟨out, h⟩
      obtain ⟨w, rfl⟩ := exists_some_of_eq_ok hr h
      exact ⟨w, h⟩
  constructor
  · rintro ⟨out, h⟩
    obtain ⟨items, outs, rfl, _, hitems⟩ := (convertUnder_array_eq_ok_iff_forall₂ hr).1 h
    exact ⟨items, rfl, fun v hv => (hitem v).1 (exists_forall₂_iff.1 ⟨outs, hitems⟩ v hv)⟩
  · rintro ⟨items, rfl, h⟩
    obtain ⟨outs, hitems⟩ := exists_forall₂_iff.2 fun v hv => (hitem v).2 (h v hv)
    exact ⟨_, (convertUnder_array_eq_ok_iff_forall₂ hr).2 ⟨items, outs, rfl, rfl, hitems⟩⟩

/-- A union takes what one of its candidates takes. The order of the candidates matters for the
result and not for this, because over a sound registry none of them fails in another way. -/
theorem takes_union_iff (hacyclic : r.Acyclic) (hsound : r.Sound) {candidates : List Schema}
    (hs : r.Part (.union candidates)) :
    Takes r d x (.union candidates) ↔ ∃ c ∈ candidates, Takes r d x c := by
  constructor
  · rintro ⟨out, h⟩
    obtain ⟨before, c, after, rfl, _, hc⟩ := convertUnder_union_eq_ok_iff.1 h
    rw [convert_eq_convertUnder] at hc
    exact ⟨c, List.mem_append_right _ List.mem_cons_self, out, hc⟩
  · intro h
    -- the first candidate that takes the value is reached, since those before it reject
    obtain ⟨before, c, after, rfl, hbefore, out, hc⟩ := exists_first h
    refine ⟨out, convertUnder_union_eq_ok_iff.2 ⟨before, c, after, rfl, fun b hb => ?_, ?_⟩⟩
    · rw [convert_eq_convertUnder]
      have hpart : r.Part b := hs.candidate (List.mem_append_left _ hb)
      exact (settles hacyclic hsound x hpart none .root).resolve_left (hbefore b hb)
    · rw [convert_eq_convertUnder, hc]

/-- A reference takes what the schema under its name takes. -/
theorem takes_reference_iff (hacyclic : r.Acyclic) (hsound : r.Sound) {name : String} {s : Schema}
    (hname : r.find? name = some s) : Takes r d x (.reference name) ↔ Takes r d x s := by
  rw [Takes, convertUnder_reference hacyclic hname]
  exact exists_eq_ok_iff hacyclic hsound (.registered hname)

/-- An object is taken if each property takes what stands under its name, or its absence, and if
each other member is taken. -/
theorem takes_object_iff (hacyclic : r.Acyclic) (hsound : r.Sound)
    (hs : r.Part (.object properties additional)) :
    Takes r d x (.object properties additional) ↔
      ∃ members, x = some (.object members) ∧
        (∀ p ∈ properties, Takes r d (Table.find? members (d.sourceName p)) p.schema) ∧
        ∀ m ∈ surplus d properties members, ∃ extra ∈ additional, Takes r d (some m.2) extra := by
  have hproperty : ∀ (members : Table Data), (∃ vs, List.Forall₂ (fun p v =>
      convertProperty r d none members p = .ok v) properties vs) ↔
      ∀ p ∈ properties, Takes r d (Table.find? members (d.sourceName p)) p.schema := by
    intro members
    rw [exists_forall₂_iff]
    refine forall₂_congr fun p hp => ?_
    simp only [convertProperty, convert_eq_convertUnder]
    exact exists_eq_ok_iff hacyclic hsound (hs.property hp)
  have hsurplus : ∀ (members : Table Data), (∃ ws, List.Forall₂ (ConvertsSurplus r d none
      additional) (surplus d properties members) ws) ↔
      ∀ m ∈ surplus d properties members, ∃ extra ∈ additional, Takes r d (some m.2) extra := by
    intro members
    rw [exists_forall₂_iff]
    refine forall₂_congr fun m hm => ?_
    simp only [ConvertsSurplus, convert_eq_convertUnder]
    rw [exists_comm]
    refine exists_congr fun extra => ?_
    rw [exists_and_left]
    refine and_congr_right fun hextra => ?_
    cases hextra
    exact exists_eq_ok_iff hacyclic hsound hs.additional
  have hnames := hsound.sourceNames hs d
  constructor
  · rintro ⟨out, h⟩
    obtain ⟨members, vs, ws, rfl, hvs, hws, _⟩ := (convertUnder_object_eq_ok_iff hnames).1 h
    exact ⟨members, rfl, (hproperty members).1 ⟨vs, hvs⟩, (hsurplus members).1 ⟨ws, hws⟩⟩
  · rintro ⟨members, rfl, hdeclared, hother⟩
    obtain ⟨vs, hvs⟩ := (hproperty members).2 hdeclared
    obtain ⟨ws, hws⟩ := (hsurplus members).2 hother
    exact ⟨_, (convertUnder_object_eq_ok_iff hnames).2 ⟨members, vs, ws, rfl, hvs, hws, rfl⟩⟩

end Agenda.Engine

namespace Agenda

/-! ## What a schema leads to -/

/-- A schema leads to a kind through references and unions alone. -/
inductive Registry.Reaches (r : Registry) (k : Kind) : Schema → Prop where
  | kind : Reaches r k (.kind k)
  | candidate {candidates : List Schema} {c : Schema} (hc : c ∈ candidates) (h : Reaches r k c) :
      Reaches r k (.union candidates)
  | reference {name : String} {s : Schema} (hname : r.find? name = some s) (h : Reaches r k s) :
      Reaches r k (.reference name)

namespace Registry

variable {r : Registry} {k : Kind}

theorem reaches_kind_iff {other : Kind} : r.Reaches k (.kind other) ↔ other = k := by
  constructor
  · rintro ⟨⟩
    rfl
  · rintro rfl
    exact .kind

theorem reaches_union_iff {candidates : List Schema} :
    r.Reaches k (.union candidates) ↔ ∃ c ∈ candidates, r.Reaches k c := by
  constructor
  · rintro (_ | ⟨hc, h⟩)
    exact ⟨_, hc, h⟩
  · rintro ⟨c, hc, h⟩
    exact .candidate hc h

theorem reaches_reference_iff {name : String} :
    r.Reaches k (.reference name) ↔ ∃ s, r.find? name = some s ∧ r.Reaches k s := by
  constructor
  · rintro (_ | _ | ⟨hname, h⟩)
    exact ⟨_, hname, h⟩
  · rintro ⟨s, hname, h⟩
    exact .reference hname h

end Registry

namespace Engine

/-- A key may be missing if its schema leads to `any` or to `absent`. -/
theorem takes_none_iff {r : Registry} {d : Direction} (hacyclic : r.Acyclic) (hsound : r.Sound)
    {s : Schema} (hs : r.Part s) :
    Takes r d none s ↔ r.Reaches .any s ∨ r.Reaches .absent s := by
  induction s using Registry.Acyclic.induction hacyclic with
  | kind k =>
      rw [Registry.reaches_kind_iff, Registry.reaches_kind_iff]
      by_cases hk : k = .timestamp
      · subst hk
        simp [takes_timestamp_iff, instantOf?]
      · rw [takes_kind_iff hk]
        cases k <;> simp [admits]
  | literals words distinct =>
      have hnot : ∀ k, ¬ r.Reaches k (.literals words distinct) := fun k h => by cases h
      simp [takes_literals_iff, hnot]
  | array element =>
      have hnot : ∀ k, ¬ r.Reaches k (.array element) := fun k h => by cases h
      simp [takes_array_iff hacyclic, hnot]
  | union candidates ih =>
      simp only [takes_union_iff hacyclic hsound hs, Registry.reaches_union_iff]
      rw [← exists_or]
      refine exists_congr fun c => ?_
      rw [← and_or_left]
      exact and_congr_right fun hc => ih c hc (hs.candidate hc)
  | object properties additional =>
      have hnot : ∀ k, ¬ r.Reaches k (.object properties additional) := fun k h => by cases h
      simp [takes_object_iff hacyclic hsound hs, hnot]
  | reference name ih =>
      obtain ⟨s, hname⟩ := hsound.resolves hs
      rw [takes_reference_iff hacyclic hsound hname, ih s hname (.registered hname),
        Registry.reaches_reference_iff, Registry.reaches_reference_iff]
      simp [hname]

end Engine

end Agenda
