/-
Renderings, converted.

The conversion of a rendered value is again a rendering, with the names of the other side, and with
each instant in its new place. Conversely, whatever the conversion of a document makes is the
rendering of some typed value. Both go by one recursion over the agreement of form and schema, which
settles a record field by field and leaves the engine's part to the rows of an object.
-/
import Agenda.Proofs.Document.Fit

set_option autoImplicit false

namespace Agenda

open Engine

variable {r : Registry} {d : Direction} {owner : Option String} {site : Site}

/-! ## Optional values -/

theorem convert_optional_none (s : Schema) :
    convert r d none site (.optional s) = .ok none := by
  rw [convert_eq_convertUnder]
  refine convertUnder_union_eq_ok_iff.2 ⟨[], .kind .absent, [s], rfl, by simp, ?_⟩
  rw [convert_eq_convertUnder]
  exact (convertUnder_kind_eq_ok_iff (by decide)).2 ⟨rfl, rfl⟩

/-- A value that is present is no absent one. -/
theorem convert_optional_some_iff {v : Data} {s : Schema} {out : Option Data} :
    convert r d (some v) site (.optional s) = .ok out ↔ convert r d (some v) site s = .ok out := by
  have habsent : ∃ rejection, convert r d (some v) site (.kind .absent) =
      .error (.rejected rejection) := by
    have hsettles : Settles (convertUnder r d none (some v) site (.kind .absent)) :=
      settles_kind .absent
    rw [convert_eq_convertUnder]
    rcases hsettles with ⟨o, ho⟩ | hrejected
    · have hadmits := ((convertUnder_kind_eq_ok_iff (by decide)).1 ho).1
      cases v <;> cases hadmits
    · exact hrejected
  rw [convert_eq_convertUnder, Schema.optional, convertUnder_union_eq_ok_iff]
  constructor
  · rintro ⟨before, c, after, hsplit, -, hc⟩
    -- either of the two candidates may have taken the value, but the first refuses what is present
    rcases before with _ | ⟨b, _ | ⟨b', before⟩⟩
    · obtain ⟨rfl, -⟩ := List.cons.inj hsplit
      obtain ⟨rejection, hrejected⟩ := habsent
      rw [hrejected] at hc
      cases hc
    · obtain ⟨-, htail⟩ := List.cons.inj hsplit
      obtain ⟨rfl, -⟩ := List.cons.inj htail
      exact hc
    · have hlength := congrArg List.length hsplit
      simp at hlength
  · intro h
    exact ⟨[.kind .absent], s, [], rfl, by simpa using habsent, h⟩

/-! ## Records -/

/-- An object without surplus members is converted row by row. -/
theorem convertUnder_rows {before after : List (Property Schema × Option Data)}
    {properties : List (Property Schema)} (hbefore : before.map Prod.fst = properties)
    (hsource : (properties.map d.sourceName).Nodup) (htarget : (properties.map d.targetName).Nodup)
    (h : List.Forall₂ (fun b a => b.1 = a.1 ∧ ∀ site, convert r d b.2 site b.1.schema = .ok a.2)
      before after) :
    convertUnder r d owner (some (.object (present (before.map fun w => (d.sourceName w.1, w.2)))))
        site (.object properties none) =
      .ok (some (.object (present (after.map fun w => (d.targetName w.1, w.2))))) := by
  have hafter : after.map Prod.fst = properties := by
    have hsame : List.Forall₂ (· = ·) (after.map Prod.fst) (before.map Prod.fst) := by
      rw [List.forall₂_map_left_iff, List.forall₂_map_right_iff]
      exact h.flip.imp fun _ _ hw => hw.1.symm
    rw [List.forall₂_eq_eq_eq] at hsame
    rw [hsame, hbefore]
  have hrows : ((before.map fun w => (d.sourceName w.1, w.2)).map Prod.fst).Nodup := by
    rw [List.map_map]
    rw [← hbefore, List.map_map] at hsource
    exact hsource
  refine (convertUnder_strict_eq_ok_iff hsource htarget).2 ⟨_, after.map Prod.snd, rfl, ?_, ?_, ?_⟩
  · rw [← hbefore, List.forall₂_map_left_iff, List.forall₂_map_right_iff]
    refine List.forall₂_iff_zip.2 ⟨h.length_eq, fun {b a} hba => ?_⟩
    have hb : (d.sourceName b.1, b.2) ∈ before.map fun w => (d.sourceName w.1, w.2) :=
      List.mem_map.2 ⟨b, (List.of_mem_zip hba).1, rfl⟩
    rw [convertProperty, find?_present hrows hb]
    exact (List.forall₂_zip h hba).2 _
  · rw [surplus, List.filter_eq_nil_iff]
    intro m hm
    -- every member comes from the row of a property, so no name is surplus
    obtain ⟨w, hw, heq⟩ := List.mem_map.1 (mem_present hm)
    have hname : m.1 ∈ properties.map d.sourceName := by
      rw [← hbefore, List.map_map]
      exact List.mem_map.2 ⟨w, hw, congrArg Prod.fst heq⟩
    simpa using hname
  · rw [← hafter, List.map_map, List.zip_map']
    rfl

/-! ## What a form writes -/

/-- The text of an instant as forms write it. -/
def exactText (t : Instant) : Data := .string (String.ofList t.exact)

mutual

/-- A form writes the rendering with internal names. -/
theorem Fit.lift_write {α : Type} {form : Form α} {s : Schema} (fit : Fit r form s) (a : α) :
    (form.write a).lift = fit.render Property.internalName exactText a :=
  match fit, a with
  | .text, _ => rfl
  | .flag, _ => rfl
  | .number, _ => rfl
  | .anything, vs => by
      rw [Form.write, Json.lift_array, Fit.render, List.map_map]
      exact congrArg Value.array (List.map_congr_left fun v _ => rfl)
  | .list fit, xs => by
      rw [Form.write, Json.lift_array, Fit.render, List.map_map]
      exact congrArg Value.array (List.map_congr_left fun x _ => fit.lift_write x)
  | .word _ _ _, _ => rfl
  | .reference _ fit, a => fit.lift_write a
  | .record _ split _ _ _ _ fit, a => by
      rw [Form.write, Json.lift_object, Fit.render, fit.lift_write (split a)]

/-- And for the fields of a record what stands in their rows. -/
theorem FieldsFit.lift_write {ρ : Type} {fields : Fields ρ} {properties : List (Property Schema)}
    (fit : FieldsFit r properties fields) (x : ρ) :
    (fields.write x).map (fun m => (m.1, m.2.lift)) = present
      ((fit.rows Property.internalName exactText x).map fun w => (w.1.internalName, w.2)) :=
  match fit, x with
  | .nil, _ => rfl
  | .required p fit others, (a, x) => by
      rw [Fields.write, FieldsFit.rows, List.map_cons, List.map_cons, present_cons_some,
        others.lift_write x, fit.lift_write a]
  | .nullable p _ others, (none, x) => by
      rw [Fields.write, FieldsFit.rows, List.map_cons, List.map_cons, present_cons_some,
        others.lift_write x]
      rfl
  | .nullable p _ others, (some t, x) => by
      rw [Fields.write, FieldsFit.rows, List.map_cons, List.map_cons, present_cons_some,
        others.lift_write x]
      rfl
  | .omittable p _ others, (none, x) => by
      rw [Fields.write, FieldsFit.rows, List.map_cons, Option.map_none, present_cons_none,
        others.lift_write x]
  | .omittable p _ others, (some t, x) => by
      rw [Fields.write, FieldsFit.rows, List.map_cons, List.map_cons, Option.map_some,
        present_cons_some, others.lift_write x]
      rfl

end

/-- An optional instant is its only instant. -/
theorem flatMap_instants (t : Option Instant) :
    t.toList.flatMap Form.instant.instants = t.toList := by
  cases t <;> rfl

/-- It comes before the instants of the other fields. -/
theorem mem_instants_append {t : Option Instant} {ts : List Instant} {u : Instant}
    (hu : u ∈ t.toList) : u ∈ t.toList.flatMap Form.instant.instants ++ ts := by
  rw [flatMap_instants]
  exact List.mem_append_left _ hu

/-! ## What a form reads -/

section

variable {place : Instant → Data} {f : Instant → Instant}

/-- What a reader finds under a name. -/
theorem position?_map_snd (members : List (String × Data)) (key : String) :
    (Form.position? members key).map Prod.snd = Table.find? members key := by
  induction members with
  | nil => rfl
  | cons m rest ih =>
      rw [Form.position?, Table.find?_cons]
      split
      · rfl
      · rw [← ih, Option.map_map]
        rfl

/-- What stands under a name decides about it. -/
theorem placed_eq_ok_iff {α : Type} {members : List (String × Data)} {key : String} {v : Data}
    {read : Data → Except Mismatch α} {absent : Except Mismatch α} {a : α}
    (hv : Table.find? members key = some v) :
    Form.placed members key read absent = .ok a ↔ read v = .ok a := by
  rw [← position?_map_snd, Option.map_eq_some_iff] at hv
  obtain ⟨⟨i, u⟩, hposition, rfl⟩ := hv
  simp only [Form.placed, hposition, Form.under, Result.mapError_eq_ok_iff]

theorem placed_of_some {α : Type} {members : List (String × Data)} {key : String} {v : Data}
    {read : Data → Except Mismatch α} {absent : Except Mismatch α} {a : α}
    (hv : Table.find? members key = some v) (ha : read v = .ok a) :
    Form.placed members key read absent = .ok a :=
  (placed_eq_ok_iff hv).2 ha

theorem placed_of_none {α : Type} {members : List (String × Data)} {key : String}
    {read : Data → Except Mismatch α} {a : α} (hv : Table.find? members key = none) :
    Form.placed members key read (.ok a) = .ok a := by
  rw [← position?_map_snd, Option.map_eq_none_iff] at hv
  rw [Form.placed, hv, Result.mapError_ok]

/-- Elements are read one by one. -/
theorem readItems_eq_ok_iff {α : Type} {read : Data → Except Mismatch α} {i : Nat} {ds : List Data}
    {xs : List α} :
    Form.readItems read i ds = .ok xs ↔ List.Forall₂ (fun d a => read d = .ok a) ds xs := by
  induction ds generalizing i xs with
  | nil => simp [Form.readItems, eq_comm]
  | cons d rest ih =>
      simp only [Form.readItems, Form.under, Result.bind_eq_ok_iff, Result.mapError_eq_ok_iff, ih,
        List.forall₂_cons_left_iff, Except.ok.injEq]
      constructor
      · rintro ⟨a, ha, as, has, rfl⟩
        exact ⟨a, as, ha, has, rfl⟩
      · rintro ⟨a, as, ha, has, rfl⟩
        exact ⟨a, ha, as, has, rfl⟩

theorem readItems_eq_ok {α : Type} {read : Data → Except Mismatch α} {xs : List α}
    {value : α → Data} {change : α → α} (h : ∀ x ∈ xs, read (value x) = .ok (change x)) (i : Nat) :
    Form.readItems read i (xs.map value) = .ok (xs.map change) := by
  rw [readItems_eq_ok_iff, List.forall₂_map_left_iff, List.forall₂_map_right_iff, List.forall₂_same]
  exact h

/-- Each instant is read back from its place, changed. -/
def ReadsInstants (place : Instant → Data) (f : Instant → Instant) (ts : List Instant) : Prop :=
  ∀ t ∈ ts, Form.instant.read (place t) = .ok (f t) ∧ place t ≠ .null

theorem orNull_elim {t : Option Instant} (h : ReadsInstants place f t.toList) :
    Form.orNull Form.instant.read (t.elim .null place) = .ok (t.map f) := by
  cases t with
  | none => rfl
  | some t =>
      obtain ⟨hread, hnull⟩ := h t (by simp)
      show Form.orNull Form.instant.read (place t) = .ok (some (f t))
      revert hread hnull
      generalize place t = v
      intro hread hnull
      -- null alone is not handed on to the reader of instants
      cases v with
      | null => exact absurd rfl hnull
      | _ => rw [Form.orNull, hread, Result.map_ok]; simp

mutual

/-- A form reads the rendering with internal names. -/
theorem Fit.read_render {α : Type} {form : Form α} {s : Schema} (fit : Fit r form s) (a : α)
    (h : ReadsInstants place f (form.instants a)) :
    form.read (fit.render Property.internalName place a) = .ok (form.change f id a) :=
  match fit, a with
  | .text, _ => rfl
  | .flag, _ => rfl
  | .number, _ => rfl
  | .anything, vs => by
      rw [Fit.render, Form.read, Form.change]
      refine readItems_eq_ok (fun v _ => ?_) 0
      rw [Form.read, Form.change, Json.toJson_lift, Value.renumber_id]
  | .list fit, xs => by
      rw [Fit.render, Form.read, Form.change]
      refine readItems_eq_ok (fun x hx => fit.read_render x fun t ht => h t ?_) 0
      exact List.mem_flatMap.2 ⟨x, hx, ht⟩
  | .word spell hspell _, a => by
      rw [Fit.render, Form.read, Form.change]
      simp only [(hspell a).2]
  | .reference _ fit, a => fit.read_render a h
  | .record _ split hmake _ hwire hinternal fit, a => by
      have hnames := fit.nodup_keys hwire hinternal .toWire place (split a)
      have hfields := fit.readMembers_rows (split a) h
        (present ((fit.rows Property.internalName place (split a)).map fun w =>
          (w.1.internalName, w.2)))
        fun w hw => find?_present hnames (List.mem_map.2 ⟨w, hw, rfl⟩)
      rw [Fit.render, Form.read, hfields]
      rfl

/-- And the fields of a record from any members in which the rows are found. -/
theorem FieldsFit.readMembers_rows {ρ : Type} {fields : Fields ρ}
    {properties : List (Property Schema)} (fit : FieldsFit r properties fields) (x : ρ)
    (h : ReadsInstants place f (fields.instants x)) (members : Table Data)
    (hmembers : ∀ w ∈ fit.rows Property.internalName place x,
      Table.find? members w.1.internalName = w.2) :
    fields.readMembers members = .ok (fields.change f id x) :=
  match fit, x with
  | .nil, _ => rfl
  | .required p fit others, (a, x) => by
      have ha := fit.read_render a fun t ht => h t (List.mem_append_left _ ht)
      have hx := others.readMembers_rows x (fun t ht => h t (List.mem_append_right _ ht)) members
        fun w hw => hmembers w (List.mem_cons_of_mem _ hw)
      rw [Fields.readMembers, placed_of_some (hmembers _ List.mem_cons_self) ha, hx]
      rfl
  | .nullable p _ others, (t, x) => by
      have ht : ReadsInstants place f t.toList := fun u hu =>
        h u (mem_instants_append hu)
      have hx := others.readMembers_rows x (fun t ht => h t (List.mem_append_right _ ht)) members
        fun w hw => hmembers w (List.mem_cons_of_mem _ hw)
      rw [Fields.readMembers, placed_of_some (hmembers _ List.mem_cons_self) (orNull_elim ht), hx]
      rfl
  | .omittable p _ others, (t, x) => by
      have ht : ReadsInstants place f t.toList := fun u hu =>
        h u (mem_instants_append hu)
      have hx := others.readMembers_rows x (fun t ht => h t (List.mem_append_right _ ht)) members
        fun w hw => hmembers w (List.mem_cons_of_mem _ hw)
      have hfind := hmembers _ List.mem_cons_self
      -- the row of a missing instant is empty, and then no member is found under its name
      cases t with
      | none =>
          rw [Fields.readMembers, placed_of_none hfind, hx]
          rfl
      | some t =>
          rw [Fields.readMembers, placed_of_some hfind (orNull_elim ht), hx]
          rfl

end

end

/-! ## From one rendering to another -/

section

variable {p q : Instant → Data}

/-- The first place of each instant is converted to the second. -/
def Replaces (d : Direction) (p q : Instant → Data) (ts : List Instant) : Prop :=
  ∀ t ∈ ts, ∃ u, instantOf? (some (p t)) = some u ∧ q t = placeInstant d u

theorem convert_timestamp_elim {t : Option Instant} (h : Replaces d p q t.toList) (site : Site) :
    convert r d (some (t.elim .null p)) site (.kind .timestamp) =
      .ok (some (t.elim .null q)) := by
  rw [convert_eq_convertUnder, convertUnder_timestamp_eq_ok_iff]
  cases t with
  | none => exact .inl ⟨rfl, rfl⟩
  | some t =>
      obtain ⟨u, hu, hq⟩ := h t (by simp)
      exact .inr ⟨u, hu, congrArg some hq⟩

mutual

/-- The conversion of a rendering is the rendering with the names of the other side. -/
theorem Fit.convertUnder_render (hr : r.Acyclic) {α : Type} {form : Form α} {s : Schema}
    (fit : Fit r form s) (a : α) (h : Replaces d p q (form.instants a)) (owner : Option String)
    (site : Site) :
    convertUnder r d owner (some (fit.render d.sourceName p a)) site s =
      .ok (some (fit.render d.targetName q a)) :=
  match fit, a with
  | .text, t => (convertUnder_kind_eq_ok_iff (by decide)).2 ⟨rfl, rfl⟩
  | .flag, b => (convertUnder_kind_eq_ok_iff (by decide)).2 ⟨rfl, rfl⟩
  | .number, n => (convertUnder_kind_eq_ok_iff (by decide)).2 ⟨rfl, rfl⟩
  | .anything, vs => by
      refine (convertUnder_array_eq_ok_iff_forall₂ hr).2 ⟨_, _, rfl, rfl, ?_⟩
      rw [List.forall₂_same]
      intro v _
      rw [convert_eq_convertUnder]
      exact (convertUnder_kind_eq_ok_iff (by decide)).2 ⟨rfl, rfl⟩
  | .list fit, xs => by
      refine (convertUnder_array_eq_ok_iff_forall₂ hr).2 ⟨_, _, rfl, rfl, ?_⟩
      rw [List.forall₂_map_left_iff, List.forall₂_map_right_iff, List.forall₂_same]
      intro x hx
      rw [convert_eq_convertUnder]
      refine fit.convertUnder_render hr x (fun t ht => h t ?_) none site
      exact List.mem_flatMap.2 ⟨x, hx, ht⟩
  | .word spell hspell hwords, a =>
      convertUnder_literals_eq_ok_iff.2 ⟨spell a, (hspell a).1, rfl, rfl⟩
  | .reference hname fit, a => by
      rw [convertUnder_reference hr hname]
      exact fit.convertUnder_render hr a h _ site
  | .record _ split hmake hsplit hwire hinternal fit, a => by
      have hnames := nodup_names hwire hinternal d
      exact convertUnder_rows (fit.map_fst_rows (split a)) hnames.1 hnames.2
        (fit.forall₂_rows hr (split a) h)

/-- So is what stands for each property. -/
theorem FieldsFit.forall₂_rows (hr : r.Acyclic) {ρ : Type} {fields : Fields ρ}
    {properties : List (Property Schema)} (fit : FieldsFit r properties fields) (x : ρ)
    (h : Replaces d p q (fields.instants x)) :
    List.Forall₂ (fun b a => b.1 = a.1 ∧ ∀ site, convert r d b.2 site b.1.schema = .ok a.2)
      (fit.rows d.sourceName p x) (fit.rows d.targetName q x) :=
  match fit, x with
  | .nil, _ => .nil
  | .required prop fit others, (a, x) => by
      refine .cons ⟨rfl, fun site => ?_⟩ (others.forall₂_rows hr x fun t ht => h t ?_)
      · rw [convert_eq_convertUnder]
        exact fit.convertUnder_render hr a (fun t ht => h t (List.mem_append_left _ ht)) none site
      · exact List.mem_append_right _ ht
  | .nullable prop hprop others, (t, x) => by
      refine .cons ⟨rfl, fun site => ?_⟩ (others.forall₂_rows hr x fun u hu => h u ?_)
      · rw [hprop]
        exact convert_timestamp_elim (fun u hu => h u (mem_instants_append hu)) site
      · exact List.mem_append_right _ hu
  | .omittable prop hprop others, (t, x) => by
      refine .cons ⟨rfl, fun site => ?_⟩ (others.forall₂_rows hr x fun u hu => h u ?_)
      · rw [hprop]
        cases t with
        | none => exact convert_optional_none _
        | some t =>
            refine convert_optional_some_iff.2 ?_
            refine convert_timestamp_elim (t := some t) (fun u hu => h u ?_) site
            exact List.mem_append_left _ hu
      · exact List.mem_append_right _ hu

end

end

end Agenda
