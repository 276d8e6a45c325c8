import Agenda.Document.Form
import Agenda.Proofs.Conversion.Assembly
import Agenda.Proofs.Time.Spelling

set_option autoImplicit false

namespace Agenda

/-! ## What a typed value holds -/

mutual

/-- The instants of a value. -/
def Form.instants {α : Type} : Form α → α → List Instant
  | .text, _ => []
  | .flag, _ => []
  | .number, _ => []
  | .instant, t => [t]
  | .json, _ => []
  | .list item, xs => xs.flatMap item.instants
  | .word _ _ _, _ => []
  | .record _ fields _ split, a => fields.instants (split a)

/-- The instants of the fields of a record. -/
def Fields.instants {ρ : Type} : Fields ρ → ρ → List Instant
  | .nil, _ => []
  | .required _ form rest, (a, r) => form.instants a ++ rest.instants r
  | .nullable _ form rest, (a, r) => a.toList.flatMap form.instants ++ rest.instants r
  | .omittable _ form rest, (a, r) => a.toList.flatMap form.instants ++ rest.instants r

end

section

variable (f : Instant → Instant) (g : Number → Number)

mutual

/-- The value with its instants and its numbers replaced. -/
def Form.change {α : Type} : Form α → α → α
  | .text, s => s
  | .flag, b => b
  | .number, n => g n
  | .instant, t => f t
  | .json, v => v.renumber g
  | .list item, xs => xs.map item.change
  | .word _ _ _, a => a
  | .record _ fields make split, a => make (fields.change (split a))

/-- The same for the fields of a record. -/
def Fields.change {ρ : Type} : Fields ρ → ρ → ρ
  | .nil, r => r
  | .required _ form rest, (a, r) => (form.change a, rest.change r)
  | .nullable _ form rest, (a, r) => (a.map form.change, rest.change r)
  | .omittable _ form rest, (a, r) => (a.map form.change, rest.change r)

end

end

/-! ## Forms that fit schemas -/

mutual

/-- A form describes what a schema accepts: the same words, the same elements, the same members
under internal names, and instants where the schema has timestamps. -/
inductive Fit (r : Registry) : {α : Type} → Form α → Schema → Type 1 where
  | text : Fit r .text (.kind .string)
  | flag : Fit r .flag (.kind .boolean)
  | number : Fit r .number (.kind .number)
  /-- Anything at all stands in arrays only, where nothing can be absent. -/
  | anything : Fit r (.list .json) (.array (.kind .any))
  | list {α : Type} {item : Form α} {element : Schema} (fit : Fit r item element) :
      Fit r (.list item) (.array element)
  | word {α : Type} {name : String} {table : List (String × α)} {words : List String}
      {distinct : words.Nodup} (spell : α → String)
      (hspell : ∀ a, spell a ∈ words ∧ Table.find? table (spell a) = some a)
      (hwords : ∀ s ∈ words, ∃ a, spell a = s) :
      Fit r (.word name table spell) (.literals words distinct)
  | reference {α : Type} {form : Form α} {name : String} {s : Schema}
      (hname : r.find? name = some s) (fit : Fit r form s) : Fit r form (.reference name)
  | record {α ρ : Type} {name : String} {fields : Fields ρ} {properties : List (Property Schema)}
      (make : ρ → α) (split : α → ρ) (hmake : ∀ a, make (split a) = a)
      (hsplit : ∀ p, split (make p) = p)
      (hwire : (properties.map Property.wireName).Nodup)
      (hinternal : (properties.map Property.internalName).Nodup)
      (fit : FieldsFit r properties fields) :
      Fit r (.record name fields make split) (.object properties none)

/-- The same for the fields of a record, one for each property. -/
inductive FieldsFit (r : Registry) : {ρ : Type} → List (Property Schema) → Fields ρ → Type 1 where
  | nil : FieldsFit r [] .nil
  | required {α ρ : Type} {form : Form α} {rest : Fields ρ} {properties : List (Property Schema)}
      (p : Property Schema) (fit : Fit r form p.schema) (others : FieldsFit r properties rest) :
      FieldsFit r (p :: properties) (.required p.internalName form rest)
  | nullable {ρ : Type} {rest : Fields ρ} {properties : List (Property Schema)}
      (p : Property Schema) (hp : p.schema = .kind .timestamp)
      (others : FieldsFit r properties rest) :
      FieldsFit r (p :: properties) (.nullable p.internalName .instant rest)
  | omittable {ρ : Type} {rest : Fields ρ} {properties : List (Property Schema)}
      (p : Property Schema) (hp : p.schema = .optional (.kind .timestamp))
      (others : FieldsFit r properties rest) :
      FieldsFit r (p :: properties) (.omittable p.internalName .instant rest)

end

/-! ## Renderings -/

section

variable {r : Registry} (name : Property Schema → String) (place : Instant → Data)

mutual

/-- A typed value as data, with one of the names of each property and a place for each instant. -/
def Fit.render {α : Type} {form : Form α} {s : Schema} : Fit r form s → α → Data
  | .text, t => .string t
  | .flag, b => .bool b
  | .number, n => .number n
  | .anything, vs => .array (vs.map Json.lift)
  | .list fit, xs => .array (xs.map fit.render)
  | .word spell _ _, a => .string (spell a)
  | .reference _ fit, a => fit.render a
  | .record _ split _ _ _ _ fit, a =>
    .object (Engine.present ((fit.rows (split a)).map fun w => (name w.1, w.2)))

/-- What stands for each property. -/
def FieldsFit.rows {ρ : Type} {fields : Fields ρ} {properties : List (Property Schema)} :
    FieldsFit r properties fields → ρ → List (Property Schema × Option Data)
  | .nil, _ => []
  | .required p fit others, (a, q) => (p, some (fit.render a)) :: others.rows q
  | .nullable p _ others, (t, q) => (p, some (t.elim .null place)) :: others.rows q
  | .omittable p _ others, (t, q) => (p, t.map place) :: others.rows q

end

end

/-! ## The names of a record -/

section

variable {r : Registry}

/-- The rows of a record are those of its properties. -/
theorem FieldsFit.map_fst_rows {name : Property Schema → String} {place : Instant → Data} {ρ : Type}
    {fields : Fields ρ} {properties : List (Property Schema)}
    (fit : FieldsFit r properties fields) (x : ρ) :
    (fit.rows name place x).map Prod.fst = properties :=
  match fit, x with
  | .nil, _ => rfl
  | .required p _ others, (_, x) => congrArg (p :: ·) (others.map_fst_rows x)
  | .nullable p _ others, (_, x) => congrArg (p :: ·) (others.map_fst_rows x)
  | .omittable p _ others, (_, x) => congrArg (p :: ·) (others.map_fst_rows x)

/-- Names that are distinct on both sides are so on the side of a direction. -/
theorem nodup_names {properties : List (Property Schema)}
    (hwire : (properties.map Property.wireName).Nodup)
    (hinternal : (properties.map Property.internalName).Nodup) (d : Direction) :
    (properties.map d.sourceName).Nodup ∧ (properties.map d.targetName).Nodup := by
  cases d with
  | toInternal => exact ⟨hwire, hinternal⟩
  | toWire => exact ⟨hinternal, hwire⟩

/-- The members of a rendered record have distinct keys, on either side. -/
theorem FieldsFit.nodup_keys {ρ : Type} {fields : Fields ρ}
    {properties : List (Property Schema)} (fit : FieldsFit r properties fields)
    (hwire : (properties.map Property.wireName).Nodup)
    (hinternal : (properties.map Property.internalName).Nodup) (d : Direction)
    (place : Instant → Data) (x : ρ) :
    (((fit.rows d.sourceName place x).map fun w =>
      (d.sourceName w.1, w.2)).map Prod.fst).Nodup := by
  have hnames := (nodup_names hwire hinternal d).1
  rw [← fit.map_fst_rows x, List.map_map] at hnames
  rw [List.map_map]
  exact hnames

end

/-! ## Changing a value and rendering it

Each of these goes by one recursion over the agreement, with a second statement for the fields of a
record beside it. -/

namespace Engine

/-- What is done to every result is done to those that are present. -/
theorem present_map (f : Data → Data) (results : List (String × Option Data)) :
    (present results).map (fun m => (m.1, f m.2)) =
      present (results.map fun m => (m.1, m.2.map f)) := by
  induction results with
  | nil => rfl
  | cons m results ih =>
      obtain ⟨name, _ | v⟩ := m
      · exact ih
      · rw [present_cons_some, List.map_cons, ih]
        rfl

end Engine

section

variable {r : Registry} {name : Property Schema → String} {place : Instant → Data}
  {f f' : Instant → Instant} {g : Number → Number}

mutual

/-- Changing the instants changes the places where they are put. -/
theorem Fit.render_change {α : Type} {form : Form α} {s : Schema} (fit : Fit r form s) (a : α) :
    fit.render name place (form.change f id a) = fit.render name (place ∘ f) a :=
  match fit, a with
  | .text, _ => rfl
  | .flag, _ => rfl
  | .number, _ => rfl
  | .anything, vs => by
      rw [Fit.render, Fit.render, Form.change, List.map_map]
      refine congrArg Value.array (List.map_congr_left fun v _ => ?_)
      rw [Function.comp_apply, Form.change, Value.renumber_id]
  | .list fit, xs => by
      rw [Fit.render, Fit.render, Form.change, List.map_map]
      exact congrArg Value.array (List.map_congr_left fun x _ => fit.render_change x)
  | .word _ _ _, _ => rfl
  | .reference _ fit, a => fit.render_change a
  | .record _ split _ hsplit _ _ fit, a => by
      rw [Fit.render, Fit.render, Form.change, hsplit, fit.rows_change]

theorem FieldsFit.rows_change {ρ : Type} {fields : Fields ρ} {properties : List (Property Schema)}
    (fit : FieldsFit r properties fields) (x : ρ) :
    fit.rows name place (fields.change f id x) = fit.rows name (place ∘ f) x :=
  match fit, x with
  | .nil, _ => rfl
  | .required _ fit others, (a, x) => by
      rw [Fields.change, FieldsFit.rows, FieldsFit.rows, fit.render_change, others.rows_change]
  | .nullable _ _ others, (t, x) => by
      rw [Fields.change, FieldsFit.rows, FieldsFit.rows, others.rows_change]
      cases t <;> rfl
  | .omittable _ _ others, (t, x) => by
      rw [Fields.change, FieldsFit.rows, FieldsFit.rows, others.rows_change]
      cases t <;> rfl

end

mutual

/-- A change of data that goes into arrays and objects and replaces numbers, done to a rendering, is
done to its places and to the numbers of the value. -/
theorem Fit.map_render {h : Data → Data} (hlift : ∀ v : Json, h v.lift = Json.lift (v.renumber g))
    (harray : ∀ vs, h (.array vs) = .array (vs.map h))
    (hobject : ∀ ms, h (.object ms) = .object (ms.map fun m => (m.1, h m.2)))
    {α : Type} {form : Form α} {s : Schema} (fit : Fit r form s) (a : α) :
    h (fit.render name place a) = fit.render name (h ∘ place) (form.change id g a) :=
  match fit, a with
  | .text, t => hlift (.string t)
  | .flag, b => hlift (.bool b)
  | .number, n => hlift (.number n)
  | .anything, vs => by
      rw [Fit.render, Fit.render, Form.change, harray, List.map_map, List.map_map]
      exact congrArg Value.array (List.map_congr_left fun v _ => hlift v)
  | .list fit, xs => by
      rw [Fit.render, Fit.render, Form.change, harray, List.map_map, List.map_map]
      exact congrArg Value.array
        (List.map_congr_left fun x _ => fit.map_render hlift harray hobject x)
  | .word spell _ _, a => hlift (.string (spell a))
  | .reference _ fit, a => fit.map_render hlift harray hobject a
  | .record _ split _ hsplit _ _ fit, a => by
      rw [Fit.render, Fit.render, Form.change, hobject, hsplit, Engine.present_map, List.map_map,
        ← fit.map_rows hlift harray hobject, List.map_map]
      rfl

theorem FieldsFit.map_rows {h : Data → Data}
    (hlift : ∀ v : Json, h v.lift = Json.lift (v.renumber g))
    (harray : ∀ vs, h (.array vs) = .array (vs.map h))
    (hobject : ∀ ms, h (.object ms) = .object (ms.map fun m => (m.1, h m.2)))
    {ρ : Type} {fields : Fields ρ} {properties : List (Property Schema)}
    (fit : FieldsFit r properties fields) (x : ρ) :
    (fit.rows name place x).map (fun w => (w.1, w.2.map h)) =
      fit.rows name (h ∘ place) (fields.change id g x) :=
  match fit, x with
  | .nil, _ => rfl
  | .required _ fit others, (a, x) => by
      rw [Fields.change, FieldsFit.rows, FieldsFit.rows, List.map_cons,
        others.map_rows hlift harray hobject, Option.map_some,
        fit.map_render hlift harray hobject]
  | .nullable _ _ others, (t, x) => by
      rw [Fields.change, FieldsFit.rows, FieldsFit.rows, List.map_cons,
        others.map_rows hlift harray hobject]
      cases t with
      | none => exact congrArg (fun v => (_, some v) :: _) (hlift .null)
      | some t => rfl
  | .omittable _ _ others, (t, x) => by
      rw [Fields.change, FieldsFit.rows, FieldsFit.rows, List.map_cons,
        others.map_rows hlift harray hobject]
      cases t <;> rfl

end

/-- There are no instants in JSON. -/
theorem instants_anything (vs : List Json) : (Form.list .json).instants vs = [] :=
  List.flatMap_eq_nil_iff.2 fun _ _ => rfl

mutual

/-- The instants of a changed value are the changed instants. -/
theorem Fit.instants_change {α : Type} {form : Form α} {s : Schema} (fit : Fit r form s) (a : α) :
    form.instants (form.change f g a) = (form.instants a).map f :=
  match fit, a with
  | .text, _ => rfl
  | .flag, _ => rfl
  | .number, _ => rfl
  | .anything, vs => by rw [instants_anything, instants_anything, List.map_nil]
  | .list fit, xs => by
      rw [Form.instants, Form.instants, Form.change, List.flatMap_map, List.map_flatMap]
      exact List.flatMap_congr fun x _ => fit.instants_change x
  | .word _ _ _, _ => rfl
  | .reference _ fit, a => fit.instants_change a
  | .record _ split _ hsplit _ _ fit, a => by
      rw [Form.instants, Form.instants, Form.change, hsplit, fit.instants_change]

theorem FieldsFit.instants_change {ρ : Type} {fields : Fields ρ}
    {properties : List (Property Schema)} (fit : FieldsFit r properties fields) (x : ρ) :
    fields.instants (fields.change f g x) = (fields.instants x).map f :=
  match fit, x with
  | .nil, _ => rfl
  | .required _ fit others, (a, x) => by
      rw [Fields.change, Fields.instants, Fields.instants, List.map_append, fit.instants_change,
        others.instants_change]
  | .nullable _ _ others, (t, x) => by
      rw [Fields.change, Fields.instants, Fields.instants, List.map_append, others.instants_change]
      cases t <;> rfl
  | .omittable _ _ others, (t, x) => by
      rw [Fields.change, Fields.instants, Fields.instants, List.map_append, others.instants_change]
      cases t <;> rfl

end

mutual

/-- Only what happens to the instants that are there matters. -/
theorem Fit.change_congr {α : Type} {form : Form α} {s : Schema} (fit : Fit r form s) (a : α)
    (h : ∀ t ∈ form.instants a, f t = f' t) : form.change f g a = form.change f' g a :=
  match fit, a with
  | .text, _ => rfl
  | .flag, _ => rfl
  | .number, _ => rfl
  | .anything, _ => rfl
  | .list fit, xs => by
      rw [Form.change, Form.change]
      exact List.map_congr_left fun x hx =>
        fit.change_congr x fun t ht => h t (List.mem_flatMap.2 ⟨x, hx, ht⟩)
  | .word _ _ _, _ => rfl
  | .reference _ fit, a => fit.change_congr a h
  | .record _ split _ _ _ _ fit, a => by
      rw [Form.change, Form.change, fit.change_congr (split a) h]

theorem FieldsFit.change_congr {ρ : Type} {fields : Fields ρ} {properties : List (Property Schema)}
    (fit : FieldsFit r properties fields) (x : ρ) (h : ∀ t ∈ fields.instants x, f t = f' t) :
    fields.change f g x = fields.change f' g x :=
  match fit, x with
  | .nil, _ => rfl
  | .required _ fit others, (a, x) => by
      rw [Fields.change, Fields.change,
        fit.change_congr a fun t ht => h t (List.mem_append_left _ ht),
        others.change_congr x fun t ht => h t (List.mem_append_right _ ht)]
  | .nullable _ _ others, (t, x) => by
      rw [Fields.change, Fields.change,
        others.change_congr x fun t ht => h t (List.mem_append_right _ ht)]
      cases t with
      | none => rfl
      | some t =>
          have ht : t ∈ (some t).toList.flatMap Form.instant.instants := by simp [Form.instants]
          exact congrArg (fun u => (some u, _)) (h t (List.mem_append_left _ ht))
  | .omittable _ _ others, (t, x) => by
      rw [Fields.change, Fields.change,
        others.change_congr x fun t ht => h t (List.mem_append_right _ ht)]
      cases t with
      | none => rfl
      | some t =>
          have ht : t ∈ (some t).toList.flatMap Form.instant.instants := by simp [Form.instants]
          exact congrArg (fun u => (some u, _)) (h t (List.mem_append_left _ ht))

end

mutual

/-- A change that changes nothing. -/
theorem Fit.change_id {α : Type} {form : Form α} {s : Schema} (fit : Fit r form s) (a : α) :
    form.change id id a = a :=
  match fit, a with
  | .text, _ => rfl
  | .flag, _ => rfl
  | .number, _ => rfl
  | .anything, vs => by
      rw [Form.change]
      exact (List.map_congr_left fun v _ => Value.renumber_id v).trans (List.map_id vs)
  | .list fit, xs => by
      rw [Form.change]
      exact (List.map_congr_left fun x _ => fit.change_id x).trans (List.map_id xs)
  | .word _ _ _, _ => rfl
  | .reference _ fit, a => fit.change_id a
  | .record _ split hmake _ _ _ fit, a => by
      rw [Form.change, fit.change_id, hmake]

theorem FieldsFit.change_id {ρ : Type} {fields : Fields ρ} {properties : List (Property Schema)}
    (fit : FieldsFit r properties fields) (x : ρ) : fields.change id id x = x :=
  match fit, x with
  | .nil, _ => rfl
  | .required _ fit others, (a, x) => by
      rw [Fields.change, fit.change_id, others.change_id]
  | .nullable _ _ others, (t, x) => by
      rw [Fields.change, others.change_id]
      cases t <;> rfl
  | .omittable _ _ others, (t, x) => by
      rw [Fields.change, others.change_id]
      cases t <;> rfl

end

end

/-! ## Two renderings side by side -/

theorem exists_mem_of_forall₂ {α β : Type} {P : α → β → Prop} {as : List α} {bs : List β}
    (h : List.Forall₂ P as bs) {b : β} (hb : b ∈ bs) : ∃ a ∈ as, P a b := by
  induction h with
  | nil => cases hb
  | @cons a c as bs hac _ ih =>
      rcases List.mem_cons.1 hb with rfl | hb
      · exact ⟨a, List.mem_cons_self, hac⟩
      · obtain ⟨a', ha', hP⟩ := ih hb
        exact ⟨a', List.mem_cons_of_mem _ ha', hP⟩

/-- A relation that holds between a value and what is made of it: the same again, some other text,
an array of what is made of the elements, or an object of what is made of some of the members. -/
structure Descends (R : Data → Data → Prop) : Prop where
  same (v : Data) : R v v
  text {v w : Data} (hv : Data.shape (some v) = .text) (hw : Data.shape (some w) = .text) : R v w
  array {vs ws : List Data} (h : List.Forall₂ R vs ws) : R (.array vs) (.array ws)
  object {ms ns : Table Data} (hkeys : (Table.keys ns).Nodup)
    (h : ∀ n ∈ ns, ∃ m ∈ ms, R m.2 n.2) : R (.object ms) (.object ns)

/-- What is made of a value does not nest deeper. -/
theorem descends_depth : Descends fun v w => ∀ k, v.depth ≤ k → w.depth ≤ k where
  same _ _ := id
  text {v w} _ hw k _ := by
    cases w with
    | string s => exact Nat.zero_le k
    | atom t => exact Nat.zero_le k
    | _ => cases hw
  array {vs ws} h k hk := by
    rw [Value.depth_array_le] at hk ⊢
    refine ⟨hk.1, fun w hw => ?_⟩
    obtain ⟨v, hv, hvw⟩ := exists_mem_of_forall₂ h hw
    exact hvw _ (hk.2 v hv)
  object {ms ns} _ h k hk := by
    rw [Value.depth_object_le] at hk ⊢
    refine ⟨hk.1, fun n hn => ?_⟩
    obtain ⟨m, hm, hmn⟩ := h n hn
    exact hmn _ (hk.2 m hm)

/-- Its objects are tables if those of the value are. -/
theorem descends_tabular : Descends fun v w => v.Tabular → w.Tabular where
  same _ := id
  text {v w} _ hw _ := by
    cases w with
    | string s => trivial
    | atom t => trivial
    | _ => cases hw
  array {vs ws} h hv := by
    rw [Value.tabular_array] at hv ⊢
    intro w hw
    obtain ⟨v, hmem, hvw⟩ := exists_mem_of_forall₂ h hw
    exact hvw (hv v hmem)
  object {ms ns} hkeys h hm := by
    rw [Value.tabular_object] at hm ⊢
    refine ⟨hkeys, fun n hn => ?_⟩
    obtain ⟨m, hmem, hmn⟩ := h n hn
    exact hmn (hm.2 m hmem)

/-- It has no other numbers. -/
theorem descends_numbers : Descends fun v w => ∀ n ∈ w.numbers, n ∈ v.numbers where
  same _ _ := id
  text {v w} _ hw n hn := by
    cases w with
    | string s => cases hn
    | atom t => cases hn
    | _ => cases hw
  array {vs ws} h n hn := by
    rw [Value.mem_numbers_array] at hn ⊢
    obtain ⟨w, hw, hn⟩ := hn
    obtain ⟨v, hv, hvw⟩ := exists_mem_of_forall₂ h hw
    exact ⟨v, hv, hvw n hn⟩
  object {ms ns} _ h n hn := by
    rw [Value.mem_numbers_object] at hn ⊢
    obtain ⟨m', hm', hn⟩ := hn
    obtain ⟨m, hm, hmn⟩ := h m' hm'
    exact ⟨m, hm, hmn n hn⟩

theorem Engine.forall₂_present {R : Data → Data → Prop} {xs ys : List (String × Option Data)}
    (h : List.Forall₂ (fun x y => Option.Rel R x.2 y.2) xs ys) :
    List.Forall₂ (fun m n => R m.2 n.2) (present xs) (present ys) := by
  induction h with
  | nil => exact .nil
  | @cons x y xs ys hxy _ ih =>
      obtain ⟨m, v⟩ := x
      obtain ⟨n, w⟩ := y
      cases hxy with
      | some hvw => exact .cons hvw ih
      | none => exact ih

section

variable {r : Registry} {R : Data → Data → Prop} {d e : Direction} {p q : Instant → Data}

mutual

/-- Renderings of one value descend from one another, whatever the names and the places. -/
theorem Fit.relate (hR : Descends R) (hplace : ∀ t, R (p t) (q t)) {α : Type} {form : Form α}
    {s : Schema} (fit : Fit r form s) (a : α) :
    R (fit.render d.sourceName p a) (fit.render e.sourceName q a) :=
  match fit, a with
  | .text, t => hR.same (.string t)
  | .flag, b => hR.same (.bool b)
  | .number, n => hR.same (.number n)
  | .anything, vs => hR.same (.array (vs.map Json.lift))
  | .list fit, xs => by
      refine hR.array ?_
      rw [List.forall₂_map_left_iff, List.forall₂_map_right_iff, List.forall₂_same]
      exact fun x _ => fit.relate hR hplace x
  | .word spell _ _, a => hR.same (.string (spell a))
  | .reference _ fit, a => fit.relate hR hplace a
  | .record _ split _ _ hwire hinternal fit, a => by
      have hrows : List.Forall₂ (fun m n : String × Data => R m.2 n.2)
          (Engine.present ((fit.rows d.sourceName p (split a)).map fun w =>
            (d.sourceName w.1, w.2)))
          (Engine.present ((fit.rows e.sourceName q (split a)).map fun w =>
            (e.sourceName w.1, w.2))) := by
        refine Engine.forall₂_present ?_
        rw [List.forall₂_map_left_iff, List.forall₂_map_right_iff]
        exact fit.relate hR hplace (split a)
      -- the members stand in pairs, so each one on the right has one on the left
      refine hR.object ?_ fun n hn => exists_mem_of_forall₂ hrows hn
      exact (Engine.keys_present_sublist _).nodup (fit.nodup_keys hwire hinternal e q _)

theorem FieldsFit.relate (hR : Descends R) (hplace : ∀ t, R (p t) (q t)) {ρ : Type}
    {fields : Fields ρ} {properties : List (Property Schema)}
    (fit : FieldsFit r properties fields) (x : ρ) :
    List.Forall₂ (fun v w => Option.Rel R v.2 w.2) (fit.rows d.sourceName p x)
      (fit.rows e.sourceName q x) :=
  match fit, x with
  | .nil, _ => .nil
  | .required _ fit others, (a, x) => .cons (.some (fit.relate hR hplace a))
      (others.relate hR hplace x)
  | .nullable _ _ others, (t, x) => by
      refine .cons (.some ?_) (others.relate hR hplace x)
      cases t with
      | none => exact hR.same .null
      | some t => exact hplace t
  | .omittable _ _ others, (t, x) => by
      refine .cons ?_ (others.relate hR hplace x)
      cases t with
      | none => exact .none
      | some t => exact .some (hplace t)

end

end

end Agenda
