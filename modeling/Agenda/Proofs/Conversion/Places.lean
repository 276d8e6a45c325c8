/-
Normalization, place by place.

A path leads to a place in a value, and to what stands there. In a value and its normalization the
same places are taken, and the same stands there: the same scalar, an array of the same length, an
object with the same keys. The exception are places of timestamps. Which places those are can be
read off the schema: a trail is a path with the positions in arrays left open, and the trails that
lead to timestamps are collected by a walk through the registry.
-/
import Agenda.Document.Form
import Agenda.Proofs.Conversion.Normalize

set_option autoImplicit false

namespace Agenda

/-! ## Places -/

namespace Value

variable {α : Type}

/-- The part of a value that one step leads to. -/
def step? : Value α → Step → Option (Value α)
  | array items, .index i => items[i]?
  | object members, .key name => Table.find? members name
  | _, _ => none

/-- The part of a value that a path leads to. -/
def at? : Value α → Path → Option (Value α)
  | v, [] => some v
  | v, step :: path => (v.step? step).bind fun u => u.at? path

theorem at?_key {members : Table (Value α)} {name : String} {v : Value α}
    (h : Table.find? members name = some v) (path : Path) :
    (object members).at? (.key name :: path) = v.at? path := by
  rw [at?, step?, h, Option.bind_some]

theorem at?_index {items : List (Value α)} {i : Nat} {v : Value α} (h : items[i]? = some v)
    (path : Path) : (array items).at? (.index i :: path) = v.at? path := by
  rw [at?, step?, h, Option.bind_some]

end Value

/-- Two values are the same as far as they can be told without looking at their parts: equal
scalars, arrays of one length, or objects with the same keys. -/
def SameNode : Json → Json → Prop
  | .array vs, .array ws => vs.length = ws.length
  | .object ms, .object ns => (Table.keys ms).Perm (Table.keys ns)
  | v, w => v = w

/-- A text is replaced by the canonical text of the instant that it denotes, and null stays. -/
def Respelled (v w : Json) : Prop :=
  (v = .null ∧ w = .null) ∨
    ∃ text t, v = .string text ∧ Timestamp.read? text = some t ∧ w = .string (Data.spell t)

theorem SameNode.refl (v : Json) : SameNode v v := by
  cases v <;> simp [SameNode]

/-! ## Trails -/

/-- A step that leaves open which element of an array it goes to. -/
inductive Mark where
  | key (name : String)
  | each
deriving DecidableEq

/-- The step is one that the mark allows. -/
def Mark.Allows : Mark → Step → Prop
  | key name, .key other => name = other
  | each, .index _ => True
  | _, _ => False

/-- A path with the positions in arrays left open. -/
abbrev Trail := List Mark

/-- A path goes along a trail. -/
def Trail.Allows (trail : Trail) (path : Path) : Prop := List.Forall₂ Mark.Allows trail path

namespace Registry

variable {r : Registry}

/-- The schema that a reference stands for; other schemas stand for themselves. -/
def resolve (r : Registry) : Schema → Schema
  | .reference name => (r.find? name).getD (.reference name)
  | s => s

/-- The schema of the parts of a value to which a mark leads. -/
def inside? (r : Registry) (s : Schema) (mark : Mark) : Option Schema :=
  match r.resolve s, mark with
  | .array element, .each => some element
  | .object properties additional, .key name => memberSchema? properties additional name
  | _, _ => none

/-- The schema at the end of a trail, if the trail goes through no union. -/
def along? (r : Registry) : Schema → Trail → Option Schema
  | s, [] => some s
  | s, mark :: trail => (r.inside? s mark).bind fun t => r.along? t trail

end Registry

namespace Normalizes

variable {r : Registry} {s t : Schema} {v w : Json}

/-- What holds under a reference holds under the schema that it stands for. -/
theorem of_resolve (h : Normalizes r s v w) : Normalizes r (r.resolve s) v w := by
  cases s with
  | reference name =>
      cases h with
      | reference hname h =>
          rw [Registry.resolve, hname]
          exact h
  | _ => exact h

/-- One step leads to values that normalize as well, or to none. -/
theorem rel_step (h : Normalizes r s v w) {mark : Mark} {step : Step} (hstep : mark.Allows step)
    (ht : r.inside? s mark = some t) :
    Option.Rel (Normalizes r t) (v.step? step) (w.step? step) := by
  have hresolve := h.of_resolve
  rw [Registry.inside?.eq_def] at ht
  generalize r.resolve s = u at hresolve ht
  split at ht
  · obtain rfl := Option.some.inj ht
    cases step with
    | key name => exact hstep.elim
    | index i =>
        cases hresolve with
        | array hlength hitems =>
            refine optionRel_iff.2 ⟨?_, hitems i⟩
            rw [Value.step?, Value.step?, isSome_getElem?_of_length hlength i]
  · cases step with
    | key name =>
        obtain rfl : _ = name := hstep
        cases hresolve with
        | object _ hkeys _ hmembers =>
            refine optionRel_iff.2 ⟨?_, fun v w => hmembers _ _ v w ht⟩
            rw [Value.step?, Value.step?, Bool.eq_iff_iff, Table.isSome_find?_iff,
              Table.isSome_find?_iff, hkeys.mem_iff]
    | index i => exact hstep.elim
  · cases ht

/-- So does a path along a trail. -/
theorem rel_along (h : Normalizes r s v w) {trail : Trail} {path : Path} (hpath : trail.Allows path)
    (ht : r.along? s trail = some t) : Option.Rel (Normalizes r t) (v.at? path) (w.at? path) := by
  induction hpath generalizing s v w with
  | nil =>
      obtain rfl := Option.some.inj ht
      exact .some h
  | @cons mark step trail path hstep _ ih =>
      obtain ⟨u, hu, ht⟩ := Option.bind_eq_some_iff.1 ht
      exact optionRel_bind (h.rel_step hstep hu) fun v' w' h' => ih h' ht

/-- A timestamp is respelled. -/
theorem respelled (h : Normalizes r (.kind .timestamp) v w) : Respelled v w := by
  cases h with
  | kind hk => exact absurd rfl hk
  | null => exact .inl ⟨rfl, rfl⟩
  | instant h => exact .inr ⟨_, _, rfl, h, rfl⟩

/-- So is one that may be missing, where it is there. -/
theorem respelled_of_optional (h : Normalizes r (.optional (.kind .timestamp)) v w) :
    Respelled v w := by
  cases h with
  | candidate hc h =>
      rcases List.mem_cons.1 hc with rfl | hc
      · cases h with
        | kind _ h => cases h
      · obtain rfl := List.mem_singleton.1 hc
        exact h.respelled

/-- What has no parts and is no timestamp stays as it is. -/
theorem eq_of_kind {k : Kind} (h : Normalizes r (.kind k) v w) (hk : k ≠ .timestamp) : v = w := by
  cases h with
  | kind => rfl
  | null => exact absurd rfl hk
  | instant => exact absurd rfl hk

/-- An array of arbitrary values stays as it is. -/
theorem eq_of_anything (h : Normalizes r (.array (.kind .any)) v w) : v = w := by
  cases h with
  | array hlength h =>
      refine congrArg Value.array (List.ext_getElem hlength fun i hv hw => ?_)
      exact (h i _ _ (List.getElem?_eq_getElem hv) (List.getElem?_eq_getElem hw)).eq_of_kind
        (by decide)

end Normalizes

/-! ## The places of timestamps -/

/-- A timestamp may stand at the end of a path. -/
inductive Timed (r : Registry) : Schema → Path → Prop where
  | here : Timed r (.kind .timestamp) []
  | element {s : Schema} {i : Nat} {path : Path} (h : Timed r s path) :
      Timed r (.array s) (.index i :: path)
  | member {properties : List (Property Schema)} {additional : Option Schema} {key : String}
      {s : Schema} {path : Path} (hs : memberSchema? properties additional key = some s)
      (h : Timed r s path) : Timed r (.object properties additional) (.key key :: path)
  | candidate {candidates : List Schema} {c : Schema} {path : Path} (hc : c ∈ candidates)
      (h : Timed r c path) : Timed r (.union candidates) path
  | reference {name : String} {s : Schema} {path : Path} (hname : r.find? name = some s)
      (h : Timed r s path) : Timed r (.reference name) path

theorem rel_sameNode_refl (v : Option Json) : Option.Rel SameNode v v := by
  cases v with
  | none => exact .none
  | some v => exact .some (SameNode.refl v)

/-- Everywhere else the same stands in a value and its normalization. -/
theorem Normalizes.rel_sameNode {r : Registry} {s : Schema} {v w : Json} (h : Normalizes r s v w)
    {path : Path} (hpath : ¬ Timed r s path) : Option.Rel SameNode (v.at? path) (w.at? path) := by
  induction h generalizing path with
  | kind => exact rel_sameNode_refl _
  | null => exact rel_sameNode_refl _
  | instant =>
      cases path with
      | nil => exact absurd .here hpath
      | cons step path => cases step <;> exact .none
  | literals => exact rel_sameNode_refl _
  | @array _ vs ws hlength _ ih =>
      match path with
      | [] => exact .some hlength
      | .key name :: path => exact .none
      | .index i :: path =>
          refine optionRel_bind (P := fun v w => vs[i]? = some v ∧ ws[i]? = some w) ?_ ?_
          · exact optionRel_iff.2
              ⟨isSome_getElem?_of_length hlength i, fun v w hv hw => ⟨hv, hw⟩⟩
          rintro v w ⟨hv, hw⟩
          exact ih i v w hv hw fun h => hpath (.element h)
  | candidate hc _ ih => exact ih fun h => hpath (.candidate hc h)
  | @object _ _ ms ns _ hkeys hallowed _ ih =>
      match path with
      | [] => exact .some hkeys
      | .index i :: path => exact .none
      | .key name :: path =>
          have hmember : (Table.find? ms name).isSome = (Table.find? ns name).isSome := by
            rw [Bool.eq_iff_iff, Table.isSome_find?_iff, Table.isSome_find?_iff, hkeys.mem_iff]
          refine optionRel_bind
            (P := fun v w => Table.find? ms name = some v ∧ Table.find? ns name = some w) ?_ ?_
          · exact optionRel_iff.2 ⟨hmember, fun v w hv hw => ⟨hv, hw⟩⟩
          rintro v w ⟨hv, hw⟩
          obtain ⟨s, hs⟩ := Option.isSome_iff_exists.1
            (hallowed name (Table.isSome_find?_iff.1 (hv ▸ rfl)))
          exact ih name s v w hs hv hw fun h => hpath (.member hs h)
  | reference hname _ ih => exact ih fun h => hpath (.reference hname h)

/-! ## The trails to timestamps -/

namespace Schema

section

variable (jump : String → Option (List Trail))

mutual

/-- The trails to the timestamps in a schema, given those of the names in it. Where members under
any name are allowed, no trails are given. -/
def trailsVia : Schema → Option (List Trail)
  | kind k => some (if k = .timestamp then [[]] else [])
  | literals _ _ => some []
  | array element => do
    let trails ← trailsVia element
    some (trails.map (Mark.each :: ·))
  | union candidates => trailsOfAll candidates
  | object properties none => trailsOfProperties properties
  | object _ (some _) => none
  | reference name => jump name

/-- The trails in each of several schemas. -/
def trailsOfAll : List Schema → Option (List Trail)
  | [] => some []
  | s :: rest => do
    let first ← trailsVia s
    let others ← trailsOfAll rest
    some (first ++ others)

/-- The trails in the schemas of properties, each behind its wire name. -/
def trailsOfProperties : List (Property Schema) → Option (List Trail)
  | [] => some []
  | p :: rest => do
    let first ← trailsVia p.schema
    let others ← trailsOfProperties rest
    some (first.map (Mark.key p.wireName :: ·) ++ others)

end

variable {jump} {trails : List Trail}

theorem exists_trailsVia_of_mem {candidates : List Schema}
    (h : trailsOfAll jump candidates = some trails) {c : Schema} (hc : c ∈ candidates) :
    ∃ inner, c.trailsVia jump = some inner ∧ ∀ trail ∈ inner, trail ∈ trails := by
  induction candidates generalizing trails with
  | nil => cases hc
  | cons s rest ih =>
      obtain ⟨first, hfirst, h⟩ := Option.bind_eq_some_iff.1 h
      obtain ⟨others, hothers, heq⟩ := Option.bind_eq_some_iff.1 h
      obtain rfl := Option.some.inj heq
      rcases List.mem_cons.1 hc with rfl | hc
      · exact ⟨first, hfirst, fun trail ht => List.mem_append_left _ ht⟩
      · obtain ⟨inner, hinner, hall⟩ := ih hothers hc
        exact ⟨inner, hinner, fun trail ht => List.mem_append_right _ (hall trail ht)⟩

theorem exists_trailsVia_of_property {properties : List (Property Schema)}
    (h : trailsOfProperties jump properties = some trails) {p : Property Schema}
    (hp : p ∈ properties) :
    ∃ inner, p.schema.trailsVia jump = some inner ∧
      ∀ trail ∈ inner, Mark.key p.wireName :: trail ∈ trails := by
  induction properties generalizing trails with
  | nil => cases hp
  | cons q rest ih =>
      obtain ⟨first, hfirst, h⟩ := Option.bind_eq_some_iff.1 h
      obtain ⟨others, hothers, heq⟩ := Option.bind_eq_some_iff.1 h
      obtain rfl := Option.some.inj heq
      rcases List.mem_cons.1 hp with rfl | hp
      · exact ⟨first, hfirst, fun trail ht =>
          List.mem_append_left _ (List.mem_map.2 ⟨trail, ht, rfl⟩)⟩
      · obtain ⟨inner, hinner, hall⟩ := ih hothers hp
        exact ⟨inner, hinner, fun trail ht => List.mem_append_right _ (hall trail ht)⟩

end

end Schema

/-- Where no other members are allowed, a member is that of a property. -/
theorem exists_property_of_memberSchema? {properties : List (Property Schema)} {key : String}
    {s : Schema} (h : memberSchema? properties none key = some s) :
    ∃ p ∈ properties, p.wireName = key ∧ p.schema = s := by
  rw [memberSchema?] at h
  cases hfind : properties.find? fun p => p.wireName = key with
  | none =>
      rw [hfind] at h
      cases h
  | some p =>
      rw [hfind] at h
      exact ⟨p, List.mem_of_find?_eq_some hfind, by simpa using List.find?_some hfind,
        Option.some.inj h⟩

namespace Registry

/-- The trails to the timestamps under a name, through at most so many names one behind the other;
none if that is not enough. -/
def trailsUnder? (r : Registry) : Nat → String → Option (List Trail)
  | 0, _ => none
  | left + 1, name => (r.find? name).bind (Schema.trailsVia (r.trailsUnder? left))

variable {r : Registry} {budget : Nat}

/-- Every path to a timestamp goes along one of the trails. -/
theorem exists_trail_of_timed {s : Schema} {trails : List Trail} {path : Path}
    (htrails : s.trailsVia (r.trailsUnder? budget) = some trails) (h : Timed r s path) :
    ∃ trail ∈ trails, trail.Allows path := by
  induction h generalizing budget trails with
  | here =>
      obtain rfl := Option.some.inj htrails
      exact ⟨[], List.mem_singleton.2 rfl, .nil⟩
  | element _ ih =>
      obtain ⟨inner, hinner, heq⟩ := Option.bind_eq_some_iff.1 htrails
      obtain rfl := Option.some.inj heq
      obtain ⟨trail, hmem, hpath⟩ := ih hinner
      exact ⟨_, List.mem_map.2 ⟨trail, hmem, rfl⟩, .cons trivial hpath⟩
  | @member _ additional _ _ _ hs _ ih =>
      cases additional with
      | some extra => cases htrails
      | none =>
          obtain ⟨p, hp, rfl, rfl⟩ := exists_property_of_memberSchema? hs
          obtain ⟨inner, hinner, hall⟩ := Schema.exists_trailsVia_of_property htrails hp
          obtain ⟨trail, hmem, hpath⟩ := ih hinner
          exact ⟨_, hall trail hmem, .cons rfl hpath⟩
  | candidate hc _ ih =>
      obtain ⟨inner, hinner, hall⟩ := Schema.exists_trailsVia_of_mem htrails hc
      obtain ⟨trail, hmem, hpath⟩ := ih hinner
      exact ⟨trail, hall trail hmem, hpath⟩
  | reference hname _ ih =>
      cases budget with
      | zero => cases htrails
      | succ left =>
          rw [Schema.trailsVia, trailsUnder?, hname] at htrails
          exact ih htrails

end Registry

end Agenda
