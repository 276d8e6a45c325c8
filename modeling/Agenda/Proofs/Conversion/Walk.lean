/-
Conversion without a budget.

The engine follows references through at most as many names as the registry has. Over an acyclic
registry that bound is never met, and what a schema makes of a value obeys the equations one would
write down first: a reference is converted like the schema under its name, a union like its first
candidate that does not reject, and everything else as it looks. This file proves those equations;
no later proof mentions the budget.
-/
import Agenda.Conversion.Engine
import Agenda.Proofs.Schema.Acyclic
import Agenda.Proofs.Value

set_option autoImplicit false

namespace Agenda.Engine

variable {r : Registry} {d : Direction}

/-! ## Subjects -/

/-- A value, or its absence, with an attempt for each of its parts. -/
def subject (r : Registry) (d : Direction) : Option Data → Subject
  | none => .absent
  | some (.array items) => .array items (convertItems r d items)
  | some (.object members) => .object members (convertMembers r d members)
  | some v => .scalar v

@[simp] theorem value?_subject (x : Option Data) : (subject r d x).value? = x := by
  rcases x with _ | (_ | _ | _ | _ | _ | _ | _) <;> rfl

/-- What a schema that says what a value looks like makes of a value. -/
def settle (r : Registry) (d : Direction) (x : Option Data) (site : Site) (owner : Option String)
    (s : Schema) : Converted :=
  settled d (convertAbsent r d) owner s (subject r d x) site

/-- The conversion of a value under a schema that was reached by the name `owner`. -/
def convertUnder (r : Registry) (d : Direction) (owner : Option String) (x : Option Data)
    (site : Site) (s : Schema) : Converted :=
  walk (follow r (settle r d x site) (reject (subject r d x) site) r.size) (settle r d x site)
    (reject (subject r d x) site) owner s

/-- Conversion starts under no name. For an absent value the conversion of absence that the engine
passes along is a stand-in, which nothing ever looks at. -/
theorem convert_eq_convertUnder (x : Option Data) (site : Site) (s : Schema) :
    convert r d x site s = convertUnder r d none x site s := by
  cases x with
  | none =>
      have hsettle : (fun owner s => settled d (fun site _ => reject .absent site "object") owner s
          .absent site) = settle r d none site := by
        funext owner s
        cases s <;> rfl
      rw [convert, convertAbsent, convertSubject, hsettle]
      rfl
  | some v => cases v <;> rfl

/-! ## References -/

section

variable {settle : Option String → Schema → Converted} {refuse : String → Converted}

/-- A walk asks `follow` only for the names that the schema exposes. -/
theorem walk_congr {f g : String → Converted} (owner : Option String) (s : Schema)
    (h : ∀ name ∈ s.exposed, f name = g name) :
    walk f settle refuse owner s = walk g settle refuse owner s := by
  induction s generalizing owner with
  | kind k => rfl
  | literals words distinct => rfl
  | array element _ => rfl
  | union candidates ih =>
      rw [walk, walk]
      -- `firstOf` goes along the tails, so this is stated for every part of the candidates
      have hall : ∀ (expected : String) (cs : List Schema), (∀ c ∈ cs, c ∈ candidates) →
          firstOf f settle refuse expected cs = firstOf g settle refuse expected cs := by
        intro expected cs hcs
        induction cs with
        | nil => rw [firstOf, firstOf]
        | cons c rest ihrest =>
            have hc : c ∈ candidates := hcs c List.mem_cons_self
            have hwalk := ih c hc none fun name hname =>
              h name (Schema.mem_exposed_union.2 ⟨c, hc, hname⟩)
            rw [firstOf, firstOf, hwalk, ihrest fun c' hc' => hcs c' (List.mem_cons_of_mem _ hc')]
      exact hall _ candidates fun c hc => hc
  | object properties additional _ _ => rfl
  | reference name =>
      rw [walk, walk]
      exact h name (by simp)

/-- Following a name does not depend on the budget once it exceeds the height of the name. -/
theorem follow_eq_follow (left right : Nat) (name : String) (hground : r.Grounded name)
    (hleft : name ∈ r.names → r.height name < left)
    (hright : name ∈ r.names → r.height name < right) :
    follow r settle refuse left name = follow r settle refuse right name := by
  induction left generalizing right name with
  | zero =>
      -- a name of the registry needs some budget, so without any the name is not there
      have hname : name ∉ r.names := fun hm => absurd (hleft hm) (Nat.not_lt_zero _)
      have hfind : r.find? name = none := Table.find?_eq_none_iff.2 hname
      rw [follow, follow, hfind]
  | succ left ih =>
      cases hfind : r.find? name with
      | none => rw [follow, follow, hfind]
      | some s =>
          have hname : name ∈ r.names := Registry.mem_names_iff.2 ⟨s, hfind⟩
          obtain ⟨right, rfl⟩ : ∃ k, right = k + 1 :=
            ⟨right - 1, by have := hright hname; omega⟩
          rw [follow, follow, hfind]
          -- the names in the schema are lower than the one followed, by one at least on either side
          refine walk_congr _ _ fun n hn => ih right n (hground.step ⟨s, hfind, hn⟩) ?_ ?_
          · intro hm
            have hdrop := Registry.height_lt hground ⟨s, hfind, hn⟩ hm
            have := hleft hname
            omega
          · intro hm
            have hdrop := Registry.height_lt hground ⟨s, hfind, hn⟩ hm
            have := hright hname
            omega

end

/-! ## The equations -/

variable {owner : Option String} {x : Option Data} {site : Site}

theorem convertUnder_kind (k : Kind) :
    convertUnder r d owner x site (.kind k) = kind d k (subject r d x) site := rfl

theorem convertUnder_literals (words : List String) (distinct : words.Nodup) :
    convertUnder r d owner x site (.literals words distinct) =
      literals words (Schema.literals words distinct).describe (subject r d x) site := rfl

/-- An array is converted element by element. -/
theorem convertUnder_array (element : Schema) (items : List Data) :
    convertUnder r d owner (some (.array items)) site (.array element) =
      (do
        let outs ← elements element site (convertItems r d items)
        .ok (some (.array outs))) := rfl

theorem convertUnder_array_of_ne (element : Schema) (hx : ∀ items, x ≠ some (.array items)) :
    convertUnder r d owner x site (.array element) = reject (subject r d x) site "array" := by
  rcases x with _ | (_ | _ | _ | _ | _ | items | _)
  case some.array => exact absurd rfl (hx items)
  all_goals rfl

/-- An object is converted in two runs: one over the declared properties, one over its members. -/
theorem convertUnder_object (properties : List (Property Schema)) (additional : Option Schema)
    (members : List (String × Data)) :
    convertUnder r d owner (some (.object members)) site (.object properties additional) =
      (do
        let first ← declared properties owner (convertAbsent r d) (convertMembers r d members)
          (Renaming properties d) []
        let all ← undeclared additional owner
          (fun key => (Table.find? (Renaming properties d) key).isSome) members
          (convertMembers r d members) first
        .ok (some (.object all))) := rfl

theorem convertUnder_object_of_ne (properties : List (Property Schema))
    (additional : Option Schema) (hx : ∀ members, x ≠ some (.object members)) :
    convertUnder r d owner x site (.object properties additional) =
      reject (subject r d x) site (owner.getD "object") := by
  rcases x with _ | (_ | _ | _ | _ | _ | _ | members)
  case some.object => exact absurd rfl (hx members)
  all_goals rfl

/-- A name that is not registered ends the conversion. -/
theorem convertUnder_reference_of_none {name : String} (hname : r.find? name = none) :
    convertUnder r d owner x site (.reference name) = .error (.schemaNotFound name) := by
  rw [convertUnder, walk, follow, hname]

/-- A reference is converted like the schema under its name, if that leads to no cycle. -/
theorem convertUnder_reference_of_grounded {name : String} (hground : r.Grounded name) {s : Schema}
    (hname : r.find? name = some s) :
    convertUnder r d owner x site (.reference name) = convertUnder r d (some name) x site s := by
  have hm : name ∈ r.names := Registry.mem_names_iff.2 ⟨s, hname⟩
  have hheight := Registry.height_lt_size hground hm
  obtain ⟨size, hsize⟩ : ∃ k, r.size = k + 1 := ⟨r.size - 1, by omega⟩
  rw [convertUnder, convertUnder, walk, hsize, follow, hname]
  refine walk_congr _ _ fun n hn => follow_eq_follow _ _ n (hground.step ⟨s, hname, hn⟩) ?_ ?_
  · intro hn'
    have hdrop := Registry.height_lt hground ⟨s, hname, hn⟩ hn'
    omega
  · intro hn'
    have hdrop := Registry.height_lt hground ⟨s, hname, hn⟩ hn'
    omega

theorem convertUnder_reference (hr : r.Acyclic) {name : String} {s : Schema}
    (hname : r.find? name = some s) :
    convertUnder r d owner x site (.reference name) = convertUnder r d (some name) x site s :=
  convertUnder_reference_of_grounded (hr.grounded name) hname

/-- A union asks its candidates in turn. -/
theorem convertUnder_union (candidates : List Schema) :
    convertUnder r d owner x site (.union candidates) =
      firstOf (follow r (settle r d x site) (reject (subject r d x) site) r.size)
        (settle r d x site) (reject (subject r d x) site)
        (Schema.describe (.union candidates)) candidates := rfl

end Agenda.Engine
