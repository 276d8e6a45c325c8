/-
Registries in which no schema leads back to itself.

References and unions keep the value and walk the schemas, so the only recursion that no value
bounds is a chain of names. In an acyclic registry every chain ends: a name has a height, the number
of registered names that it leads to, which drops along every step and stays below the size of the
registry. That gives an induction over schemas that goes through references. For a single name it is
enough that what it leads to is free of cycles, whatever else is registered.
-/
import Agenda.Proofs.Schema.Sound
import Mathlib.Data.Finset.Card
import Mathlib.Data.Finset.Dedup
import Mathlib.Logic.Relation

set_option autoImplicit false

namespace Agenda

/-! ## Where a schema leads -/

namespace Schema

mutual

/-- The names that a schema leads to without looking into a value. -/
def exposed : Schema → List String
  | reference name => [name]
  | union candidates => exposedByAll candidates
  | _ => []

/-- The names that several schemas lead to. -/
def exposedByAll : List Schema → List String
  | [] => []
  | s :: rest => exposed s ++ exposedByAll rest

end

@[simp] theorem exposed_reference (name : String) : (reference name).exposed = [name] := by
  rw [exposed]

theorem mem_exposed_union {candidates : List Schema} {name : String} :
    name ∈ (union candidates).exposed ↔ ∃ c ∈ candidates, name ∈ c.exposed := by
  rw [exposed]
  induction candidates with
  | nil => simp [exposedByAll]
  | cons c rest ih => rw [exposedByAll, List.mem_append, ih, List.exists_mem_cons_iff]

end Schema

namespace Registry

/-- The names that a part leads to are referred to in the registry. -/
theorem Part.of_mem_exposed {r : Registry} {s : Schema} (hs : r.Part s) {name : String}
    (hname : name ∈ s.exposed) : r.Part (.reference name) := by
  induction s with
  | union candidates ih =>
      obtain ⟨c, hc, hname⟩ := Schema.mem_exposed_union.1 hname
      exact ih c hc (hs.candidate hc) hname
  | reference other =>
      rw [Schema.exposed_reference, List.mem_singleton] at hname
      exact hname ▸ hs
  | _ => simp [Schema.exposed] at hname

/-- A name leads to the names that its schema exposes. -/
def Leads (r : Registry) (a b : String) : Prop := ∃ s, r.find? a = some s ∧ b ∈ s.exposed

/-- No schema leads back to itself through references and unions alone. -/
def Acyclic (r : Registry) : Prop := ∀ name, ¬ Relation.TransGen r.Leads name name

/-- Nothing that a name leads to leads back to itself. -/
def Grounded (r : Registry) (name : String) : Prop :=
  ∀ n, Relation.ReflTransGen r.Leads name n → ¬ Relation.TransGen r.Leads n n

theorem Acyclic.grounded {r : Registry} (hr : r.Acyclic) (name : String) : r.Grounded name :=
  fun n _ => hr n

theorem Grounded.not_leads_back {r : Registry} {name : String} (h : r.Grounded name) :
    ¬ Relation.TransGen r.Leads name name := h name .refl

theorem Grounded.step {r : Registry} {a b : String} (h : r.Grounded a) (hab : r.Leads a b) :
    r.Grounded b := fun n hn => h n (.head hab hn)

/-- A registry is acyclic if names can be ranked so that every step leads down. -/
theorem acyclic_of_rank {r : Registry} (rank : String → Nat)
    (h : ∀ p ∈ r.schemas, ∀ name ∈ p.2.exposed, rank name < rank p.1) : r.Acyclic := by
  have hstep : ∀ a b, r.Leads a b → rank b < rank a := by
    rintro a b ⟨s, hs, hb⟩
    exact h (a, s) (Table.mem_of_find? hs) b hb
  have hchain : ∀ a b, Relation.TransGen r.Leads a b → rank b < rank a := by
    intro a b hab
    induction hab with
    | single hab => exact hstep _ _ hab
    | tail _ hbc ih => exact Nat.lt_trans (hstep _ _ hbc) ih
  exact fun name hname => Nat.lt_irrefl _ (hchain _ _ hname)

/-! ## Heights -/

section

variable {r : Registry}

open Classical in
/-- The registered names that a name leads to. -/
noncomputable def below (r : Registry) (name : String) : Finset String :=
  r.names.toFinset.filter fun n => Relation.TransGen r.Leads name n

/-- The number of registered names that a name leads to. -/
noncomputable def height (r : Registry) (name : String) : Nat := (r.below name).card

theorem mem_below {name n : String} :
    n ∈ r.below name ↔ n ∈ r.names ∧ Relation.TransGen r.Leads name n := by
  classical
  rw [below, Finset.mem_filter, List.mem_toFinset]

/-- Every step from a grounded name to a registered one leads down. -/
theorem height_lt {a b : String} (ha : r.Grounded a) (hab : r.Leads a b) (hb : b ∈ r.names) :
    r.height b < r.height a := by
  refine Finset.card_lt_card (Finset.ssubset_iff_of_subset ?_ |>.2 ⟨b, ?_, ?_⟩)
  · intro n hn
    rw [mem_below] at hn ⊢
    exact ⟨hn.1, Relation.TransGen.head hab hn.2⟩
  · exact mem_below.2 ⟨hb, Relation.TransGen.single hab⟩
  · exact fun hbb => (ha.step hab).not_leads_back (mem_below.1 hbb).2

/-- A grounded name does not lead to itself, so its height stays below the size. -/
theorem height_lt_size {name : String} (hground : r.Grounded name) (hname : name ∈ r.names) :
    r.height name < r.size := by
  have hsub : r.below name ⊂ r.names.toFinset := by
    refine Finset.ssubset_iff_of_subset ?_ |>.2 ⟨name, List.mem_toFinset.2 hname, ?_⟩
    · exact fun n hn => List.mem_toFinset.2 (mem_below.1 hn).1
    · exact fun hbelow => hground.not_leads_back (mem_below.1 hbelow).2
  calc r.height name < r.names.toFinset.card := Finset.card_lt_card hsub
    _ ≤ r.names.length := List.toFinset_card_le _
    _ = r.size := by rw [Registry.names, Table.keys, List.length_map, Registry.size]

/-! ## Induction through references -/

/-- Over an acyclic registry, what holds of a union if it holds of its candidates, and of a
reference if it holds of the schema under its name, holds of every schema; nothing is known of what
stands inside arrays and objects. -/
@[elab_as_elim]
theorem Acyclic.induction {motive : Schema → Prop} (hr : r.Acyclic)
    (kind : ∀ k, motive (.kind k))
    (literals : ∀ words distinct, motive (.literals words distinct))
    (array : ∀ element, motive (.array element))
    (union : ∀ candidates, (∀ c ∈ candidates, motive c) → motive (.union candidates))
    (object : ∀ properties additional, motive (.object properties additional))
    (reference : ∀ name, (∀ s, r.find? name = some s → motive s) → motive (.reference name))
    (s : Schema) : motive s := by
  -- the induction is on a bound for the heights of the names that a schema exposes
  have hbound : ∀ (k : Nat) (s : Schema),
      (∀ n ∈ s.exposed, n ∈ r.names → r.height n < k) → motive s := by
    intro k
    induction k using Nat.strong_induction_on with
    | _ k ihk =>
        intro s hs
        induction s with
        | kind k => exact kind k
        | literals words distinct => exact literals words distinct
        | array element _ => exact array element
        | union candidates ih =>
            refine union candidates fun c hc => ih c hc fun n hn hname => ?_
            exact hs n (Schema.mem_exposed_union.2 ⟨c, hc, hn⟩) hname
        | object properties additional _ _ => exact object properties additional
        | reference name =>
            refine reference name fun t ht => ?_
            have hname : r.height name < k := hs name (by simp) (mem_names_iff.2 ⟨t, ht⟩)
            exact ihk _ hname t fun n hn hn' => height_lt (hr.grounded name) ⟨t, ht, hn⟩ hn'
  exact hbound r.size s fun n _ hname => height_lt_size (hr.grounded n) hname

end

end Registry

end Agenda
