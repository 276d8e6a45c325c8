/-
A registry with more schemas.

The engine looks a name up each time that it comes upon one, so in principle every schema of a
registry has a say in every conversion. But in a registry without dangling references a conversion
that begins with a registered name never comes upon any but registered names, and each round of the
recursion asks for parts of the registry only. What is registered besides them is not looked at. It
need not be in order either: the new schemas may lead back to themselves, as long as the old ones do
not, so a larger registry is acyclic only as far as the old names lead.
-/
import Agenda.Proofs.Conversion.Opposite
import Agenda.Proofs.Conversion.Steps

set_option autoImplicit false

namespace Agenda

namespace Registry

variable {small big r : Registry}

/-- A registry has all the schemas of another one under the same names. -/
def Extends (big small : Registry) : Prop :=
  ∀ name s, small.find? name = some s → big.find? name = some s

/-- Every reference in a registry resolves. -/
def Closed (r : Registry) : Prop := ∀ name, r.Part (.reference name) → name ∈ r.names

/-- Where no reference is reported, there is none that leads out of the registry. -/
theorem closed_of_not_dangling
    (h : ∀ owner target, Issue.danglingReference owner target ∉ r.issues) : r.Closed :=
  fun _ hpart => mem_names_iff.2 (hpart.resolves h)

/-- The old names lead to the same names as before, and to no others. -/
theorem Extends.leads (hext : big.Extends small) (hclosed : small.Closed) {a b : String}
    (ha : a ∈ small.names) (hab : big.Leads a b) : small.Leads a b ∧ b ∈ small.names := by
  obtain ⟨s, hs⟩ := mem_names_iff.1 ha
  obtain ⟨t, ht, hb⟩ := hab
  obtain rfl : s = t := Option.some.inj ((hext a s hs).symm.trans ht)
  exact ⟨⟨s, hs, hb⟩, hclosed b ((Part.registered hs).of_mem_exposed hb)⟩

theorem Extends.chain (hext : big.Extends small) (hclosed : small.Closed) {a b : String}
    (ha : a ∈ small.names) (hab : Relation.TransGen big.Leads a b) :
    Relation.TransGen small.Leads a b ∧ b ∈ small.names := by
  induction hab with
  | single hab =>
      obtain ⟨hab, hb⟩ := hext.leads hclosed ha hab
      exact ⟨.single hab, hb⟩
  | tail _ hbc ih =>
      obtain ⟨hbc, hc⟩ := hext.leads hclosed ih.2 hbc
      exact ⟨ih.1.tail hbc, hc⟩

/-- Whatever is registered besides them, the names of an acyclic registry lead to no cycle. -/
theorem Extends.grounded (hext : big.Extends small) (hacyclic : small.Acyclic)
    (hclosed : small.Closed) {name : String} (hname : name ∈ small.names) : big.Grounded name := by
  intro n hreach hcycle
  have hn : n ∈ small.names := by
    rcases Relation.reflTransGen_iff_eq_or_transGen.1 hreach with rfl | hchain
    · exact hname
    · exact (hext.chain hclosed hname hchain).2
  exact hacyclic n (hext.chain hclosed hn hcycle).1

/-- A new name comes last. -/
theorem names_register {n : String} (hn : n ∉ r.names) (node : Schema) :
    (r.register n node).names = r.names ++ [n] := by
  have hkeys : n ∉ Table.keys r.schemas := hn
  rw [names, register, Table.keys_insert, if_neg hkeys]
  rfl

/-- The old names keep their schemas. -/
theorem extends_register {n : String} (hn : n ∉ r.names) (node : Schema) :
    (r.register n node).Extends r := by
  intro name s hs
  have hne : name ≠ n := by
    rintro rfl
    exact hn (mem_names_iff.2 ⟨s, hs⟩)
  rwa [find?, register, Table.find?_insert_of_ne _ _ hne]

end Registry

namespace Engine

variable {small big r : Registry} {d : Direction} {owner : Option String} {x : Option Data}
  {site : Site}

/-- A script comes to the same result with two ways of converting that agree on what it asks for. -/
theorem Script.run_congr {f g : Option String → Option Data → Site → Schema → Converted}
    {P : Option Data → Schema → Prop} {script : Script} (hscript : script.Only P)
    (hfg : ∀ owner x site s, P x s → f owner x site s = g owner x site s)
    (hanswers : ∀ owner x site s, Answers (g owner x site s)) : script.run f = script.run g := by
  induction script with
  | done result => rfl
  | call owner x site s next ih =>
      rw [Script.run, Script.run, hfg owner x site s hscript.1]
      exact ih _ (hscript.2 _ (hanswers owner x site s))

/-- One round of the recursion is the same over both registries. -/
theorem body_eq (hext : big.Extends small) {s : Schema}
    (hs : ∀ name, s = .reference name → name ∈ small.names) :
    body big d owner x site s = body small d owner x site s := by
  cases s with
  | reference name =>
      obtain ⟨t, ht⟩ := Registry.mem_names_iff.1 (hs name rfl)
      rw [body, body, ht, hext name t ht]
  | _ => rfl

/-- Under the parts of a closed and acyclic registry values are converted as over that registry. -/
theorem convertUnder_eq (hext : big.Extends small) (hacyclic : small.Acyclic)
    (hclosed : small.Closed) {s : Schema} (hs : small.Part s) :
    convertUnder big d owner x site s = convertUnder small d owner x site s := by
  induction x, s using body_induction (d := d) hacyclic generalizing owner site with
  | step x s ih =>
      have hname : ∀ name, s = .reference name → name ∈ small.names := by
        rintro name rfl
        exact hclosed name hs
      have hgrounded : ∀ name, s = .reference name → big.Grounded name := fun name h =>
        hext.grounded hacyclic hclosed (hname name h)
      rw [convertUnder_eq_run_of_grounded owner x site hgrounded, convertUnder_eq_run hacyclic,
        body_eq hext hname]
      refine Script.run_congr (ih owner site) ?_ (answers_convertUnder hacyclic)
      rintro owner y site t ⟨hyt, hpart⟩
      exact hyt (hpart hs)

/-- A run under an old name is a run over the old registry. -/
theorem run_eq (hext : big.Extends small) (hacyclic : small.Acyclic) (hclosed : small.Closed)
    {name : String} (hname : name ∈ small.names) (v : Data) :
    run big d name v = run small d name v := by
  obtain ⟨s, hs⟩ := Registry.mem_names_iff.1 hname
  rw [run, run, convert_eq_convertUnder, convert_eq_convertUnder,
    convertUnder_reference_of_grounded (hext.grounded hacyclic hclosed hname) (hext name s hs),
    convertUnder_reference hacyclic hs, convertUnder_eq hext hacyclic hclosed (.registered hs)]

/-- Registering a schema under a new name puts the name behind the others, and changes neither what
values are converted to under these nor why they are not. -/
theorem register_keeps_runs
    (hissues : ∀ owner target, Issue.danglingReference owner target ∉ r.issues)
    (hacyclic : r.Acyclic) {n : String} (hn : n ∉ r.names) (node : Schema) :
    (r.register n node).names = r.names ++ [n] ∧
      ∀ name ∈ r.names, ∀ v, cast (r.register n node) name v = cast r name v ∧
        uncast (r.register n node) name v = uncast r name v := by
  have hext := Registry.extends_register hn node
  have hclosed := Registry.closed_of_not_dangling hissues
  refine ⟨Registry.names_register hn node, fun name hname v => ⟨?_, ?_⟩⟩
  · exact run_eq hext hacyclic hclosed hname v
  · exact run_eq hext hacyclic hclosed hname v

/-- A name that leads back to itself does not disturb a journey, although a conversion by that name
would never end. -/
theorem journey_register_keeps_runs :
    (journey.register "Loop" (.reference "Loop")).names = ["Stop", "Loop"] ∧
      cast (journey.register "Loop" (.reference "Loop")) "Stop" twoStops =
        cast journey "Stop" twoStops ∧
      uncast (journey.register "Loop" (.reference "Loop")) "Stop" twoStops =
        uncast journey "Stop" twoStops := by
  have hissues : journey.issues = [] := by decide +kernel
  obtain ⟨hnames, hruns⟩ := register_keeps_runs (r := journey) (n := "Loop")
    (fun _ _ => by simp [hissues]) journey_acyclic (by decide) (.reference "Loop")
  exact ⟨hnames, hruns "Stop" (by decide) twoStops⟩

end Engine

end Agenda
