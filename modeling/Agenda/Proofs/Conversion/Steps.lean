/-
Conversion as a recursion that nothing bounds.

The engine carries a budget for the references that it follows, so it answers for every registry,
also for one in which a schema leads back to itself. What it stands for is a recursion without a
budget. `body` is one round of that recursion as data: a script that asks for the conversion of a
value under a schema, goes on with the result, and stops with a result of its own. A reference asks
for the schema under its name, a union asks for its candidates in turn, and arrays and objects ask
for their parts. `Ends` says that a script comes to a result after so many conversions. The
recursion need not end, and a script that goes on forever has no such derivation.

Over an acyclic registry it ends, and with the result of the engine. The value gets smaller on the
way into an array or an object; where it stays, references and unions lead down to names of less
height; and the absent value, which stands for a missing key, never gets into an array or an object.
-/
import Agenda.Proofs.Conversion.Shape
import Agenda.Proofs.Schema.Parts

set_option autoImplicit false

namespace Agenda.Engine

/-! ## Scripts -/

/-- What is left to do in a conversion: nothing but to give the result, or to have a value
converted under a schema, that was reached by the name `owner`, and to go on with what is made. -/
inductive Script where
  | done (result : Converted)
  | call (owner : Option String) (x : Option Data) (site : Site) (s : Schema)
      (next : Converted → Script)

namespace Script

/-- Has a value converted and goes on with what is made of it. A failure is passed on, as every step
of the engine but that of a union does. -/
def ask (x : Option Data) (site : Site) (s : Schema) (next : Option Data → Script) : Script :=
  .call none x site s fun
    | .ok out => next out
    | .error e => .done (.error e)

/-- The result of a script if the conversions that it asks for come out as `f` says. So a script is
one round of the recursion, with the recursive calls left open. -/
def run (f : Option String → Option Data → Site → Schema → Converted) : Script → Converted
  | .done result => result
  | .call owner x site s next => run f (next (f owner x site s))

end Script

/-! ## One round of the recursion -/

/-- A value or its absence by itself, for messages. -/
def bare : Option Data → Subject
  | none => .absent
  | some v => .scalar v

/-- The elements of an array, from the left, behind those that are converted already. -/
def elementsBody (site : Site) (element : Schema) : List Data → List Data → Script
  | outs, [] => .done (.ok (some (.array outs)))
  | outs, v :: rest =>
    .ask (some v) site element fun out => elementsBody site element (outs ++ [out.getD .null]) rest

/-- The candidates of a union. Only a rejection leads on to the next one, so this step looks at the
failure itself. -/
def candidatesBody (x : Option Data) (site : Site) (expected : String) : List Schema → Script
  | [] => .done (reject (bare x) site expected)
  | c :: rest =>
    .call none x site c fun
      | .error (.rejected _) => candidatesBody x site expected rest
      | result => .done result

/-- The members that are not declared, in the order of the object. -/
def undeclaredBody (additional : Option Schema) (owner : Option String)
    (isDeclared : String → Bool) : Table Data → Table Data → Script
  | out, [] => .done (.ok (some (.object out)))
  | out, (key, v) :: rest =>
    if isDeclared key then undeclaredBody additional owner isDeclared out rest
    else
      match additional with
      | none =>
        .done (.error (.rejected ⟨"no property with this name", some v, ⟨some key, owner⟩⟩))
      | some extra =>
        .ask (some v) ⟨some key, owner⟩ extra fun w =>
          undeclaredBody additional owner isDeclared (store out key w) rest

/-- The declared members, in the order of the renaming, and then what is left to do. -/
def declaredBody (properties : List (Property Schema)) (owner : Option String)
    (members : Table Data) (next : Table Data → Script) :
    Table Data → Table (Renamed properties.length) → Script
  | out, [] => next out
  | out, (source, renamed) :: rest =>
    .ask (Table.find? members source) ⟨some source, owner⟩ (properties.get renamed.index).schema
      fun v => declaredBody properties owner members next (store out renamed.target v) rest

/-- One round of the conversion of a value under a schema that was reached by the name `owner`. It
follows the source and knows no budget, in contrast to the engine. -/
def body (r : Registry) (d : Direction) (owner : Option String) (x : Option Data) (site : Site) :
    Schema → Script
  | .kind k => .done (kind d k (bare x) site)
  | .literals words distinct =>
    .done (literals words (Schema.literals words distinct).describe (bare x) site)
  | .array element =>
    match x with
    | some (.array items) => elementsBody site element [] items
    | _ => .done (reject (bare x) site "array")
  | .union candidates => candidatesBody x site (Schema.union candidates).describe candidates
  | .object properties additional =>
    match x with
    | some (.object members) =>
      let names := Renaming properties d
      declaredBody properties owner members
        (fun out => undeclaredBody additional owner (fun key => (Table.find? names key).isSome) out
          members) [] names
    | _ => .done (reject (bare x) site (owner.getD "object"))
  | .reference name =>
    match r.find? name with
    | none => .done (.error (.schemaNotFound name))
    | some s => .call (some name) x site s .done

/-- A script comes to a result, after so many conversions. A derivation is finite, so to have one is
to come to an end; the number only counts its steps. -/
inductive Ends (r : Registry) (d : Direction) : Script → Nat → Converted → Prop where
  | done (result : Converted) : Ends r d (.done result) 0 result
  | call {owner : Option String} {x : Option Data} {site : Site} {s : Schema}
      {next : Converted → Script} {n m : Nat} {made result : Converted}
      (h : Ends r d (body r d owner x site s) n made) (hnext : Ends r d (next made) m result) :
      Ends r d (.call owner x site s next) (n + m + 1) result

variable {r : Registry} {d : Direction} {owner : Option String} {x : Option Data} {site : Site}

/-- There is one result at most, and one number of conversions, since nothing in a round is left to
choice. -/
theorem Ends.unique {script : Script} {n n' : Nat} {result result' : Converted}
    (h : Ends r d script n result) (h' : Ends r d script n' result') :
    n = n' ∧ result = result' := by
  induction h generalizing n' result' with
  | done result =>
      cases h'
      exact ⟨rfl, rfl⟩
  | call _ _ ih ihnext =>
      cases h' with
      | call h' hnext' =>
          obtain ⟨rfl, rfl⟩ := ih h'
          obtain ⟨rfl, rfl⟩ := ihnext hnext'
          exact ⟨rfl, rfl⟩

/-- What agrees with one round of the recursion agrees with the recursion. The engine does, so its
result is that of every derivation. -/
theorem Ends.run_eq {f : Option String → Option Data → Site → Schema → Converted}
    (hf : ∀ owner x site s, f owner x site s = (body r d owner x site s).run f)
    {script : Script} {n : Nat} {result : Converted} (h : Ends r d script n result) :
    script.run f = result := by
  induction h with
  | done result => rfl
  | call _ _ ih ihnext => rw [Script.run, hf, ih, ihnext]

/-! ## The engine agrees with one round -/

@[simp] theorem value?_bare (x : Option Data) : (bare x).value? = x := by
  cases x <;> rfl

theorem reject_bare (expected : String) :
    (reject (bare x) site expected : Converted) = reject (subject r d x) site expected := by
  rw [reject, reject, value?_bare, value?_subject]

section

variable {f : Option String → Option Data → Site → Schema → Converted}

theorem run_ask {s : Schema} {next : Option Data → Script} :
    (Script.ask x site s next).run f = (f none x site s >>= fun out => (next out).run f) := by
  rw [Script.ask, Script.run]
  cases f none x site s <;> rfl

end

theorem run_elementsBody {element : Schema} {outs items : List Data} :
    (elementsBody site element outs items).run (convertUnder r d) =
      (elements element site (convertItems r d items) >>= fun rest =>
        .ok (some (.array (outs ++ rest)))) := by
  induction items generalizing outs with
  | nil => rw [elementsBody, convertItems, elements, Script.run, Result.ok_bind, List.append_nil]
  | cons v rest ih =>
      rw [elementsBody, run_ask, convertItems, elements, ← convert_eq_convertUnder]
      simp only [ih, bind_assoc, Result.ok_bind, List.append_assoc, List.singleton_append]
      rfl

/-- The engine walks along candidates and names within one call, so here its walk is compared with
the calls of the rounds. -/
theorem run_candidatesBody {expected : String} {candidates : List Schema} :
    (candidatesBody x site expected candidates).run (convertUnder r d) =
      firstOf (follow r (settle r d x site) (reject (subject r d x) site) r.size)
        (settle r d x site) (reject (subject r d x) site) expected candidates := by
  induction candidates with
  | nil => rw [candidatesBody, firstOf, Script.run, reject_bare]
  | cons c rest ih =>
      rw [candidatesBody, firstOf, Script.run, ← convertUnder, ← ih]
      -- a rejection alone leads on; the two agree on every other result
      rcases convertUnder r d none x site c with (_ | _ | _) | _ <;> rfl

theorem run_undeclaredBody {additional : Option Schema} {isDeclared : String → Bool}
    {out members : Table Data} :
    (undeclaredBody additional owner isDeclared out members).run (convertUnder r d) =
      (undeclared additional owner isDeclared members (convertMembers r d members) out >>=
        fun all => .ok (some (.object all))) := by
  induction members generalizing out with
  | nil => cases additional <;> rfl
  | cons m rest ih =>
      obtain ⟨key, v⟩ := m
      -- whether the member is declared comes first on both sides, then whether one may be surplus
      cases additional with
      | none =>
          rw [undeclaredBody.eq_def, convertMembers, undeclared]
          dsimp only
          split
          · exact ih
          · rfl
      | some extra =>
          rw [undeclaredBody.eq_def, convertMembers, undeclared]
          dsimp only
          split
          · exact ih
          · simp only [run_ask, ih, bind_assoc, ← convert_eq_convertUnder]
            rfl

/-- Declared members may be absent, and the engine converts absence by a function of its own; here
both are calls. -/
theorem run_declaredBody {properties : List (Property Schema)} {members : Table Data}
    {next : Table Data → Script} {out : Table Data} {names : Table (Renamed properties.length)} :
    (declaredBody properties owner members next out names).run (convertUnder r d) =
      (declared properties owner (convertAbsent r d) (convertMembers r d members) names out >>=
        fun out => (next out).run (convertUnder r d)) := by
  induction names generalizing out with
  | nil => rfl
  | cons entry rest ih =>
      obtain ⟨source, renamed⟩ := entry
      rw [declaredBody, declared, run_ask, attempt_eq_convert, ← convert_eq_convertUnder]
      simp only [ih, bind_assoc]
      rfl

/-- The engine does what one round of the recursion does with the engine's own results, if it is not
asked to follow a name that leads to a cycle. -/
theorem convertUnder_eq_run_of_grounded (owner : Option String) (x : Option Data) (site : Site)
    {s : Schema} (hground : ∀ name, s = .reference name → r.Grounded name) :
    convertUnder r d owner x site s = (body r d owner x site s).run (convertUnder r d) := by
  cases s with
  | kind k =>
      rw [convertUnder_kind, body, Script.run, Engine.kind, Engine.kind, timestamp, timestamp]
      simp only [value?_subject, value?_bare, ← reject_bare (r := r) (d := d)]
  | literals words distinct =>
      rw [convertUnder_literals, body, Script.run, Engine.literals, Engine.literals]
      simp only [value?_subject, value?_bare, ← reject_bare (r := r) (d := d)]
  | array element =>
      by_cases hx : ∃ items, x = some (.array items)
      · obtain ⟨items, rfl⟩ := hx
        rw [convertUnder_array, body, run_elementsBody]
        rfl
      · rw [not_exists] at hx
        rw [convertUnder_array_of_ne element hx, body, Script.run, reject_bare]
        exact hx
  | union candidates => rw [convertUnder_union, body, run_candidatesBody]
  | object properties additional =>
      by_cases hx : ∃ members, x = some (.object members)
      · obtain ⟨members, rfl⟩ := hx
        rw [convertUnder_object, body, run_declaredBody]
        simp only [run_undeclaredBody]
      · rw [not_exists] at hx
        rw [convertUnder_object_of_ne properties additional hx, body, Script.run, reject_bare]
        exact hx
  | reference name =>
      cases hname : r.find? name with
      | none =>
          rw [convertUnder_reference_of_none hname, body]
          simp only [hname, Script.run]
      | some s =>
          rw [convertUnder_reference_of_grounded (hground name rfl) hname, body]
          simp only [hname, Script.run]

/-- The engine agrees with one round of the recursion. Its budget does not show, because over an
acyclic registry it is never used up. -/
theorem convertUnder_eq_run (hr : r.Acyclic) (owner : Option String) (x : Option Data) (site : Site)
    (s : Schema) : convertUnder r d owner x site s = (body r d owner x site s).run
      (convertUnder r d) :=
  convertUnder_eq_run_of_grounded owner x site fun name _ => hr.grounded name

/-! ## The recursion ends -/

/-- The conversion did not run out of budget. -/
def Answers (result : Converted) : Prop := ∀ name, result ≠ .error (.endless name)

/-- A script asks only for conversions in `P`, and answers if those do. With this the end of a
recursion is proved of the rounds, one by one. -/
def Script.Only (P : Option Data → Schema → Prop) : Script → Prop
  | .done result => Answers result
  | .call _ x _ s next => P x s ∧ ∀ made, Answers made → Only P (next made)

section

variable {P : Option Data → Schema → Prop}

theorem answers_ok (out : Option Data) : Answers (.ok out) := fun name h => by cases h

theorem answers_reject (s : Subject) (expected : String) : Answers (reject s site expected) :=
  fun name h => by cases h

theorem only_ask {s : Schema} {next : Option Data → Script} (hs : P x s)
    (hnext : ∀ out, (next out).Only P) : (Script.ask x site s next).Only P := by
  refine ⟨hs, fun made hmade => ?_⟩
  cases made with
  | ok out => exact hnext out
  | error e => exact hmade

theorem only_elementsBody {element : Schema} {items : List Data}
    (h : ∀ v ∈ items, P (some v) element) (outs : List Data) :
    (elementsBody site element outs items).Only P := by
  induction items generalizing outs with
  | nil => exact answers_ok _
  | cons v rest ih =>
      refine only_ask (h v List.mem_cons_self) fun out => ?_
      exact ih (fun u hu => h u (List.mem_cons_of_mem _ hu)) _

theorem only_candidatesBody {expected : String} {candidates : List Schema}
    (h : ∀ c ∈ candidates, P x c) : (candidatesBody x site expected candidates).Only P := by
  induction candidates with
  | nil => exact answers_reject _ _
  | cons c rest ih =>
      refine ⟨h c List.mem_cons_self, fun made hmade => ?_⟩
      have hrest := ih fun c' hc' => h c' (List.mem_cons_of_mem _ hc')
      rcases made with (_ | _ | _) | _
      · exact hrest
      · exact hmade
      · exact hmade
      · exact hmade

theorem only_undeclaredBody {additional : Option Schema} {isDeclared : String → Bool}
    {members : Table Data} (h : ∀ m ∈ members, ∀ extra ∈ additional, P (some m.2) extra)
    (out : Table Data) : (undeclaredBody additional owner isDeclared out members).Only P := by
  induction members generalizing out with
  | nil => cases additional <;> exact answers_ok _
  | cons m rest ih =>
      obtain ⟨key, v⟩ := m
      have hrest := ih fun m hm => h m (List.mem_cons_of_mem _ hm)
      rw [undeclaredBody.eq_def]
      dsimp only
      split
      · exact hrest out
      · cases additional with
        | none => exact fun name h => by cases h
        | some extra => exact only_ask (h _ List.mem_cons_self extra rfl) fun w => hrest _

theorem only_declaredBody {properties : List (Property Schema)} {members : Table Data}
    {next : Table Data → Script} {names : Table (Renamed properties.length)}
    (h : ∀ p ∈ properties, ∀ source, P (Table.find? members source) p.schema)
    (hnext : ∀ out, (next out).Only P) (out : Table Data) :
    (declaredBody properties owner members next out names).Only P := by
  induction names generalizing out with
  | nil => exact hnext out
  | cons entry rest ih =>
      exact only_ask (h _ (List.getElem_mem _) _) fun v => ih _

/-- A script ends if the conversions do that it asks for. The number of its own steps is bounded,
since it is an ordinary tree. -/
theorem exists_ends_of_only {script : Script} (hscript : script.Only P)
    (h : ∀ owner x site s, P x s →
      ∃ n made, Ends r d (body r d owner x site s) n made ∧ Answers made) :
    ∃ n result, Ends r d script n result ∧ Answers result := by
  induction script with
  | done result => exact ⟨0, result, .done result, hscript⟩
  | call owner x site s next ih =>
      obtain ⟨n, made, hmade, hanswers⟩ := h owner x site s hscript.1
      obtain ⟨m, result, hresult, hlast⟩ := ih made (hscript.2 made hanswers)
      exact ⟨n + m + 1, result, .call hmade hresult, hlast⟩

theorem Settles.answers {result : Converted} (h : Settles result) : Answers result := by
  rintro name rfl
  rcases h with ⟨out, h⟩ | ⟨rejection, h⟩ <;> cases h

/-- A schema that says what a scalar looks like asks for nothing. -/
theorem only_body_kind (hr : r.Acyclic) (k : Kind) :
    (body r d owner x site (.kind k)).Only P := by
  have hrun := convertUnder_eq_run (d := d) hr owner x site (.kind k)
  exact (hrun ▸ settles_kind k).answers

theorem only_body_literals (hr : r.Acyclic) (words : List String) (distinct : words.Nodup) :
    (body r d owner x site (.literals words distinct)).Only P := by
  have hrun := convertUnder_eq_run (d := d) hr owner x site (.literals words distinct)
  exact (hrun ▸ settles_literals words distinct).answers

/-- An array asks for its elements, and what is no array for nothing. -/
theorem only_body_array {element : Schema} (h : ∀ y ∈ Data.parts x, P y element) :
    (body r d owner x site (.array element)).Only P := by
  rw [body.eq_def]
  dsimp only
  split
  · exact only_elementsBody (fun v hv => h _ (Data.mem_parts_of_mem_items hv)) _
  · exact answers_reject _ _

/-- An object asks for its members and for absence, and what is no object for nothing. -/
theorem only_body_object {properties : List (Property Schema)} {additional : Option Schema}
    (h : ∀ y ∈ Data.parts x, ∀ s ∈ (Schema.object properties additional).children, P y s) :
    (body r d owner x site (.object properties additional)).Only P := by
  rw [body.eq_def]
  dsimp only
  split
  · refine only_declaredBody (fun p hp source => h _ (Data.find?_mem_parts _ _) _ ?_)
      (fun out => only_undeclaredBody (fun m hm extra hextra =>
        h _ (Data.mem_parts_of_mem_members hm) _ ?_) _) _
    · exact List.mem_append_left _ (List.mem_map_of_mem hp)
    · exact List.mem_append_right _ (Option.mem_toList.2 hextra)
  · exact answers_reject _ _

/-- A reference asks for the value itself, under the schema of that name. It is the one step that
does not go down in the value, which is where cycles come from. -/
theorem only_body_reference {name : String} (h : ∀ s, r.find? name = some s → P x s) :
    (body r d owner x site (.reference name)).Only P := by
  rw [body]
  cases hname : r.find? name with
  | none => exact fun other h => by cases h
  | some s => exact ⟨h s hname, fun made hmade => hmade⟩

end

/-- Over an acyclic registry a statement about values and schemas holds in general, if it passes
from all that a round of the recursion asks for to what it is about. Parts only ask for parts. -/
theorem body_induction (hr : r.Acyclic) {motive : Option Data → Schema → Prop}
    (step : ∀ x s, (∀ owner site, (body r d owner x site s).Only fun y t =>
      motive y t ∧ (r.Part s → r.Part t)) → motive x s) (x : Option Data) (s : Schema) :
    motive x s := by
  -- either the value gets smaller, or it stays and the schema leads down
  induction x using Data.parts_induction generalizing s with
  | step x ihparts =>
      induction s using Registry.Acyclic.induction hr with
      | kind k => exact step x _ fun _ _ => only_body_kind hr k
      | literals words distinct => exact step x _ fun _ _ => only_body_literals hr words distinct
      | array element =>
          refine step x _ fun _ _ => only_body_array fun y hy => ?_
          exact ⟨ihparts y hy element, fun hs => hs.element⟩
      | union candidates ih =>
          refine step x _ fun _ _ => only_candidatesBody fun c hc => ?_
          exact ⟨ih c hc, fun hs => hs.candidate hc⟩
      | object properties additional =>
          refine step x _ fun _ _ => only_body_object fun y hy t ht => ?_
          exact ⟨ihparts y hy t, fun hs => hs.child ht⟩
      | reference name ih =>
          refine step x _ fun _ _ => only_body_reference fun t ht => ?_
          exact ⟨ih t ht, fun _ => .registered ht⟩

/-- Over an acyclic registry every conversion ends. The induction is over parts of the value and,
for one and the same value, over the names that a schema exposes. -/
theorem exists_ends_body (hr : r.Acyclic) (owner : Option String) (x : Option Data) (site : Site)
    (s : Schema) : ∃ n result, Ends r d (body r d owner x site s) n result ∧ Answers result := by
  induction x, s using body_induction (d := d) hr generalizing owner site with
  | step x s ih => exact exists_ends_of_only (ih owner site) fun owner y site t h => h.1 owner site

/-- Over an acyclic registry the engine does not run out of its budget. So its last answer stands
for nothing that the program can do. -/
theorem answers_convertUnder (hr : r.Acyclic) (owner : Option String) (x : Option Data)
    (site : Site) (s : Schema) : Answers (convertUnder r d owner x site s) := by
  obtain ⟨n, result, hresult, hanswers⟩ := exists_ends_body (d := d) hr owner x site s
  rw [convertUnder_eq_run hr, hresult.run_eq (convertUnder_eq_run hr)]
  exact hanswers

/-- Over an acyclic registry, dangling references or not, the conversion of a value or its absence
under any schema comes to a result after finitely many steps. There is one such result and one such
number of steps, the engine gives that result, and it never runs out of its budget. -/
theorem convert_ends (hr : r.Acyclic) (d : Direction) (x : Option Data) (site : Site) (s : Schema) :
    (∃ n, ∀ m result, Ends r d (.call none x site s .done) m result ↔
      m = n ∧ result = convert r d x site s) ∧
      ∀ name, convert r d x site s ≠ .error (.endless name) := by
  obtain ⟨n, result, hresult, hanswers⟩ := exists_ends_body (d := d) hr none x site s
  have hconvert : convert r d x site s = result := by
    rw [convert_eq_convertUnder, convertUnder_eq_run hr]
    exact hresult.run_eq (convertUnder_eq_run hr)
  have hends : Ends r d (.call none x site s .done) (n + 0 + 1) result :=
    .call hresult (.done result)
  rw [hconvert]
  refine ⟨⟨n + 0 + 1, fun m other => ⟨fun h => h.unique hends, ?_⟩⟩, hanswers⟩
  rintro ⟨rfl, rfl⟩
  exact hends

/-- A tree without labels. Its schema leads to itself through an array, and to a name that is not
registered. -/
def trees : Registry :=
  Registry.ofList [("Tree", .union [.array (.reference "Tree"), .reference "Shrub"])]

theorem trees_acyclic : trees.Acyclic := by
  refine Registry.acyclic_of_rank (fun name => if name = "Tree" then 1 else 0) fun p hp name h => ?_
  obtain rfl : p = ("Tree", .union [.array (.reference "Tree"), .reference "Shrub"]) :=
    List.mem_singleton.1 hp
  obtain rfl : name = "Shrub" := by simpa [Schema.exposed, Schema.exposedByAll] using h
  decide

/-- A schema that leads to itself comes to an end all the same, because an array lies between. It
ends in a fault of the registry, which is an end as well. -/
theorem trees_convert_ends :
    ∃ n, ∀ m result, Ends trees .toInternal
        (.call none (some (.array [.array [], .null])) .root (.reference "Tree") .done) m result ↔
      m = n ∧ result = .error (.schemaNotFound "Shrub") := by
  obtain ⟨n, hn⟩ := (convert_ends trees_acyclic .toInternal (some (.array [.array [], .null])) .root
    (.reference "Tree")).1
  have hresult : convert trees .toInternal (some (.array [.array [], .null])) .root
      (.reference "Tree") = .error (.schemaNotFound "Shrub") := rfl
  rw [hresult] at hn
  exact ⟨n, hn⟩

/-- Where a name stands for itself, the recursion goes on forever. So `Ends` is a real condition,
and acyclicity is needed for it. -/
theorem not_ends_of_loop {name : String} (hname : r.find? name = some (.reference name)) {n : Nat}
    {result : Converted} : ¬ Ends r d (.call owner x site (.reference name) .done) n result := by
  induction n using Nat.strong_induction_on generalizing owner result with
  | _ n ih =>
      rintro (_ | ⟨h, -⟩)
      rw [body, hname] at h
      exact ih _ (by omega) h

end Agenda.Engine
