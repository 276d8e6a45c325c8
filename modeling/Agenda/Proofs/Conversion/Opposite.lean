/-
The two directions of conversion undo each other.

A value that was converted in one direction is taken back by the other, and what that gives leads to
the same converted value again. It need not be the first value: a spelling of an instant becomes the
canonical one, members are put in the order of their declaration, and what lies below a millisecond
is lost. But all that is lost at once, so the second way there ends where the first one did.

Three things could break this, and for each there is a condition. A union might pick another
candidate on the way back; it cannot if its candidates accept different shapes, since conversion
keeps the shape. A surplus member might take the name of a declared one on the other side; it cannot
if there are none, or if the names are the same on both sides. And an instant might be written in a
text that is not read back; it is not if its year is plain.
-/
import Agenda.Proofs.Conversion.Assembly
import Agenda.Proofs.Time.Spelling

set_option autoImplicit false

namespace Agenda

/-! ## The conditions on a registry -/

namespace Registry

/-- No two candidates of a union accept the same shape. Then the shape of a result tells which
candidate it came from, and the way back takes the same one. -/
def Separable (r : Registry) : Prop :=
  ∀ candidates, r.Part (.union candidates) →
    candidates.Pairwise fun a b => ∀ shape, ¬ (Engine.Accepts r a shape ∧ Engine.Accepts r b shape)

/-- Every object either refuses surplus members or has the same names on both sides. Otherwise a
surplus member might be taken for a declared one on the way back. -/
def KeepsNames (r : Registry) : Prop :=
  ∀ properties additional, r.Part (.object properties additional) →
    additional = none ∨ ∀ p ∈ properties, p.wireName = p.internalName

end Registry

namespace Engine

/-! ## The instants of a value -/

/-- An instant that the conversion of a value meets where the schema has a timestamp. Only these are
asked to lie in plain years; a text that merely looks like an instant is not met. -/
inductive Finds (r : Registry) (d : Direction) : Option Data → Schema → Instant → Prop where
  | here {x : Option Data} {t : Instant} (h : instantOf? x = some t) :
      Finds r d x (.kind .timestamp) t
  | reference {x : Option Data} {name : String} {s : Schema} {t : Instant}
      (hname : r.find? name = some s) (h : Finds r d x s t) : Finds r d x (.reference name) t
  | candidate {x : Option Data} {candidates : List Schema} {c : Schema} {t : Instant}
      (hc : c ∈ candidates) (haccepts : ∃ site out, convert r d x site c = .ok out)
      (h : Finds r d x c t) : Finds r d x (.union candidates) t
  | element {items : List Data} {v : Data} {s : Schema} {t : Instant} (hv : v ∈ items)
      (h : Finds r d (some v) s t) : Finds r d (some (.array items)) (.array s) t
  | declared {members : Table Data} {properties : List (Property Schema)}
      {additional : Option Schema} {p : Property Schema} {t : Instant} (hp : p ∈ properties)
      (h : Finds r d (Table.find? members (d.sourceName p)) p.schema t) :
      Finds r d (some (.object members)) (.object properties additional) t
  | surplus {members : Table Data} {properties : List (Property Schema)} {extra : Schema}
      {m : String × Data} {t : Instant} (hm : m ∈ surplus d properties members)
      (h : Finds r d (some m.2) extra t) :
      Finds r d (some (.object members)) (.object properties (some extra)) t

variable {r : Registry} {d : Direction} {owner : Option String} {x out z : Option Data}
  {site : Site} {properties : List (Property Schema)} {additional : Option Schema}

theorem finds_kind_iff {k : Kind} {t : Instant} :
    Finds r d x (.kind k) t ↔ k = .timestamp ∧ instantOf? x = some t := by
  constructor
  · intro h
    cases h with
    | here h => exact ⟨rfl, h⟩
  · rintro ⟨rfl, h⟩
    exact .here h

theorem exists_of_finds_union {candidates : List Schema} {t : Instant}
    (h : Finds r d x (.union candidates) t) : ∃ c ∈ candidates, Finds r d x c t := by
  cases h with
  | candidate hc _ h => exact ⟨_, hc, h⟩

/-! ## Names -/

theorem sourceName_opposite (p : Property Schema) : d.opposite.sourceName p = d.targetName p := by
  cases d <;> rfl

theorem targetName_opposite (p : Property Schema) : d.opposite.targetName p = d.sourceName p := by
  cases d <;> rfl

/-! ## The way back -/

/-- The opposite direction takes a converted value back to `z`, which is converted to the same
value. Neither depends on where the value stands. -/
def Undoes (r : Registry) (d : Direction) (s : Schema) (out z : Option Data) : Prop :=
  ∀ owner site, convertUnder r d.opposite owner out site s = .ok z ∧
    convertUnder r d owner z site s = .ok out

/-- An instant in a plain year is found again on the other side, in whatever way it was put
there. -/
theorem instantOf?_placeInstant {t : Instant} (ht : t.truncate = t) (hplain : t.IsPlain) :
    instantOf? (some (placeInstant d t)) = some t := by
  cases d with
  | toInternal =>
      show some t.truncate = some t
      rw [ht]
  | toWire =>
      show Timestamp.read? (Data.spell t) = some t
      rw [Timestamp.read?_spell, if_pos hplain, ht]

theorem exists_undoes_timestamp (h : convertUnder r d owner x site (.kind .timestamp) = .ok out)
    (hplain : ∀ t, Finds r d x (.kind .timestamp) t → t.IsPlain) :
    ∃ z, Undoes r d (.kind .timestamp) out z := by
  rcases convertUnder_timestamp_eq_ok_iff.1 h with ⟨rfl, rfl⟩ | ⟨t, ht, rfl⟩
  · refine ⟨some .null, fun owner site => ⟨?_, ?_⟩⟩
    · exact convertUnder_timestamp_eq_ok_iff.2 (.inl ⟨rfl, rfl⟩)
    · exact convertUnder_timestamp_eq_ok_iff.2 (.inl ⟨rfl, rfl⟩)
  · have htruncate := truncate_of_instantOf? ht
    have hyear := hplain t (.here ht)
    refine ⟨some (placeInstant d.opposite t), fun owner site => ⟨?_, ?_⟩⟩
    · exact convertUnder_timestamp_eq_ok_iff.2
        (.inr ⟨t, instantOf?_placeInstant htruncate hyear, rfl⟩)
    · exact convertUnder_timestamp_eq_ok_iff.2
        (.inr ⟨t, instantOf?_placeInstant htruncate hyear, rfl⟩)

/-- What keeps a value as it is undoes itself. That is so for all kinds but timestamps, and for
words. -/
theorem undoes_of_same {s : Schema}
    (h : ∀ d owner site, convertUnder r d owner out site s = .ok out) :
    Undoes r d s out out := fun owner site => ⟨h d.opposite owner site, h d owner site⟩

/-- Arrays are taken back element by element. What is there does not get lost on the way back, so
there are as many elements again. -/
theorem exists_undoes_array (hr : r.Acyclic) {element : Schema} {items outs : List Data}
    (h : List.Forall₂ (fun _ w => ∃ z, Undoes r d element (some w) z) items outs) :
    ∃ z, Undoes r d (.array element) (some (.array outs)) z := by
  have hback : ∃ zs, List.Forall₂ (fun w z => Undoes r d element (some w) (some z)) outs zs := by
    induction h with
    | nil => exact ⟨[], .nil⟩
    | cons hvw _ ih =>
        obtain ⟨z, hz⟩ := hvw
        obtain ⟨zs, hzs⟩ := ih
        obtain ⟨u, rfl⟩ := exists_some_of_eq_ok hr (hz none .root).1
        exact ⟨u :: zs, .cons hz hzs⟩
  obtain ⟨zs, hzs⟩ := hback
  refine ⟨some (.array zs), fun owner site => ⟨?_, ?_⟩⟩
  · refine (convertUnder_array_eq_ok_iff_forall₂ hr).2 ⟨outs, zs, rfl, rfl, ?_⟩
    exact hzs.imp fun w z hwz => (convert_eq_convertUnder _ _ _).trans (hwz none site).1
  · refine (convertUnder_array_eq_ok_iff_forall₂ hr).2 ⟨zs, outs, rfl, rfl, ?_⟩
    exact (hzs.imp fun w z hwz => (convert_eq_convertUnder _ _ _).trans (hwz none site).2).flip

/-- Where no two candidates accept the same shape, a union converts a value as any of its candidates
that does. -/
theorem convertUnder_union_of_mem (hacyclic : r.Acyclic) (hsound : r.Sound)
    (hseparable : r.Separable) {candidates : List Schema} {c : Schema}
    (hs : r.Part (.union candidates)) (hc : c ∈ candidates)
    (h : convertUnder r d none x site c = .ok out) :
    convertUnder r d owner x site (.union candidates) = .ok out := by
  obtain ⟨before, after, rfl⟩ := List.append_of_mem hc
  have hpairwise := (List.pairwise_append.1 (hseparable _ hs)).2.2
  rw [← convert_eq_convertUnder] at h
  refine convertUnder_union_eq_ok_iff.2 ⟨before, c, after, rfl, fun b hb => ?_, h⟩
  -- a candidate before `c` that does not reject would accept a shape that `c` accepts
  have hpart : r.Part b := hs.candidate (List.mem_append_left _ hb)
  rw [convert_eq_convertUnder]
  refine (settles hacyclic hsound x hpart none site).resolve_left ?_
  rintro ⟨o, ho⟩
  rw [← convert_eq_convertUnder] at ho
  exact hpairwise b hb c List.mem_cons_self (Data.shape x)
    ⟨⟨d, x, site, o, rfl, ho⟩, ⟨d, x, site, out, rfl, h⟩⟩

/-- A union takes a value back through the candidate that took it there. The others reject it, since
no two of them accept the same shape. -/
theorem undoes_union (hacyclic : r.Acyclic) (hsound : r.Sound) (hseparable : r.Separable)
    {candidates : List Schema} {c : Schema} (hs : r.Part (.union candidates))
    (hc : c ∈ candidates) (h : Undoes r d c out z) : Undoes r d (.union candidates) out z :=
  fun _ site =>
    ⟨convertUnder_union_of_mem hacyclic hsound hseparable hs hc (h none site).1,
      convertUnder_union_of_mem hacyclic hsound hseparable hs hc (h none site).2⟩

/-! ## Objects -/

/-- A surplus member that is converted has a name that is declared on neither side, by the condition
on names. -/
theorem notMem_names_of_mem_surplus {members : Table Data} {ws : List (Option Data)}
    (hkeeps : additional = none ∨ ∀ p ∈ properties, p.wireName = p.internalName)
    (hws : List.Forall₂ (ConvertsSurplus r d owner additional) (surplus d properties members) ws)
    {m : String × Data} (hm : m ∈ surplus d properties members) :
    m.1 ∉ properties.map d.sourceName ∧ m.1 ∉ properties.map d.targetName := by
  have hname : m.1 ∉ properties.map d.sourceName := of_decide_eq_true (List.mem_filter.1 hm).2
  refine ⟨hname, ?_⟩
  rcases hkeeps with rfl | hsame
  -- where no schema takes surplus members, `m` would need a row that cannot be there
  · obtain ⟨i, hi, rfl⟩ := List.getElem_of_mem hm
    obtain ⟨extra, hextra, _⟩ := hws.get hi (hws.length_eq ▸ hi)
    cases hextra
  · have htable : properties.map d.targetName = properties.map d.sourceName := by
      refine List.map_congr_left fun p hp => ?_
      cases d with
      | toInternal => exact (hsame p hp).symm
      | toWire => exact hsame p hp
    rw [htable]
    exact hname

/-- A converted object consists of the declared members and, behind them, of surplus ones whose
names are declared on neither side. -/
theorem exists_parts_of_object_eq_ok
    (hsource : (properties.map d.sourceName).Nodup) (htarget : (properties.map d.targetName).Nodup)
    (hkeeps : additional = none ∨ ∀ p ∈ properties, p.wireName = p.internalName)
    (h : convertUnder r d owner x site (.object properties additional) = .ok out) :
    ∃ (members : Table Data) (vs : List (Option Data)) (extras : Table Data),
      x = some (.object members) ∧
      List.Forall₂ (fun p v => convertProperty r d owner members p = .ok v) properties vs ∧
      (Table.keys extras).Nodup ∧
      (∀ e ∈ extras, e.1 ∉ properties.map d.sourceName ∧ e.1 ∉ properties.map d.targetName ∧
        ∃ m ∈ surplus d properties members,
          ConvertsSurplus r d owner additional m (some e.2)) ∧
      out = some (.object (present ((properties.map d.targetName).zip vs) ++ extras)) := by
  obtain ⟨members, vs, ws, rfl, hvs, hws, rfl⟩ := (convertUnder_object_eq_ok_iff hsource).1 h
  have hother : ∀ m ∈ surplus d properties members,
      m.1 ∉ properties.map d.sourceName ∧ m.1 ∉ properties.map d.targetName :=
    fun m hm => notMem_names_of_mem_surplus hkeeps hws hm
  -- each stored pair of a name and a result comes from one surplus member
  have hresult : ∀ n v, (n, v) ∈ (Table.keys (surplus d properties members)).zip ws →
      ∃ m ∈ surplus d properties members, m.1 = n ∧ ConvertsSurplus r d owner additional m v := by
    intro n v hm
    rw [Table.keys, List.zip_map_left] at hm
    obtain ⟨⟨m, w⟩, hmw, heq⟩ := List.mem_map.1 hm
    obtain ⟨rfl, rfl⟩ := Prod.mk.inj heq
    exact ⟨m, (List.of_mem_zip hmw).1, rfl, List.forall₂_zip hws hmw⟩
  refine ⟨members, vs, storeAll [] ((Table.keys (surplus d properties members)).zip ws), rfl, hvs,
    nodup_keys_storeAll _ (by simp), ?_, ?_⟩
  · intro e he
    rcases mem_storeAll he with hnil | hzip
    · cases hnil
    · obtain ⟨m, hm, hname, hconverts⟩ := hresult _ _ hzip
      exact ⟨hname ▸ (hother m hm).1, hname ▸ (hother m hm).2, m, hm, hconverts⟩
  · rw [storeAll_zip_append htarget (by rw [List.length_map, hvs.length_eq])]
    rintro ⟨n, v⟩ hm
    obtain ⟨m, hsurplus, rfl, _⟩ := hresult n v hm
    exact (hother m hsurplus).2

/-- Choices for the members of a list, beside them. -/
theorem exists_map_fst_eq {α β : Type} {P : α → β → Prop} {l : List α}
    (h : ∀ a ∈ l, ∃ b, P a b) : ∃ rows : List (α × β), rows.map Prod.fst = l ∧
      ∀ w ∈ rows, P w.1 w.2 := by
  induction l with
  | nil => exact ⟨[], rfl, by simp⟩
  | cons a l ih =>
      obtain ⟨b, hb⟩ := h a List.mem_cons_self
      obtain ⟨rows, hrows, hall⟩ := ih fun a ha => h a (List.mem_cons_of_mem _ ha)
      refine ⟨(a, b) :: rows, by rw [List.map_cons, hrows], ?_⟩
      rintro w hw
      rcases List.mem_cons.1 hw with rfl | hw
      · exact hb
      · exact hall w hw

/-- An object is taken back as soon as all its members are. Its declared members come back in the
order of the schema, so the object need not be the one it was. -/
theorem exists_undoes_object (hr : r.Acyclic) {vs : List (Option Data)} {extras : Table Data}
    (hsource : (properties.map d.sourceName).Nodup) (htarget : (properties.map d.targetName).Nodup)
    (hlength : properties.length = vs.length) (hkeys : (Table.keys extras).Nodup)
    (hother : ∀ e ∈ extras,
      e.1 ∉ properties.map d.sourceName ∧ e.1 ∉ properties.map d.targetName)
    (hdeclared : ∀ w ∈ properties.zip vs, ∃ z, Undoes r d w.1.schema w.2 z)
    (hextras : ∀ e ∈ extras, ∃ extra ∈ additional, ∃ z, Undoes r d extra (some e.2) z) :
    ∃ z, Undoes r d (.object properties additional)
      (some (.object (present ((properties.map d.targetName).zip vs) ++ extras))) z := by
  obtain ⟨rows, hrows, hback⟩ := exists_map_fst_eq hdeclared
  have hextra : ∀ e ∈ extras, ∃ z, ∃ extra ∈ additional, Undoes r d extra (some e.2) (some z) := by
    intro e he
    obtain ⟨extra, hadditional, z, hz⟩ := hextras e he
    obtain ⟨u, rfl⟩ := exists_some_of_eq_ok hr (hz none .root).1
    exact ⟨u, extra, hadditional, hz⟩
  obtain ⟨more, hmore, hmoreback⟩ := exists_map_fst_eq hextra
  -- the declared and the surplus members of the converted object, as rows with what leads back
  have hproperties : rows.map (fun w => w.1.1) = properties := by
    rw [← List.map_fst_zip (le_of_eq hlength), ← hrows, List.map_map]
    rfl
  have hout : Value.object (present ((properties.map d.targetName).zip vs) ++ extras) =
      assembled d.targetName rows (fun w => w.1.1) (fun w => w.1.2) more (fun e => e.1.1)
        (fun e => e.1.2) := by
    rw [assembled, List.zip_map_left, ← hrows, ← hmore, List.map_map]
    rfl
  have hnames : ∀ name : Property Schema → String,
      (rows.map fun w => name w.1.1) = properties.map name := by
    intro name
    rw [← hproperties, List.map_map]
    rfl
  have hmorekeys : (more.map fun e => e.1.1).Nodup := by
    rw [Table.keys, ← hmore, List.map_map] at hkeys
    exact hkeys
  have hmoreother : ∀ e ∈ more, e.1.1 ∉ properties.map d.sourceName ∧
      e.1.1 ∉ properties.map d.targetName := fun e he =>
    hother e.1 (hmore ▸ List.mem_map.2 ⟨e, he, rfl⟩)
  have hopposite : (d.opposite.sourceName : Property Schema → String) = d.targetName ∧
      (d.opposite.targetName : Property Schema → String) = d.sourceName :=
    ⟨funext sourceName_opposite, funext targetName_opposite⟩
  refine ⟨some (assembled d.sourceName rows (fun w => w.1.1) (fun w => w.2) more (fun e => e.1.1)
    (fun e => e.2)), fun owner site => ⟨?_, ?_⟩⟩
  -- the way back, where the target names are the source names
  · have hassembled := @convertUnder_assembled r d.opposite owner site additional _ _ rows
      (fun w => w.1.1) (fun w => w.1.2) (fun w => w.2) more (fun e => e.1.1) (fun e => e.1.2)
      (fun e => e.2)
    rw [hopposite.1, hopposite.2, hnames, hnames, hproperties] at hassembled
    rw [hout]
    refine hassembled htarget hsource hmorekeys (fun e he => (hmoreother e he).2)
      (fun e he => (hmoreother e he).1) ?_ ?_
    · exact fun w hw site => (convert_eq_convertUnder _ _ _).trans (hback w hw none site).1
    · intro e he
      obtain ⟨extra, hadditional, hz⟩ := hmoreback e he
      exact ⟨extra, hadditional, fun site =>
        (convert_eq_convertUnder _ _ _).trans (hz none site).1⟩
  -- the way there again, from the values that the way back gives
  · have hassembled := @convertUnder_assembled r d owner site additional _ _ rows (fun w => w.1.1)
      (fun w => w.2) (fun w => w.1.2) more (fun e => e.1.1) (fun e => e.2) (fun e => e.1.2)
    rw [hnames, hnames, hproperties] at hassembled
    rw [hout]
    refine hassembled hsource htarget hmorekeys (fun e he => (hmoreother e he).1)
      (fun e he => (hmoreother e he).2) ?_ ?_
    · exact fun w hw site => (convert_eq_convertUnder _ _ _).trans (hback w hw none site).2
    · intro e he
      obtain ⟨extra, hadditional, hz⟩ := hmoreback e he
      exact ⟨extra, hadditional, fun site =>
        (convert_eq_convertUnder _ _ _).trans (hz none site).2⟩

/-! ## Every value -/

/-- Whatever was converted is undone. The induction is on the value, and inside it on the schemas
that keep the value. -/
theorem exists_undoes (hacyclic : r.Acyclic) (hsound : r.Sound) (hseparable : r.Separable)
    (hkeeps : r.KeepsNames) {s : Schema} (hs : r.Part s)
    (h : convertUnder r d owner x site s = .ok out) (hplain : ∀ t, Finds r d x s t → t.IsPlain) :
    ∃ z, Undoes r d s out z := by
  induction x using Data.parts_induction generalizing s owner site out with
  | step x ihx =>
      induction s using Registry.Acyclic.induction hacyclic generalizing owner site out with
      | kind k =>
          by_cases hk : k = .timestamp
          · subst hk
            exact exists_undoes_timestamp h hplain
          · obtain ⟨hadmits, rfl⟩ := (convertUnder_kind_eq_ok_iff hk).1 h
            refine ⟨_, undoes_of_same fun d owner site => ?_⟩
            exact (convertUnder_kind_eq_ok_iff hk).2 ⟨hadmits, rfl⟩
      | literals words distinct =>
          obtain ⟨word, hword, rfl, rfl⟩ := convertUnder_literals_eq_ok_iff.1 h
          refine ⟨_, undoes_of_same fun d owner site => ?_⟩
          exact convertUnder_literals_eq_ok_iff.2 ⟨word, hword, rfl, rfl⟩
      | array element =>
          obtain ⟨items, outs, rfl, rfl, hitems⟩ :=
            (convertUnder_array_eq_ok_iff_forall₂ hacyclic).1 h
          refine exists_undoes_array hacyclic (?_ : List.Forall₂ _ items outs)
          refine List.forall₂_iff_zip.2 ⟨hitems.length_eq, fun {v w} hvw => ?_⟩
          have hv : v ∈ items := (List.of_mem_zip hvw).1
          have hw := List.forall₂_zip hitems hvw
          rw [convert_eq_convertUnder] at hw
          exact ihx _ (Data.mem_parts_of_mem_items hv) hs.element hw fun t ht =>
            hplain t (.element hv ht)
      | union candidates ih =>
          obtain ⟨before, c, after, hsplit, _, hc⟩ := convertUnder_union_eq_ok_iff.1 h
          have hmem : c ∈ candidates := by
            rw [hsplit]
            exact List.mem_append_right _ List.mem_cons_self
          -- a candidate takes the value itself: the schema gets smaller, the value does not
          have hfinds : ∀ t, Finds r d x c t → t.IsPlain := fun t ht =>
            hplain t (.candidate hmem ⟨site, out, hc⟩ ht)
          rw [convert_eq_convertUnder] at hc
          obtain ⟨z, hz⟩ := ih c hmem (hs.candidate hmem) hc hfinds
          exact ⟨z, undoes_union hacyclic hsound hseparable hs hmem hz⟩
      | object properties additional =>
          obtain ⟨members, vs, extras, rfl, hvs, hkeys, hextras, rfl⟩ :=
            exists_parts_of_object_eq_ok (hsound.sourceNames hs d) (hsound.targetNames hs d)
              (hkeeps _ _ hs) h
          refine exists_undoes_object hacyclic (hsound.sourceNames hs d) (hsound.targetNames hs d)
            hvs.length_eq hkeys (fun e he => ⟨(hextras e he).1, (hextras e he).2.1⟩) ?_ ?_
          · rintro ⟨p, v⟩ hw
            have hp := (List.of_mem_zip hw).1
            have hv := List.forall₂_zip hvs hw
            rw [convertProperty, convert_eq_convertUnder] at hv
            exact ihx _ (Data.find?_mem_parts members _) (hs.property hp) hv fun t ht =>
              hplain t (.declared hp ht)
          · intro e he
            obtain ⟨_, _, m, hm, extra, hextra, hv⟩ := hextras e he
            cases hextra
            rw [convert_eq_convertUnder] at hv
            have hmem : m ∈ members := (List.mem_filter.1 hm).1
            exact ⟨extra, rfl, ihx _ (Data.mem_parts_of_mem_members hmem) hs.additional hv
              fun t ht => hplain t (.surplus hm ht)⟩
      | reference name ih =>
          obtain ⟨s, hname⟩ := hsound.resolves hs
          rw [convertUnder_reference hacyclic hname] at h
          obtain ⟨z, hz⟩ := ih s hname (.registered hname) h fun t ht =>
            hplain t (.reference hname ht)
          refine ⟨z, fun owner site => ?_⟩
          rw [convertUnder_reference hacyclic hname, convertUnder_reference hacyclic hname]
          exact hz (some name) site

/-- Over a registry without issues in which no schema leads back to itself, a converted value is
taken back by the other direction, and what that gives is converted to the same value again. -/
theorem run_opposite (hissues : r.issues = []) (hacyclic : r.Acyclic) (hseparable : r.Separable)
    (hkeeps : r.KeepsNames) {name : String} {v w : Data}
    (hplain : ∀ t, Finds r d (some v) (.reference name) t → t.IsPlain)
    (h : run r d name v = .ok w) :
    ∃ u, run r d.opposite name w = .ok u ∧ run r d name u = .ok w := by
  rw [run_eq_ok_iff hacyclic] at h
  simp only [run_eq_ok_iff hacyclic]
  cases hname : r.find? name with
  | none =>
      rw [convertUnder_reference_of_none hname] at h
      cases h
  | some s =>
      rw [convertUnder_reference hacyclic hname] at h
      obtain ⟨z, hz⟩ := exists_undoes hacyclic (Registry.sound_of_issues_eq_nil hissues) hseparable
        hkeeps (.registered hname) h fun t ht => hplain t (.reference hname ht)
      obtain ⟨u, rfl⟩ := exists_some_of_eq_ok hacyclic (hz (some name) .root).1
      refine ⟨u, ?_, ?_⟩
      · rw [convertUnder_reference hacyclic hname, (hz (some name) .root).1]
      · rw [convertUnder_reference hacyclic hname, (hz (some name) .root).2]

/-! ## A recursive example

The schema of a stop leads to itself inside an object, through a union, and under other names on
either side, so all conditions are met and every part of the way back is walked. -/

/-- A stop of a journey: a name, a time, and the stop after it. -/
def stop : Schema :=
  .object [⟨"place_name", "name", .kind .string⟩, ⟨"leaves_at", "leavesAt", .kind .timestamp⟩,
    ⟨"next_stop", "next", .union [.kind .absent, .reference "Stop"]⟩] none

/-- The registry of that recursive schema. -/
def journey : Registry := Registry.ofList [("Stop", stop)]

theorem journey_find? {name : String} {s : Schema} (h : journey.find? name = some s) :
    name = "Stop" ∧ s = stop := by
  have hmem : (name, s) ∈ [("Stop", stop)] := Table.mem_of_find? h
  simpa using hmem

/-- Two stops, with members out of order and times in two of the forms. -/
def twoStops : Data :=
  .object [("leaves_at", .string "2024-09-01 8:05:00"), ("place_name", .string "Utrecht"),
    ("next_stop", .object [("place_name", .string "Zwolle"),
      ("leaves_at", .string "2024-09-01T11:00:00.1239+02:00")])]

/-- A stop leads to another one through an object, and there a value is taken apart, so no schema
leads to itself on one and the same value. -/
theorem journey_acyclic : journey.Acyclic := by
  refine Registry.acyclic_of_rank (fun _ => 0) fun p hp name hname => ?_
  obtain rfl : p = ("Stop", stop) := List.mem_singleton.1 hp
  simp [stop, Schema.exposed] at hname

/-- What stands anywhere in the schemas of a journey. The conditions on a registry are about all its
parts, so they are checked along this list. -/
theorem journey_parts {s : Schema} (h : journey.Part s) :
    s = stop ∨ s = .kind .string ∨ s = .kind .timestamp ∨
      s = .union [.kind .absent, .reference "Stop"] ∨ s = .kind .absent ∨
      s = .reference "Stop" := by
  induction h with
  | registered h => exact .inl (journey_find? h).2
  | element _ ih => simp [stop] at ih
  | candidate _ hs ih =>
      simp only [stop, reduceCtorEq, false_or, or_false, Schema.union.injEq] at ih
      subst ih
      simp only [List.mem_cons, List.not_mem_nil, or_false] at hs
      tauto
  | property _ hp ih =>
      simp only [stop, reduceCtorEq, or_false, Schema.object.injEq] at ih
      obtain ⟨rfl, rfl⟩ := ih
      simp only [List.mem_cons, List.not_mem_nil, or_false] at hp
      rcases hp with rfl | rfl | rfl <;> simp
  | additional _ ih => simp [stop] at ih

theorem journey_separable : journey.Separable := by
  intro candidates hpart
  have hunion := journey_parts hpart
  simp only [stop, reduceCtorEq, false_or, or_false, Schema.union.injEq] at hunion
  subst hunion
  refine List.pairwise_pair.2 fun shape h => ?_
  have habsent := mayAccept_of_accepts journey_acyclic h.1
  have hstop := mayAccept_of_accepts journey_acyclic h.2
  cases hstop with
  | reference hname hstop =>
      obtain ⟨-, rfl⟩ := journey_find? hname
      cases hstop
      cases habsent with
      | kind hshape => exact absurd hshape (by decide)

/-- The one object of a journey has no room for undeclared keys, so none can be taken for a declared
one. -/
theorem journey_keepsNames : journey.KeepsNames := by
  intro properties additional hpart
  have hobject := journey_parts hpart
  simp only [stop, reduceCtorEq, or_false, Schema.object.injEq] at hobject
  exact .inl hobject.2

theorem isPlain_of_read? {text : String} {t : Instant}
    (hall : (Timestamp.read? text).all (fun t => decide t.IsPlain) = true)
    (h : Timestamp.read? text = some t) : t.IsPlain := by
  rw [h] at hall
  exact of_decide_eq_true hall

/-- The instants of a stop are its time and those of the stops after it. -/
theorem finds_stop {x : Option Data} {t : Instant}
    (h : Finds journey .toInternal x (.reference "Stop") t) :
    ∃ members, x = some (.object members) ∧
      (instantOf? (Table.find? members "leaves_at") = some t ∨
        Finds journey .toInternal (Table.find? members "next_stop") (.reference "Stop") t) := by
  cases h with
  | reference hname h =>
      obtain ⟨-, rfl⟩ := journey_find? hname
      rw [stop] at h
      cases h with
      | @declared members _ _ p _ hp h =>
          refine ⟨members, rfl, ?_⟩
          simp only [List.mem_cons, List.not_mem_nil, or_false] at hp
          rcases hp with rfl | rfl | rfl
          · cases (finds_kind_iff.1 h).1
          · exact .inl (finds_kind_iff.1 h).2
          · obtain ⟨c, hc, h⟩ := exists_of_finds_union h
            simp only [List.mem_cons, List.not_mem_nil, or_false] at hc
            rcases hc with rfl | rfl
            · cases (finds_kind_iff.1 h).1
            · exact .inr h

/-- The instants of the journey are found at its stops, one after the other, and all of them were
read from texts of plain years. -/
theorem isPlain_of_finds_twoStops {t : Instant}
    (h : Finds journey .toInternal (some twoStops) (.reference "Stop") t) : t.IsPlain := by
  obtain ⟨_, ⟨⟩, ht | h⟩ := finds_stop h
  · exact isPlain_of_read? (by decide +kernel) ht
  · obtain ⟨_, ⟨⟩, ht | h⟩ := finds_stop h
    · exact isPlain_of_read? (by decide +kernel) ht
    · obtain ⟨_, hnone, _⟩ := finds_stop h
      cases hnone

/-- A journey of two stops, there and back and there again. On the way back both times are written
in the canonical form and the members in the declared order, so the wire data that come back are not
those that were given, but they are read as the same journey. -/
theorem journey_run_opposite : ∃ v w, run journey .toInternal "Stop" twoStops = .ok w ∧
    run journey .toWire "Stop" w = .ok v ∧ run journey .toInternal "Stop" v = .ok w := by
  have hok : (run journey .toInternal "Stop" twoStops).isOk = true := by decide +kernel
  cases h : run journey .toInternal "Stop" twoStops with
  | error e =>
      rw [h] at hok
      cases hok
  | ok w =>
      obtain ⟨v, hv⟩ := run_opposite (by decide +kernel) journey_acyclic journey_separable
        journey_keepsNames (fun t ht => isPlain_of_finds_twoStops ht) h
      exact ⟨v, w, rfl, hv⟩

end Engine

end Agenda
